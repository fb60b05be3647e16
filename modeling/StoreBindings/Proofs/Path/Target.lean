import Mathlib.Data.List.Basic
import Mathlib.Data.List.TakeWhile
import StoreBindings.Proofs.Files.Reading
import StoreBindings.Proofs.Path.Normal
import StoreBindings.Proofs.Path.Pieces

/-!
# The target of a path is decided by its components

Two spellings of one path lead to one place: `target_congr`. The converse does not hold, since `..`
takes a name back: `a/../b` and `b` are two paths that lead to one place.

* `target_join` — one more name leads one step further.
* `target_normalize` — the normal spelling of a path leads where the path leads.
* `exists_pieces_normalize` — and it is spelled by the names on the way there.
* `IsRooted` — a path that does not climb above the root, so that its place decides its normal spelling.
-/

namespace StoreBindings

/-- The place that one more component leads to. -/
def Component.descend (place : Files.Place) : Component → Files.Place
  | .root | .current => place
  | .parent => place.dropLast
  | .name text => place ++ [text]

/-- A name that an entry of a directory can have. -/
def Files.IsName (name : List Char) : Prop :=
  name ≠ [] ∧ name ≠ ['.'] ∧ name ≠ ['.', '.'] ∧ '/' ∉ name

namespace Path

open Files (Place IsName descend)

/-- A part of a path leads where its component leads, and nowhere else if it has none. -/
lemma descend_eq (place : Place) (p : List Char) :
    descend place p = (Component.ofPiece? p).elim place (Component.descend place) := by
  unfold descend Component.ofPiece?
  split
  · rfl
  · split <;> rfl

/-- The parts of a path lead where their components lead. -/
lemma foldl_descend (ps : List (List Char)) (place : Place) :
    ps.foldl descend place = (ps.filterMap Component.ofPiece?).foldl Component.descend place := by
  induction ps generalizing place with
  | nil => rfl
  | cons p ps ih =>
    rw [List.foldl_cons, ih, descend_eq, List.filterMap_cons]
    cases Component.ofPiece? p <;> rfl

/-- So the target of a path is reached component by component. -/
lemma target_eq_foldl (p : Path) : p.target = p.components.foldl Component.descend [] := by
  unfold target components
  split
  · rw [foldl_descend]
    rfl
  · cases hp : pieces p.text with
    | nil => rfl
    | cons first more =>
      rw [foldl_descend, List.foldl_append, List.filterMap_cons]
      by_cases hdot : first = ['.']
      · -- a leading point is a component of its own, which leads nowhere
        have hpiece : Component.ofPiece? first = none := by
          rw [Component.ofPiece?, if_pos (.inr hdot)]
        rw [hpiece, Component.ofFirst?, if_pos hdot]
        rfl
      · rw [Component.ofFirst?, if_neg hdot]
        cases Component.ofPiece? first <;> rfl

/-- Two spellings of one path lead to one place. -/
theorem target_congr {p q : Path} (h : p.components = q.components) : p.target = q.target := by
  rw [target_eq_foldl, target_eq_foldl, h]

/-! ## One more name -/

/-- A path without a slash is not absolute. -/
lemma isAbsolute_of_slash_not_mem {name : List Char} (h : '/' ∉ name) :
    (⟨name⟩ : Path).isAbsolute = false := by
  unfold isAbsolute
  cases name with
  | nil => rfl
  | cons c cs =>
    have hc : c ≠ '/' := fun he => h (he ▸ List.mem_cons_self)
    simpa using hc

/-- The parts of a path inside a directory: those of the directory, but for an empty one at its end,
and those of the path. -/
lemma exists_pieces_join_of_relative {dir p : Path} (hdir : dir.text ≠ [])
    (hp : p.isAbsolute = false) :
    ∃ ps, (pieces dir.text = ps ∨ pieces dir.text = ps ++ [[]]) ∧
      pieces (dir.join p).text = ps ++ pieces p.text := by
  rw [text_join dir hp, lead_eq]
  by_cases hslash : dir.text.getLast? = some '/'
  · rw [if_pos (.inr hslash)]
    obtain ⟨front, hfront⟩ := List.getLast?_eq_some_iff.1 hslash
    refine ⟨pieces front, .inr ?_, ?_⟩
    · rw [hfront, pieces_append_slash]
      rfl
    · rw [hfront, List.append_assoc, List.singleton_append, pieces_append_slash]
  · rw [if_neg (by simp [hdir, hslash]), List.append_assoc, List.singleton_append]
    exact ⟨pieces dir.text, .inl rfl, pieces_append_slash _ _⟩

/-- The parts of a path with one more name: those of the path, but for an empty one at its end. -/
lemma exists_pieces_join {dir : Path} (hdir : dir.text ≠ []) {name : List Char} (hname : '/' ∉ name) :
    ∃ ps, (pieces dir.text = ps ∨ pieces dir.text = ps ++ [[]]) ∧
      pieces (dir.join ⟨name⟩).text = ps ++ [name] := by
  obtain ⟨ps, hps, hjoin⟩ := exists_pieces_join_of_relative hdir (isAbsolute_of_slash_not_mem hname)
  exact ⟨ps, hps, by rw [hjoin, pieces_of_slash_not_mem hname]⟩

/-- One more name leads one step further. -/
theorem target_join {dir : Path} (hdir : dir.text ≠ []) {name : List Char} (hname : '/' ∉ name) :
    (dir.join ⟨name⟩).target = descend dir.target name := by
  obtain ⟨ps, hps, hjoin⟩ := exists_pieces_join hdir hname
  unfold target
  rw [hjoin, List.foldl_append]
  rcases hps with hps | hps
  · rw [hps]
    rfl
  · rw [hps, List.foldl_append]
    rfl

/-! ## Normal paths -/

/-- Resolving one more component leads where the component leads. -/
lemma foldl_descend_resolveStep {stack : List Component} (h : IsStack stack) {c : Component}
    (hc : c.IsStep) : (resolveStep stack c).reverse.foldl Component.descend [] =
      Component.descend (stack.reverse.foldl Component.descend []) c := by
  obtain ⟨names, stem, rfl, hstem, hnames⟩ := h
  cases c with
  | root => exact hc.elim
  | current => exact hc.elim
  | name n =>
    show (Component.name n :: (names ++ stem)).reverse.foldl Component.descend [] = _
    rw [List.reverse_cons, List.foldl_append]
    rfl
  | parent =>
    -- above a stem there is nothing to take back, and above names it is the last one
    cases names with
    | nil =>
      revert stem
      decide
    | cons d below =>
      obtain ⟨hd, hne⟩ := hnames d List.mem_cons_self
      cases d with
      | root => exact hd.elim
      | current => exact hd.elim
      | parent => exact absurd rfl hne
      | name n =>
        rw [List.cons_append, List.reverse_cons, List.foldl_append]
        show _ = (_ ++ [n]).dropLast
        rw [List.dropLast_concat]
        rfl

/-- Resolving several components leads where the components lead. -/
lemma foldl_descend_resolve {stack : List Component} (h : IsStack stack) {cs : List Component}
    (hcs : ∀ c ∈ cs, c.IsStep) : (cs.foldl resolveStep stack).reverse.foldl Component.descend [] =
      cs.foldl Component.descend (stack.reverse.foldl Component.descend []) := by
  induction cs generalizing stack with
  | nil => rfl
  | cons c cs ih =>
    have hc := hcs c List.mem_cons_self
    rw [List.foldl_cons, List.foldl_cons, ih (isStack_resolveStep h hc)
      fun d hd => hcs d (List.mem_cons_of_mem _ hd), foldl_descend_resolveStep h hc]

/-- The normal spelling of a path leads where the path leads. -/
@[simp] theorem target_normalize (p : Path) : p.normalize.target = p.target := by
  rw [target_eq_foldl, target_eq_foldl, components_normalize]
  obtain ⟨steps, hsteps, hp | hp | hp⟩ := components_cases p
  · rw [hp]
    exact foldl_descend_resolve ⟨[], [.root], rfl, by simp [stems], by simp⟩ hsteps
  · rw [hp]
    show (steps.foldl resolveStep []).reverse.foldl Component.descend [] =
      steps.foldl Component.descend []
    exact foldl_descend_resolve ⟨[], [], rfl, by simp [stems], by simp⟩ hsteps
  · rw [hp]
    exact foldl_descend_resolve ⟨[], [], rfl, by simp [stems], by simp⟩ hsteps

/-- A name leads one step down. -/
lemma descend_of_isName {name : List Char} (h : IsName name) (place : Place) :
    descend place name = place ++ [name] := by
  obtain ⟨hnil, hdot, hup, -⟩ := h
  unfold descend
  rw [if_neg (by simp [hnil, hdot]), if_neg hup]

/-- Names lead down one by one. -/
lemma foldl_descend_names {names : List (List Char)}
    (h : ∀ n ∈ names, IsName n) (place : Place) :
    names.foldl descend place = place ++ names := by
  induction names generalizing place with
  | nil => simp
  | cons n names ih =>
    rw [List.foldl_cons, descend_of_isName (h n List.mem_cons_self),
      ih fun m hm => h m (List.mem_cons_of_mem _ hm), List.append_assoc, List.singleton_append]

/-- A name behind a path leads to the name in the directory. -/
lemma target_join_of_isName {dir : Path} (hdir : dir.text ≠ []) {name : List Char}
    (h : IsName name) : (dir.join ⟨name⟩).target = dir.target ++ [name] := by
  rw [target_join hdir h.2.2.2, descend_of_isName h]

/-- Components that are names are those of a place. -/
lemma exists_place_of_names {cs : List Component} (h : ∀ c ∈ cs, c.IsStep ∧ c ≠ .parent) :
    ∃ place : Place, cs = place.map .name ∧ ∀ n ∈ place, IsName n := by
  induction cs with
  | nil => exact ⟨[], rfl, by simp⟩
  | cons c cs ih =>
    obtain ⟨place, rfl, hnames⟩ := ih fun d hd => h d (List.mem_cons_of_mem _ hd)
    obtain ⟨hstep, hne⟩ := h c List.mem_cons_self
    cases c with
    | root => exact hstep.elim
    | current => exact hstep.elim
    | parent => exact absurd rfl hne
    | name n =>
      refine ⟨n :: place, rfl, fun m hm => ?_⟩
      rcases List.mem_cons.1 hm with rfl | hm
      · exact hstep
      · exact hnames m hm

lemma map_text_name (place : Place) : (place.map Component.name).map Component.text = place := by
  rw [List.map_map]
  exact List.map_id' place

/-- The parts of names behind a stem: the names, and before them parts that lead nowhere from the
root. -/
lemma exists_pieces_ofComponents {stem : List Component} (hstem : stem ∈ stems) {place : Place}
    (h : ∀ n ∈ place, IsName n) : ∃ ups, (∀ q ∈ ups, q = [] ∨ q = ['.', '.']) ∧
      pieces (ofComponents (stem.reverse ++ place.map .name)).text = ups ++ place := by
  have hslash : ∀ n ∈ place, '/' ∉ n := fun n hn => (h n hn).2.2.2
  -- without any name a last empty part is left
  obtain ⟨ups, hups, hjoined⟩ : ∃ ups, (∀ q ∈ ups, q = [] ∨ q = ['.', '.']) ∧
      pieces (joined place) = ups ++ place := by
    by_cases hnil : place = []
    · exact ⟨[[]], by simp, by rw [hnil]; rfl⟩
    · exact ⟨[], by simp, pieces_joined hnil hslash⟩
  have hup : pieces (joined (['.', '.'] :: place)) = ['.', '.'] :: place := by
    refine pieces_joined (by simp) ?_
    intro q hq
    rcases List.mem_cons.1 hq with rfl | hq
    · decide
    · exact hslash q hq
  simp only [stems, List.mem_cons, List.not_mem_nil, or_false] at hstem
  rcases hstem with rfl | rfl | rfl | rfl
  · have hof : ofComponents (place.map Component.name) =
        ⟨joined ((place.map Component.name).map Component.text)⟩ := by
      cases place <;> rfl
    refine ⟨ups, hups, ?_⟩
    show pieces (ofComponents (place.map Component.name)).text = _
    rw [hof, map_text_name]
    exact hjoined
  · refine ⟨[] :: ups, by simpa using hups, ?_⟩
    show pieces ('/' :: joined ((place.map Component.name).map Component.text)) = _
    rw [map_text_name, pieces, if_pos rfl, hjoined]
    rfl
  · refine ⟨[['.', '.']], by simp, ?_⟩
    show pieces (joined (['.', '.'] :: (place.map Component.name).map Component.text)) = _
    rw [map_text_name]
    exact hup
  · refine ⟨[[], ['.', '.']], by simp, ?_⟩
    show pieces ('/' :: joined (['.', '.'] :: (place.map Component.name).map Component.text)) = _
    rw [map_text_name, pieces, if_pos rfl, hup]
    rfl

/-- From the root neither empty parts nor `..` lead anywhere. -/
lemma foldl_descend_ups {ups : List (List Char)} (h : ∀ q ∈ ups, q = [] ∨ q = ['.', '.']) :
    ups.foldl descend [] = [] := by
  induction ups with
  | nil => rfl
  | cons q ups ih =>
    have hq : descend [] q = [] := by
      rcases h q List.mem_cons_self with rfl | rfl <;> rfl
    rw [List.foldl_cons, hq]
    exact ih fun r hr => h r (List.mem_cons_of_mem _ hr)

/-- A normal path is spelled by its names, behind parts that lead nowhere from the root. -/
theorem exists_pieces_normalize (p : Path) : ∃ ups, (∀ q ∈ ups, q = [] ∨ q = ['.', '.']) ∧
    (∀ n ∈ p.target, IsName n) ∧
    pieces p.normalize.text = ups ++ p.target := by
  obtain ⟨names, stem, hstack, hstem, hnames⟩ := isStack_components p
  obtain ⟨place, hplace, hname⟩ :=
    exists_place_of_names fun c hc => hnames c (List.mem_reverse.1 hc)
  have hpath : p.normalize = ofComponents (stem.reverse ++ place.map .name) := by
    unfold normalize resolve
    rw [hstack, List.reverse_append, hplace]
  obtain ⟨ups, hups, hspelled⟩ := exists_pieces_ofComponents hstem hname
  rw [← hpath] at hspelled
  have htarget : p.target = place := by
    rw [← target_normalize, target, hspelled, List.foldl_append, foldl_descend_ups hups,
      foldl_descend_names hname, List.nil_append]
  rw [htarget]
  exact ⟨ups, hups, hname, hspelled⟩

/-! ## Paths below the root -/

/-- The normal spelling of a place. -/
def ofPlace (place : Place) : Path := ofComponents (.root :: place.map .name)

variable {place : Place}

lemma isAbsolute_ofPlace (place : Place) : (ofPlace place).isAbsolute = true := rfl

lemma text_ofPlace (place : Place) : (ofPlace place).text = '/' :: joined place := by
  show '/' :: joined ((place.map Component.name).map Component.text) = _
  rw [map_text_name]

lemma text_ofPlace_ne_nil (place : Place) : (ofPlace place).text ≠ [] := by
  rw [text_ofPlace]
  exact List.cons_ne_nil _ _

/-- A path in its normal spelling that begins with a name from the root does not climb. -/
lemma eq_ofPlace_of_pieces {f : Path} {more name : List Char} {rest : List (List Char)}
    (hf : f.normalize = f) (htext : f.text = '/' :: more) (hpieces : pieces more = name :: rest)
    (hname : IsName name) : (∀ n ∈ name :: rest, IsName n) ∧ f = ofPlace (name :: rest) := by
  obtain ⟨ups, hups, hnames, hsplit⟩ := exists_pieces_normalize f
  rw [hf, htext, pieces, if_pos rfl, hpieces] at hsplit
  -- a normal spelling from the root begins with the empty part, and no `..` follows as there is a
  -- name
  have htarget : f.target = name :: rest := by
    cases ups with
    | nil =>
      rw [List.nil_append] at hsplit
      exact absurd rfl (hnames [] (hsplit ▸ List.mem_cons_self)).1
    | cons up ups =>
      rw [List.cons_append, List.cons.injEq] at hsplit
      cases ups with
      | nil => exact hsplit.2.symm
      | cons up ups =>
        obtain ⟨rfl, -⟩ := List.cons.inj hsplit.2
        exact absurd (hups name (by simp)) (not_or.2 ⟨hname.1, hname.2.2.1⟩)
  rw [htarget] at hnames
  refine ⟨hnames, ?_⟩
  have hspelled : f.text = (ofPlace (name :: rest)).text := by
    rw [text_ofPlace, ← hpieces, joined_pieces, htext]
  exact congrArg Path.mk hspelled

/-- The normal spelling of a place consists of its names. -/
lemma pieces_ofPlace (hne : place ≠ []) (h : ∀ n ∈ place, IsName n) :
    pieces (ofPlace place).text = [] :: place := by
  rw [text_ofPlace, pieces, if_pos rfl, pieces_joined hne fun n hn => (h n hn).2.2.2]

/-- It leads to the place. -/
lemma target_ofPlace (h : ∀ n ∈ place, IsName n) : (ofPlace place).target = place := by
  by_cases hne : place = []
  · rw [hne]
    rfl
  · rw [target, pieces_ofPlace hne h]
    exact foldl_descend_names h []

/-- Its components are the root and the names. -/
lemma components_ofPlace (h : ∀ n ∈ place, IsName n) :
    (ofPlace place).components = .root :: place.map .name := by
  refine components_ofComponents_root fun c hc => ?_
  obtain ⟨n, hn, rfl⟩ := List.mem_map.1 hc
  exact h n hn

/-- One more name, spelled from the root. -/
lemma join_ofPlace (h : ∀ n ∈ place, IsName n) {name : List Char} (hname : IsName name) :
    (ofPlace place).join ⟨name⟩ = ofPlace (place ++ [name]) := by
  have htext : (ofPlace (place ++ [name])) = ⟨'/' :: joined (place ++ [name])⟩ :=
    congrArg Path.mk (text_ofPlace _)
  unfold join
  rw [isAbsolute_of_slash_not_mem hname.2.2.2, if_neg Bool.false_ne_true, text_ofPlace, htext]
  by_cases hne : place = []
  · rw [hne]
    rfl
  · obtain ⟨front, last, rfl⟩ := (List.eq_nil_or_concat' place).resolve_left hne
    -- the last name does not end in a slash
    have hlast : ('/' :: joined (front ++ [last])).getLast? ≠ some '/' := by
      obtain ⟨hnil, -, -, hslash⟩ := h last (by simp)
      obtain ⟨before, hbefore⟩ : ∃ before, '/' :: joined (front ++ [last]) = before ++ last := by
        by_cases hfront : front = []
        · rw [hfront]
          exact ⟨['/'], rfl⟩
        · rw [joined_append hfront (by simp)]
          exact ⟨'/' :: joined front ++ ['/'], by simp [joined]⟩
      rw [hbefore, List.getLast?_append_of_ne_nil _ hnil]
      exact fun he => hslash (List.mem_of_getLast? he)
    rw [if_neg (by simp [hlast]), joined_append hne (by simp)]
    rfl

/-- The last name of a place is the name of the file there. -/
lemma fileName?_ofPlace {name : List Char} (h : ∀ n ∈ place ++ [name], IsName n) :
    (ofPlace (place ++ [name])).fileName? = some name := by
  unfold fileName?
  rw [components_ofPlace h, List.map_append, ← List.cons_append, List.map_singleton,
    List.getLast?_concat]

/-- The directory above a place is the one without its last name. -/
lemma parent?_ofPlace (h : ∀ n ∈ place, IsName n) : (ofPlace place).parent? =
    if place = [] then none else some (ofPlace place.dropLast) := by
  have hbusy : ∀ n ∈ place, isIdle n = false := by
    intro n hn
    obtain ⟨hnil, hdot, hup, -⟩ := h n hn
    simp [isIdle, Component.ofPiece?, hnil, hdot, hup]
  unfold parent?
  rw [if_pos (isAbsolute_ofPlace place)]
  by_cases hne : place = []
  · rw [if_pos hne, hne]
    rfl
  · have hpieces := pieces_ofPlace hne h
    obtain ⟨front, last, rfl⟩ := (List.eq_nil_or_concat' place).resolve_left hne
    -- a name is not idle, so nothing but the last one is taken off
    have hfront : front.reverse.dropWhile isIdle = front.reverse := by
      refine List.dropWhile_eq_self_iff.2 fun hpos => ?_
      have hmem : front.reverse[0] ∈ front := List.mem_reverse.1 (List.getElem_mem hpos)
      rw [hbusy _ (List.mem_append_left _ hmem)]
      exact Bool.false_ne_true
    rw [if_neg hne, hpieces, List.drop_one, List.tail_cons, List.reverse_concat, dropLast?,
      List.dropWhile_cons_of_neg (by rw [hbusy last (by simp)]; exact Bool.false_ne_true)]
    dsimp only
    rw [hfront, Option.map_some, List.reverse_reverse, List.dropLast_concat]
    exact congrArg some (congrArg Path.mk (text_ofPlace front).symm)

/-- The path is spelled from the root, and does not climb above it. -/
def IsRooted (p : Path) : Prop :=
  p.isAbsolute = true ∧ p.normalize.components = .root :: p.target.map .name

instance (p : Path) : Decidable p.IsRooted := inferInstanceAs (Decidable (_ ∧ _))

/-- What is spelled from the root by names is resolved already. -/
lemma normalize_ofPlace (h : ∀ n ∈ place, IsName n) : (ofPlace place).normalize = ofPlace place := by
  have hstack : IsStack (.root :: place.map Component.name).reverse := by
    refine ⟨(place.map Component.name).reverse, [.root], by simp, by simp [stems], fun c hc => ?_⟩
    obtain ⟨n, hn, rfl⟩ := List.mem_map.1 (List.mem_reverse.1 hc)
    exact ⟨h n hn, by simp⟩
  have hresolve := resolve_reverse hstack
  rw [List.reverse_reverse] at hresolve
  rw [normalize, components_ofPlace h, hresolve]
  rfl

/-- The normal spelling of a place does not climb. -/
lemma isRooted_ofPlace (h : ∀ n ∈ place, IsName n) : (ofPlace place).IsRooted := by
  refine ⟨rfl, ?_⟩
  rw [normalize_ofPlace h, components_ofPlace h, target_ofPlace h]

/-- The target of a path is reached by names. -/
lemma isName_of_mem_target (p : Path) : ∀ n ∈ p.target, IsName n :=
  let ⟨_, _, hnames, _⟩ := exists_pieces_normalize p
  hnames

/-- A path from the root has a text. -/
lemma IsRooted.text_ne_nil {p : Path} (h : p.IsRooted) : p.text ≠ [] :=
  text_ne_nil_of_isAbsolute h.1

/-- The normal form of a path that does not climb is that of its place. -/
lemma IsRooted.normalize_eq {p : Path} (h : p.IsRooted) : p.normalize = ofPlace p.target := by
  rw [ofPlace, ← h.2, components_normalize]
  rfl

/-- It does not climb either. -/
lemma IsRooted.normalize {p : Path} (h : p.IsRooted) : p.normalize.IsRooted := by
  refine ⟨?_, ?_⟩
  · rw [h.normalize_eq]
    rfl
  · rw [normalize_normalize, target_normalize, h.2]

/-- Below the root there is one normal spelling for each place. -/
lemma IsRooted.normalize_congr {p q : Path} (hp : p.IsRooted) (hq : q.IsRooted)
    (h : p.target = q.target) : p.normalize = q.normalize := by
  rw [hp.normalize_eq, hq.normalize_eq, h]

/-- A path stays below the root with one more name, unless that name leads above it. -/
lemma IsRooted.join {dir : Path} (h : dir.IsRooted) {name : List Char} (hname : '/' ∉ name)
    (hup : name = ['.', '.'] → dir.target ≠ []) : (dir.join ⟨name⟩).IsRooted := by
  have hne := h.text_ne_nil
  obtain ⟨habs, hdir⟩ := h
  have habs' : (dir.join ⟨name⟩).isAbsolute = true := by
    rw [isAbsolute_join hne _ (isAbsolute_of_slash_not_mem hname), habs]
  refine ⟨habs', ?_⟩
  obtain ⟨ps, hps, hjoin⟩ := exists_pieces_join hne hname
  have hcomponents : (dir.join ⟨name⟩).components =
      dir.components ++ (Component.ofPiece? name).toList := by
    unfold components
    rw [if_pos habs', if_pos habs, hjoin, List.filterMap_append]
    have hlast : [name].filterMap Component.ofPiece? = (Component.ofPiece? name).toList := by
      cases hc : Component.ofPiece? name <;> simp [hc]
    rw [hlast]
    rcases hps with hps | hps
    · rw [hps]
      rfl
    · rw [hps, List.filterMap_append]
      simp [Component.ofPiece?]
  have hstack : dir.components.foldl resolveStep [] =
      (dir.target.map Component.name).reverse ++ [.root] := by
    rw [components_normalize] at hdir
    have hreverse := congrArg List.reverse hdir
    rw [List.reverse_cons] at hreverse
    simpa [resolve] using hreverse
  rw [components_normalize, hcomponents, target_join hne hname, resolve, List.foldl_append, hstack]
  -- one more component changes the stack as one more name changes the place
  unfold Component.ofPiece? descend
  split
  · simp
  · split
    · next hparent =>
      obtain ⟨front, last, hfront⟩ := (List.eq_nil_or_concat' dir.target).resolve_left (hup hparent)
      rw [hfront]
      simp [resolveStep]
    · simp [resolveStep]

end Path

end StoreBindings
