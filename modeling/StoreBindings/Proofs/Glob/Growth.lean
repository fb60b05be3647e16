import StoreBindings.Proofs.Glob.Descending

/-!
# Looking for files in a tree that has been added to

A pattern finds in a tree what it found before something was added, and besides only what is new, in
one order: `find?_of_extends`. For this no part of the pattern may lead up from what is new to what was
there before; such parts have to stand behind names that lead to a directory from the start:
`isAnchored`.

* `agree_walk` — where no part leads up, a walk finds the same, new paths aside, in each of the four
  ways in which it goes on.
* `filter_enter` — the same for anchored patterns.
* `isRooted_of_mem_enter` — an anchored pattern finds nothing that climbs above the root.
* `exists_place_of_mem_enter` — names are found only where they lead to something.
-/

namespace StoreBindings.Glob

open Files (Tree descend)

namespace Search

variable {s : Search} {t t' u : Tree} {p : Pattern} {rest ps : List Pattern} {dir path : Path}
  {name : List Char} {fuel fuel' : Nat}

/-! ## The same walk in two trees -/

/-- Two lists of what is found behind each of some paths are the same, if those are the same and what
is new does not count. -/
lemma filter_flatMap_of {α β : Type} {p : α → Bool} {q : β → Bool} {l : List α} {f g : α → List β}
    (hold : ∀ a ∈ l, p a = true → (f a).filter q = g a)
    (hnew : ∀ a ∈ l, p a = false → (f a).filter q = []) :
    (l.flatMap f).filter q = (l.filter p).flatMap g := by
  induction l with
  | nil => rfl
  | cons a l ih =>
    have hrest := ih (fun b hb => hold b (List.mem_cons_of_mem _ hb))
      fun b hb => hnew b (List.mem_cons_of_mem _ hb)
    rw [List.flatMap_cons, List.filter_append, hrest]
    cases hp : p a with
    | true => rw [List.filter_cons_of_pos hp, List.flatMap_cons, hold a List.mem_cons_self hp]
    | false =>
      rw [List.filter_cons_of_neg (by simp [hp]), hnew a List.mem_cons_self hp, List.nil_append]

/-- Nothing that is found below a new path was there before. -/
lemma filter_eq_nil_of_down {found : List Path} (hproper : t.Proper) (hpath : path.text ≠ [])
    (hnot : t.isThere path = false) (hdown : ∀ r ∈ found, path.Down r) :
    found.filter t.isThere = [] := by
  refine List.filter_eq_nil_iff.2 ?_
  intro r hr
  rw [(hdown r hr).isThere_eq_false hproper hpath hnot]
  exact Bool.false_ne_true

/-- What is found behind one more name, if that name leads to anything. -/
lemma filter_of_join {found found' : List Path} (hext : t.Extends t') (hproper : t.Proper)
    (hdir : t.reaches dir = true) (hname : '/' ∉ name)
    (hold : t.reaches (dir.join ⟨name⟩) = true → found'.filter t.isThere = found)
    (hdown : t'.reaches (dir.join ⟨name⟩) = true → ∀ r ∈ found', (dir.join ⟨name⟩).Down r) :
    (if t'.reaches (dir.join ⟨name⟩) then found' else []).filter t.isThere =
      if t.reaches (dir.join ⟨name⟩) then found else [] := by
  cases hreach : t.reaches (dir.join ⟨name⟩) with
  | true =>
    rw [if_pos (hext.keeps.reaches hreach), if_pos rfl]
    exact hold hreach
  | false =>
    rw [if_neg Bool.false_ne_true]
    split
    · next hreach' =>
      -- what is new is nowhere in the tree before
      have hnot : t.isThere (dir.join ⟨name⟩) = false := by
        rw [← hext.keeps.reaches_join hdir hname hreach', hreach]
      exact filter_eq_nil_of_down hproper (Tree.text_ne_nil_of_reaches hreach') hnot (hdown hreach')
    · rfl

lemma filter_result (hext : t.Extends t') (hpath : t.reaches path = true) :
    (s.result t' path).filter t.isThere = s.result t path := by
  have hthere := Tree.isThere_of_reaches hpath
  unfold result
  rw [hext.keeps.isDirectory hpath]
  split
  · rfl
  · rw [List.filter_cons_of_pos hthere, List.filter_nil]

/-- The steps that a walk can need: several for each part, and several for each level below. -/
def room (t : Tree) (ps : List Pattern) (path : Path) : Nat :=
  4 * ps.length + 4 * (t.entries.size - path.target.length)

lemma room_cons (t : Tree) (p : Pattern) (ps : List Pattern) (path : Path) :
    room t (p :: ps) path = room t ps path + 4 := by
  unfold room
  rw [List.length_cons]
  omega

lemma room_le_of_down (hpath : path.text ≠ []) {q : Path} (h : path.Down q) (t : Tree)
    (ps : List Pattern) : room t ps q ≤ room t ps path := by
  have hle := (h.target_prefix hpath).length_le
  unfold room
  omega

lemma room_le_of_length (h : ps.length ≤ rest.length) (t : Tree) (path : Path) :
    room t ps path ≤ room t rest path := by
  unfold room
  omega

/-- A walk that goes down by a name has less room below. -/
lemma room_child (hproper : t.Proper) {child : Path} (hreach : t.reaches child = true)
    (h : child.target = dir.target ++ [name]) (ps : List Pattern) :
    room t ps child + 4 = room t ps dir := by
  have hle := hproper.length_le (Tree.isThere_of_reaches hreach)
  rw [h, List.length_append, List.length_singleton] at hle
  unfold room
  rw [h, List.length_append, List.length_singleton]
  omega

/-- Two ways of walking find the same from where they have room enough, new paths aside. -/
def Agree (t : Tree) (extra fuel fuel' : Nat) (walk walk' : List Pattern → Path → List Path) :
    Prop := ∀ ps path, Descends ps → t.reaches path = true → room t ps path + extra < fuel →
  room t ps path + extra < fuel' → (walk' ps path).filter t.isThere = walk ps path

/-- Behind one more name there is one part less. -/
lemma agree_step (hproceed : Agree t 1 fuel fuel' (s.proceed t fuel) (s.proceed t' fuel'))
    (hps : Descends (p :: rest)) (hdir : dir.text ≠ []) (hname : '/' ∉ name) (hne : name ≠ ['.', '.'])
    (hreach : t.reaches (dir.join ⟨name⟩) = true) (hroom : room t (p :: rest) dir < fuel + 1)
    (hroom' : room t (p :: rest) dir < fuel' + 1) :
    (s.proceed t' fuel' rest (dir.join ⟨name⟩)).filter t.isThere =
      s.proceed t fuel rest (dir.join ⟨name⟩) := by
  have hle := room_le_of_down hdir (.step .refl hname hne) t rest
  rw [room_cons] at hroom hroom'
  exact hproceed rest _ hps.tail hreach (by omega) (by omega)

/-- What is behind the names in a directory is found as before, and nothing that was there is behind a
new name. -/
lemma agree_contents (hext : t.Extends t') (hproper : t.Proper)
    (hvisit : Agree t 2 fuel fuel' (s.visit t fuel) (s.visit t' fuel')) (hps : Descends ps)
    (hdir : t.isDirectory dir = true) (hroom : room t ps dir < fuel + 1)
    (hroom' : room t ps dir < fuel' + 1) :
    ((contents t' dir).flatMap fun child => s.visit t' fuel' ps child).filter t.isThere =
      (contents t dir).flatMap fun child => s.visit t fuel ps child := by
  have hproper' := hext.proper hproper
  have hreach := Tree.reaches_of_isDirectory hdir
  have hdir' : t'.isDirectory dir = true := by rw [hext.keeps.isDirectory hreach, hdir]
  rw [← contents_of_extends hext hproper hdir]
  refine filter_flatMap_of ?_ ?_
  · intro child hchild hthere
    obtain ⟨name, rfl, hname, htarget, hreach'⟩ := mem_contents hproper' hdir' hchild
    have hreach : t.reaches (dir.join ⟨name⟩) = true := by
      rw [hext.keeps.reaches_join hreach hname.2.2.2 hreach', hthere]
    have hchildRoom := room_child hproper hreach htarget ps
    exact hvisit _ _ hps hreach (by omega) (by omega)
  · intro child hchild hthere
    obtain ⟨name, -, -, -, hreach'⟩ := mem_contents hproper' hdir' hchild
    obtain ⟨-, -, hdown, -⟩ := goesDown_walk hproper' s fuel'
    exact filter_eq_nil_of_down hproper (Tree.text_ne_nil_of_reaches hreach') hthere
      fun r hr => (hdown _ _ hps hreach' r hr).1

lemma agree_enter (hext : t.Extends t') (hproper : t.Proper)
    (hproceed : Agree t 1 fuel fuel' (s.proceed t fuel) (s.proceed t' fuel'))
    (hvisit : Agree t 2 fuel fuel' (s.visit t fuel) (s.visit t' fuel')) :
    Agree t 0 (fuel + 1) (fuel' + 1) (s.enter t (fuel + 1)) (s.enter t' (fuel' + 1)) := by
  intro ps dir hps hdir hroom hroom'
  have htext := Tree.text_ne_nil_of_reaches hdir
  have hproper' := hext.proper hproper
  cases ps with
  | nil => simp only [enter, List.filter_nil]
  | cons p rest =>
    obtain ⟨hslash, hup⟩ := hps p List.mem_cons_self
    cases hlit : literal? p with
    | some name =>
      have hname := slash_not_mem_of_literal? hslash hlit
      have hne := ne_up_of_literal? hup hlit
      obtain ⟨-, hdown, -, -⟩ := goesDown_walk hproper' s fuel'
      rw [enter_literal hproper htext hlit hname, enter_literal hproper' htext hlit hname]
      refine filter_of_join hext hproper hdir hname (fun hreach => ?_) fun hreach r hr => ?_
      · exact agree_step hproceed hps htext hname hne hreach hroom hroom'
      · exact (hdown rest _ hps.tail hreach r hr).1
    | none =>
      rw [enter_wild hlit hup, enter_wild hlit hup, hext.keeps.isDirectory hdir]
      split
      · next hisdir =>
        rw [List.filter_append, agree_contents hext hproper hvisit hps hisdir hroom hroom']
        congr 1
        split
        · exact agree_step hproceed hps htext (by decide) (by decide) (reaches_point hisdir) hroom hroom'
        · rfl
      · rfl

lemma agree_proceed (hext : t.Extends t')
    (henter : Agree t 0 fuel fuel' (s.enter t fuel) (s.enter t' fuel')) :
    Agree t 1 (fuel + 1) (fuel' + 1) (s.proceed t (fuel + 1)) (s.proceed t' (fuel' + 1)) := by
  intro ps path hps hpath hroom hroom'
  cases ps with
  | nil =>
    rw [proceed, proceed]
    exact filter_result hext hpath
  | cons p rest =>
    rw [proceed, proceed]
    exact henter _ path hps hpath (by omega) (by omega)

lemma agree_visit (hext : t.Extends t')
    (henter : Agree t 0 fuel fuel' (s.enter t fuel) (s.enter t' fuel'))
    (hnamed : Agree t 0 fuel fuel' (s.named t fuel) (s.named t' fuel')) :
    Agree t 2 (fuel + 1) (fuel' + 1) (s.visit t (fuel + 1)) (s.visit t' (fuel' + 1)) := by
  intro ps path hps hpath hroom hroom'
  have hisdir := hext.keeps.isDirectory hpath
  cases ps with
  | nil => simp only [visit, List.filter_nil]
  | cons p rest =>
    rw [visit, visit]
    split
    · split
      · rw [hisdir]
        split
        · have hle : room t [p] path ≤ room t (p :: rest) path :=
            room_le_of_length (by simp) t path
          rw [List.filter_cons_of_pos (Tree.isThere_of_reaches hpath),
            henter [p] path (descends_head hps) hpath (by omega) (by omega)]
        · rfl
      · next q more hmore =>
        obtain ⟨hafter, hall⟩ := descends_afterRecursive hps hmore
        have hlength := length_afterRecursive hmore
        -- the parts that are passed over leave room for both of the calls below
        have hle : room t (p :: q :: more) path ≤ room t (p :: rest) path :=
          room_le_of_length (by simp only [List.length_cons]; omega) t path
        rw [room_cons] at hle
        rw [List.filter_append, hnamed _ path hafter hpath (by omega) (by omega), hisdir]
        congr 1
        split
        · exact henter _ path hall hpath (by rw [room_cons]; omega) (by rw [room_cons]; omega)
        · rfl
    · exact hnamed _ path hps hpath (by omega) (by omega)

lemma agree_named (hproceed : Agree t 1 fuel fuel' (s.proceed t fuel) (s.proceed t' fuel')) :
    Agree t 0 (fuel + 1) (fuel' + 1) (s.named t (fuel + 1)) (s.named t' (fuel' + 1)) := by
  intro ps path hps hpath hroom hroom'
  cases ps with
  | nil => simp only [named, List.filter_nil]
  | cons p rest =>
    rw [room_cons] at hroom hroom'
    rw [named, named]
    split
    · exact hproceed rest path hps.tail hpath (by omega) (by omega)
    · rfl

/-- Where no part leads up, a walk in a tree that has been added to finds what it found before, new
paths aside, in each of the four ways in which it goes on. -/
theorem agree_walk (hext : t.Extends t') (hproper : t.Proper) (s : Search) (fuel fuel' : Nat) :
    Agree t 0 fuel fuel' (s.enter t fuel) (s.enter t' fuel') ∧
      Agree t 1 fuel fuel' (s.proceed t fuel) (s.proceed t' fuel') ∧
      Agree t 2 fuel fuel' (s.visit t fuel) (s.visit t' fuel') ∧
      Agree t 0 fuel fuel' (s.named t fuel) (s.named t' fuel') := by
  induction fuel generalizing fuel' with
  | zero => exact ⟨by intro; omega, by intro; omega, by intro; omega, by intro; omega⟩
  | succ fuel ih =>
    cases fuel' with
    | zero => exact ⟨by intro; omega, by intro; omega, by intro; omega, by intro; omega⟩
    | succ fuel' =>
      obtain ⟨henter, hproceed, hvisit, hnamed⟩ := ih fuel'
      exact ⟨agree_enter hext hproper hproceed hvisit, agree_proceed hext henter,
        agree_visit hext henter hnamed, agree_named hproceed⟩

/-! ## Anchored patterns -/

/-- A part that leads up stands behind names only, which lead to a directory that is there, and it does
not lead above the root. -/
def isAnchored (t : Tree) : List Pattern → Path → Bool
  | [], _ => true
  | p :: rest, dir =>
    (p :: rest).all (fun q => !leadsUp q) ||
      match literal? p with
      | some name => (name != ['.', '.'] || !dir.target.isEmpty) &&
          t.isDirectory (dir.join ⟨name⟩) && isAnchored t rest (dir.join ⟨name⟩)
      | none => false

lemma isAnchored_cons (h : isAnchored t (p :: rest) dir = true)
    (hslash : ∀ q ∈ p :: rest, .char '/' ∉ q) : Descends (p :: rest) ∨
      ∃ name, literal? p = some name ∧ '/' ∉ name ∧ (name = ['.', '.'] → dir.target ≠ []) ∧
        t.isDirectory (dir.join ⟨name⟩) = true ∧ isAnchored t rest (dir.join ⟨name⟩) = true := by
  rw [isAnchored, Bool.or_eq_true] at h
  rcases h with h | h
  · left
    intro q hq
    have hup := List.all_eq_true.1 h q hq
    exact ⟨hslash q hq, by simpa using hup⟩
  · right
    split at h
    · next name hlit =>
      simp only [Bool.and_eq_true, Bool.or_eq_true, bne_iff_ne, Bool.not_eq_true',
        List.isEmpty_eq_false_iff] at h
      obtain ⟨⟨hup, hdir⟩, hrest⟩ := h
      refine ⟨name, hlit, slash_not_mem_of_literal? (hslash p List.mem_cons_self) hlit, ?_, hdir,
        hrest⟩
      exact fun he => hup.resolve_left fun hne => hne he
    · cases h

/-- Parts that do not lead up can stand behind others. -/
lemma isAnchored_append {qs : List Pattern} (hqs : ∀ q ∈ qs, leadsUp q = false)
    (h : isAnchored t ps dir = true) : isAnchored t (ps ++ qs) dir = true := by
  have hall : qs.all (fun q => !leadsUp q) = true := by
    rw [List.all_eq_true]
    intro q hq
    rw [hqs q hq]
    rfl
  -- what is added leads up nowhere, so it can stand behind either kind of pattern
  induction ps generalizing dir with
  | nil =>
    rw [List.nil_append]
    cases qs with
    | nil => rfl
    | cons q qs => rw [isAnchored, hall, Bool.true_or]
  | cons p rest ih =>
    rw [isAnchored, Bool.or_eq_true] at h
    rw [List.cons_append, isAnchored, Bool.or_eq_true]
    rcases h with h | h
    · left
      rw [← List.cons_append, List.all_append, h, hall]
      rfl
    · right
      split at h
      · rw [Bool.and_eq_true] at h ⊢
        exact ⟨h.1, ih h.2⟩
      · cases h

/-- A name leads up by one level at most. -/
lemma length_le_descend (place : Files.Place) (name : List Char) :
    place.length ≤ (descend place name).length + 1 := by
  unfold descend
  split
  · omega
  · split
    · rw [List.length_dropLast]
      omega
    · rw [List.length_append]
      omega

/-- The same is found in a tree that has been added to, new paths aside, also if parts of the pattern
lead up from what was there before. -/
theorem filter_enter (hext : t.Extends t') (hproper : t.Proper)
    (hslash : ∀ q ∈ ps, .char '/' ∉ q) (hdir : t.reaches dir = true)
    (h : isAnchored t ps dir = true)
    (hroom : 8 * ps.length + 4 * (t.entries.size - dir.target.length) < fuel)
    (hroom' : 8 * ps.length + 4 * (t.entries.size - dir.target.length) < fuel') :
    (s.enter t' fuel' ps dir).filter t.isThere = s.enter t fuel ps dir := by
  induction ps generalizing dir fuel fuel' with
  | nil =>
    cases fuel <;> cases fuel' <;> simp only [enter, List.filter_nil]
  | cons p rest ih =>
    -- where nothing leads up any more the walks agree, and before that a literal part takes both
    -- one step on
    rcases isAnchored_cons h hslash with hdown | ⟨name, hlit, hname, -, hnext, hrest⟩
    · have hless : room t (p :: rest) dir + 0 ≤
          8 * (p :: rest).length + 4 * (t.entries.size - dir.target.length) := by
        unfold room
        omega
      exact (agree_walk hext hproper s fuel fuel').1 _ dir hdown hdir (by omega) (by omega)
    · have htext := Tree.text_ne_nil_of_reaches hdir
      have hreach := Tree.reaches_of_isDirectory hnext
      have hlength : dir.target.length ≤ (dir.join ⟨name⟩).target.length + 1 := by
        rw [Path.target_join htext hname]
        exact length_le_descend dir.target name
      rw [List.length_cons] at hroom hroom'
      obtain ⟨n, rfl⟩ : ∃ n, fuel = n + 2 := ⟨fuel - 2, by omega⟩
      obtain ⟨n', rfl⟩ : ∃ n', fuel' = n' + 2 := ⟨fuel' - 2, by omega⟩
      rw [enter_literal hproper htext hlit hname,
        enter_literal (hext.proper hproper) htext hlit hname,
        if_pos hreach, if_pos (hext.keeps.reaches hreach)]
      cases rest with
      | nil =>
        rw [proceed, proceed]
        exact filter_result hext hreach
      | cons q more =>
        rw [proceed, proceed]
        refine ih (fun x hx => hslash x (List.mem_cons_of_mem _ hx)) hreach hrest ?_ ?_
        · omega
        · omega

/-- What an anchored pattern finds is reached, and does not climb above the root. -/
theorem isRooted_of_mem_enter (hu : u.Proper) (hslash : ∀ q ∈ ps, .char '/' ∉ q)
    (hdir : dir.IsRooted) (hreach : u.reaches dir = true) (h : isAnchored t ps dir = true) {r : Path}
    (hr : r ∈ s.enter u fuel ps dir) : r.IsRooted ∧ u.reaches r = true := by
  induction ps generalizing dir fuel with
  | nil => cases fuel <;> simp only [enter, List.not_mem_nil] at hr
  | cons p rest ih =>
    have htext := hdir.text_ne_nil
    rcases isAnchored_cons h hslash with hdown | ⟨name, hlit, hname, hup, -, hrest⟩
    · obtain ⟨hfurther, hr⟩ := (goesDown_walk hu s fuel).1 _ dir hdown hreach r hr
      exact ⟨hfurther.isRooted hdir, hr⟩
    · -- without fuel nothing is found
      cases fuel with
      | zero => simp only [enter, List.not_mem_nil] at hr
      | succ fuel =>
        have hnext := hdir.join hname hup
        rw [enter_literal hu htext hlit hname] at hr
        split at hr
        · next hreach' =>
          cases fuel with
          | zero => cases rest <;> simp only [proceed, List.not_mem_nil] at hr
          | succ fuel =>
            cases rest with
            | nil =>
              rw [proceed] at hr
              rw [mem_result hr]
              exact ⟨hnext, hreach'⟩
            | cons q more =>
              rw [proceed] at hr
              exact ih (fun x hx => hslash x (List.mem_cons_of_mem _ hx)) hnext hreach' hrest hr
        · cases hr

/-- If anything is found behind names, the names lead to something. -/
theorem exists_place_of_mem_enter (hu : u.Proper) {names : List (List Char)} {qs : List Pattern}
    (hslash : ∀ name ∈ names, '/' ∉ name) (hdir : u.reaches dir = true) {r : Path}
    (hr : r ∈ s.enter u fuel (literals names ++ qs) dir) :
    ∃ place, u.follow dir.target names = .ok place ∧ (u.at? place).isSome = true := by
  induction names generalizing dir fuel with
  | nil => exact ⟨dir.target, rfl, Tree.isThere_of_reaches hdir⟩
  | cons name names ih =>
    have htext := Tree.text_ne_nil_of_reaches hdir
    have hname := hslash name List.mem_cons_self
    cases fuel with
    | zero => simp only [enter, List.not_mem_nil] at hr
    | succ fuel =>
      have hlit : literal? (name.map .char) = some name := literal?_eq_some_iff.2 rfl
      rw [literals, List.map_cons, List.cons_append, enter_literal hu htext hlit hname] at hr
      split at hr
      · next hnext =>
        have hd := ((Tree.reaches_join_iff htext hname).1 hnext).1
        rw [Tree.follow_cons_of_directory (Tree.isDirectory_iff.1 hd).2,
          ← Path.target_join htext hname]
        cases fuel with
        | zero => simp only [proceed, List.not_mem_nil] at hr
        | succ fuel =>
          by_cases hnil : literals names ++ qs = []
          · -- nothing is left of the pattern
            have hnames : names = [] := by
              have hempty := (List.append_eq_nil_iff.1 hnil).1
              simpa [literals] using hempty
            rw [hnames]
            exact ⟨_, rfl, Tree.isThere_of_reaches hnext⟩
          · obtain ⟨p, rest, hcons⟩ := List.exists_cons_of_ne_nil hnil
            change r ∈ s.proceed u (fuel + 1) (literals names ++ qs) _ at hr
            rw [hcons, proceed, ← hcons] at hr
            exact ih (fun n hn => hslash n (List.mem_cons_of_mem _ hn)) hnext hr
      · cases hr

/-- The path that a search begins at. -/
def root : Path := ⟨['/']⟩

lemma isRooted_root : root.IsRooted := by decide

lemma reaches_root (t : Tree) : t.reaches root = true :=
  Tree.reaches_iff.2 ⟨rfl, rfl⟩

/-- Whether a text is that of an anchored pattern. -/
def isAnchoredText (t : Tree) (cs : List Char) : Bool :=
  (Search.ofText? cs).all fun s => isAnchored t s.parts root

lemma mem_paths (hu : u.Proper) (hslash : ∀ q ∈ s.parts, .char '/' ∉ q)
    (h : isAnchored t s.parts root = true) : ∀ r ∈ s.paths u, r.IsRooted ∧ u.reaches r = true :=
  fun _ => isRooted_of_mem_enter hu hslash isRooted_root (reaches_root u) h

/-- A search in a tree that has been added to. -/
lemma filter_paths (hext : t.Extends t') (hproper : t.Proper)
    (hslash : ∀ q ∈ s.parts, .char '/' ∉ q) (h : isAnchored t s.parts root = true) :
    (s.paths t').filter t.isThere = s.paths t := by
  have hsize : t.entries.size ≤ t'.entries.size := by
    have hle := hext.keys.length_le
    simpa [OrderedMap.keys, OrderedMap.size] using hle
  have hroot : root.target.length = 0 := rfl
  refine filter_enter hext hproper hslash (reaches_root t) h ?_ ?_
  · omega
  · omega

end Search

/-- In a tree that has been added to, an anchored pattern finds what it found before, in the same
order, and besides only what is new. -/
theorem find?_of_extends {t t' : Tree} {cs : List Char} {found : List Path} (hext : t.Extends t')
    (hproper : t.Proper) (h : Search.isAnchoredText t cs = true) (hfound : find? t cs = some found) :
    ∃ found', find? t' cs = some found' ∧ found'.filter t.isThere = found ∧
      (∀ r ∈ found', r.IsRooted ∧ t'.reaches r = true) ∧ ∀ r ∈ found, t.reaches r = true := by
  obtain ⟨s, hs, rfl⟩ := Option.map_eq_some_iff.1 hfound
  unfold Search.isAnchoredText at h
  rw [hs, Option.all_some] at h
  have hslash := slash_not_mem_of_ofText? hs
  refine ⟨s.paths t', by rw [find?, hs]; rfl, Search.filter_paths hext hproper hslash h,
    Search.mem_paths (hext.proper hproper) hslash h, fun r hr => ?_⟩
  exact (Search.mem_paths hproper hslash h r hr).2

end StoreBindings.Glob
