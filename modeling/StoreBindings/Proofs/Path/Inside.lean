import StoreBindings.Proofs.Path.Climbing

/-!
# Paths that stay inside a directory

A relative path stays inside if no `..` in it leads above the place where it begins. Then `insideFrom?`
says where it leads from a place in a directory, and that does not depend on the directory: joined to one,
the path leads there (`target_join_ofPlace`), and this is how it is spelled in the end
(`normalize_join_ofPlace`).
-/

namespace StoreBindings.Path

open Files (Place IsName descend)

/-- The place that one more part of a path leads to, unless it leads above where all began. -/
def insideStep? (place : Place) (piece : List Char) : Option Place :=
  if piece = ['.', '.'] ∧ place = [] then none else some (descend place piece)

/-- Where a relative path leads from a place in a directory, unless it climbs above the directory. -/
def insideFrom? (place : Place) (p : Path) : Option Place :=
  if p.isAbsolute then none else (pieces p.text).foldlM insideStep? place

/-- Where a relative path leads in a directory, unless it climbs above it. -/
def inside? (p : Path) : Option Place := p.insideFrom? []

variable {base place place' : Place} {piece name : List Char} {ps : List (List Char)} {p q dir : Path}

/-! ## Parts that stay inside -/

/-- A part that stays inside leads where it leads anywhere. -/
lemma eq_descend_of_insideStep? (h : insideStep? place piece = some place') :
    place' = descend place piece ∧ ¬ (piece = ['.', '.'] ∧ place = []) := by
  unfold insideStep? at h
  split at h
  · cases h
  · next hup => exact ⟨(Option.some.inj h).symm, hup⟩

/-- Behind a directory a part leads on from there. -/
lemma descend_append (h : insideStep? place piece = some place') (base : Place) :
    descend (base ++ place) piece = base ++ place' := by
  obtain ⟨rfl, hup⟩ := eq_descend_of_insideStep? h
  unfold descend
  split
  · rfl
  · split
    · next hparent => rw [List.dropLast_append_of_ne_nil fun hnil => hup ⟨hparent, hnil⟩]
    · rw [List.append_assoc]

/-- It does so from wherever the directory is. -/
lemma insideStep?_append (h : insideStep? place piece = some place') (base : Place) :
    insideStep? (base ++ place) piece = some (base ++ place') := by
  obtain ⟨-, hup⟩ := eq_descend_of_insideStep? h
  unfold insideStep?
  rw [if_neg (fun hc => hup ⟨hc.1, (List.append_eq_nil_iff.1 hc.2).2⟩), descend_append h]

/-- So do several parts. -/
lemma foldlM_insideStep?_append (h : ps.foldlM insideStep? place = some place') (base : Place) :
    ps.foldlM insideStep? (base ++ place) = some (base ++ place') := by
  induction ps generalizing place with
  | nil =>
    cases h
    rfl
  | cons piece ps ih =>
    rw [List.foldlM_cons] at h ⊢
    obtain ⟨next, hnext, hrest⟩ := Option.bind_eq_some_iff.1 h
    rw [insideStep?_append hnext]
    exact ih hrest

/-- Parts that stay inside lead where they lead anywhere. -/
lemma foldl_descend_of_inside (h : ps.foldlM insideStep? place = some place') :
    ps.foldl descend place = place' := by
  induction ps generalizing place with
  | nil => exact Option.some.inj h
  | cons piece ps ih =>
    rw [List.foldlM_cons] at h
    obtain ⟨next, hnext, hrest⟩ := Option.bind_eq_some_iff.1 h
    rw [List.foldl_cons, ← (eq_descend_of_insideStep? hnext).1]
    exact ih hrest

/-- Resolving the parts of a path takes names back just as they lead up. -/
lemma foldl_resolveStep_of_inside (h : ps.foldlM insideStep? place = some place')
    (stem : List Component) :
    (ps.filterMap Component.ofPiece?).foldl resolveStep ((place.map Component.name).reverse ++ stem) =
      (place'.map Component.name).reverse ++ stem := by
  induction ps generalizing place with
  | nil =>
    cases h
    rfl
  | cons piece ps ih =>
    rw [List.foldlM_cons] at h
    obtain ⟨next, hnext, hrest⟩ := Option.bind_eq_some_iff.1 h
    rw [← ih hrest]
    obtain ⟨rfl, hup⟩ := eq_descend_of_insideStep? hnext
    -- the stack holds the names of the place, whose last one is taken back by a `..`
    by_cases hidle : piece = [] ∨ piece = ['.']
    · have hnone : Component.ofPiece? piece = none := by rw [Component.ofPiece?, if_pos hidle]
      rw [List.filterMap_cons_none hnone, descend, if_pos hidle]
    · by_cases hparent : piece = ['.', '.']
      · have hsome : Component.ofPiece? piece = some .parent := by
          rw [Component.ofPiece?, if_neg hidle, if_pos hparent]
        obtain ⟨front, last, rfl⟩ :=
          (List.eq_nil_or_concat' place).resolve_left fun hnil => hup ⟨hparent, hnil⟩
        rw [List.filterMap_cons_some hsome, List.foldl_cons, descend, if_neg hidle, if_pos hparent,
          List.dropLast_concat]
        simp [resolveStep]
      · have hsome : Component.ofPiece? piece = some (.name piece) := by
          rw [Component.ofPiece?, if_neg hidle, if_neg hparent]
        rw [List.filterMap_cons_some hsome, List.foldl_cons, descend, if_neg hidle, if_neg hparent]
        simp [resolveStep]

/-- A name stays inside. -/
lemma insideStep?_of_isName (h : IsName piece) (place : Place) :
    insideStep? place piece = some (place ++ [piece]) := by
  unfold insideStep?
  rw [if_neg (fun hc => h.2.2.1 hc.1), descend_of_isName h]

/-- So do several names. -/
lemma foldlM_insideStep?_names (h : ∀ n ∈ ps, IsName n) (place : Place) :
    ps.foldlM insideStep? place = some (place ++ ps) := by
  induction ps generalizing place with
  | nil => rw [List.append_nil]; rfl
  | cons piece ps ih =>
    rw [List.foldlM_cons, insideStep?_of_isName (h piece List.mem_cons_self)]
    show ps.foldlM insideStep? (place ++ [piece]) = _
    rw [ih fun n hn => h n (List.mem_cons_of_mem _ hn), List.append_assoc, List.singleton_append]

/-- Where a path inside leads there are names. -/
lemma forall_isName_of_inside (h : ps.foldlM insideStep? place = some place')
    (hplace : ∀ n ∈ place, IsName n) (hslash : ∀ piece ∈ ps, '/' ∉ piece) : ∀ n ∈ place', IsName n := by
  induction ps generalizing place with
  | nil =>
    cases h
    exact hplace
  | cons piece ps ih =>
    rw [List.foldlM_cons] at h
    obtain ⟨next, hnext, hrest⟩ := Option.bind_eq_some_iff.1 h
    refine ih hrest ?_ fun x hx => hslash x (List.mem_cons_of_mem _ hx)
    rw [(eq_descend_of_insideStep? hnext).1]
    intro n hn
    unfold descend at hn
    split at hn
    · exact hplace n hn
    · next hidle =>
      split at hn
      · exact hplace n (List.dropLast_subset _ hn)
      · next hparent =>
        rcases List.mem_append.1 hn with hn | hn
        · exact hplace n hn
        · rw [List.mem_singleton.1 hn]
          exact ⟨fun hnil => hidle (.inl hnil), fun hdot => hidle (.inr hdot), hparent,
            hslash piece List.mem_cons_self⟩

/-! ## Paths that stay inside -/

/-- A path stays inside if it is relative and its parts do. -/
lemma insideFrom?_eq_some_iff : p.insideFrom? place = some place' ↔
    p.isAbsolute = false ∧ (pieces p.text).foldlM insideStep? place = some place' := by
  unfold insideFrom?
  cases p.isAbsolute <;> simp

lemma isAbsolute_of_inside? (h : p.inside? = some place) : p.isAbsolute = false :=
  (insideFrom?_eq_some_iff.1 h).1

/-- A path that stays inside leads on by names. -/
lemma isName_of_insideFrom? (h : p.insideFrom? place = some place') (hplace : ∀ n ∈ place, IsName n) :
    ∀ n ∈ place', IsName n :=
  forall_isName_of_inside (insideFrom?_eq_some_iff.1 h).2 hplace fun _ => slash_not_mem_of_mem_pieces

lemma isName_of_inside? (h : p.inside? = some place) : ∀ n ∈ place, IsName n :=
  isName_of_insideFrom? h (by simp)

/-- The names of a place lead there. -/
lemma inside?_joined (h : ∀ n ∈ place, IsName n) : (⟨joined place⟩ : Path).inside? = some place := by
  by_cases hne : place = []
  · rw [hne]
    rfl
  · have hslash : ∀ n ∈ place, '/' ∉ n := fun n hn => (h n hn).2.2.2
    obtain ⟨first, more, rfl⟩ := List.exists_cons_of_ne_nil hne
    refine insideFrom?_eq_some_iff.2 ⟨?_, ?_⟩
    · -- the first character is that of a name
      obtain ⟨hfirst, -, -, hno⟩ := h first List.mem_cons_self
      obtain ⟨c, cs, rfl⟩ := List.exists_cons_of_ne_nil hfirst
      have hc : c ≠ '/' := fun he => hno (he ▸ List.mem_cons_self)
      cases more <;> simpa [isAbsolute, joined] using hc
    · rw [pieces_joined hne hslash, foldlM_insideStep?_names h, List.nil_append]

/-- A path behind a path that stays inside leads on from there. -/
lemma inside?_join (h : p.inside? = some place) (hq : q.isAbsolute = false) :
    (p.join q).inside? = q.insideFrom? place := by
  obtain ⟨hp, hfold⟩ := insideFrom?_eq_some_iff.1 h
  have hjoin := isAbsolute_join_of_relative hp hq
  unfold inside? insideFrom?
  rw [hjoin, hq, if_neg Bool.false_ne_true, if_neg Bool.false_ne_true]
  by_cases hnil : p.text = []
  · rw [hnil] at hfold
    obtain rfl : [] = place := Option.some.inj hfold
    rw [join_of_text_eq_nil hnil]
  · obtain ⟨ps, hps, hpieces⟩ := exists_pieces_join_of_relative hnil hq
    rw [hpieces, List.foldlM_append]
    have hfront : ps.foldlM insideStep? [] = some place := by
      rcases hps with hps | hps
      · rw [← hps, hfold]
      · -- an empty part at the end leads nowhere else
        rw [hps, List.foldlM_append] at hfold
        obtain ⟨front, hfront, hlast⟩ := Option.bind_eq_some_iff.1 hfold
        rw [hfront, ← show insideStep? front [] = some front from rfl]
        exact hlast
    rw [hfront]
    rfl

/-- One more name leads one step further. -/
lemma inside?_join_name (h : p.inside? = some place) (hname : '/' ∉ name) :
    (p.join ⟨name⟩).inside? = insideStep? place name := by
  rw [inside?_join h (isAbsolute_of_slash_not_mem hname), insideFrom?,
    isAbsolute_of_slash_not_mem hname, if_neg Bool.false_ne_true, pieces_of_slash_not_mem hname]
  exact bind_pure _

/-! ## Joining -/

lemma isAbsolute_ofPlace_join (base : Place) (p : Path) : ((ofPlace base).join p).isAbsolute = true :=
  isAbsolute_join_of_isAbsolute (isAbsolute_ofPlace base) p

/-- The parts of a path in a directory are the names of the directory and its own. -/
lemma pieces_join_ofPlace (h : ∀ n ∈ base, IsName n) (hp : p.isAbsolute = false) :
    pieces ((ofPlace base).join p).text = [] :: (base ++ pieces p.text) := by
  by_cases hne : base = []
  · rw [hne, text_join _ hp]
    show pieces ('/' :: p.text) = _
    rw [pieces, if_pos rfl]
    rfl
  · obtain ⟨ps, hps, hjoin⟩ :=
      exists_pieces_join_of_relative (text_ofPlace_ne_nil base) hp
    rw [pieces_ofPlace hne h] at hps
    rcases hps with hps | hps
    · rw [hjoin, ← hps]
      rfl
    · -- the last part is a name
      exfalso
      obtain ⟨front, last, rfl⟩ := (List.eq_nil_or_concat' base).resolve_left hne
      rw [← List.cons_append] at hps
      have hlast := (List.append_inj_right' hps rfl)
      exact (h last (by simp)).1 (List.cons.inj hlast).1

/-- A place is spelled as its directory with the names that lead on to it. -/
lemma ofPlace_append (h : ∀ n ∈ base ++ place, IsName n) (hne : place ≠ []) :
    ofPlace (base ++ place) = (ofPlace base).join ⟨joined place⟩ := by
  obtain ⟨hbase, hplace⟩ := List.forall_mem_append.1 h
  have hpieces := pieces_join_ofPlace hbase (isAbsolute_of_inside? (inside?_joined hplace))
  rw [pieces_joined hne fun n hn => (hplace n hn).2.2.2,
    ← pieces_ofPlace (by simp [hne]) h] at hpieces
  have hjoined := congrArg joined hpieces
  rw [joined_pieces, joined_pieces] at hjoined
  exact congrArg Path.mk hjoined.symm

/-- What is joined to a place can be joined to a directory above it, with the names in between. -/
lemma join_ofPlace_append (h : ∀ n ∈ base ++ place, IsName n) (hp : p.isAbsolute = false) :
    (ofPlace (base ++ place)).join p = (ofPlace base).join ((⟨joined place⟩ : Path).join p) := by
  by_cases hne : place = []
  · rw [hne, List.append_nil, joined, join_of_text_eq_nil rfl]
  · have hrel := isAbsolute_of_inside? (inside?_joined (List.forall_mem_append.1 h).2)
    rw [ofPlace_append h hne,
      join_join (text_ofPlace_ne_nil base) hrel hp]

/-! ## Where a path inside a directory leads -/

/-- The parts of a path inside a directory lead from the root to where the path leads inside. -/
lemma foldlM_of_inside? (h : ∀ n ∈ base, IsName n) (hp : p.inside? = some place) :
    ([] :: (base ++ pieces p.text)).foldlM insideStep? [] = some (base ++ place) := by
  have hbase : base.foldlM insideStep? [] = some base := foldlM_insideStep?_names h []
  have hrest := foldlM_insideStep?_append (insideFrom?_eq_some_iff.1 hp).2 base
  rw [List.append_nil] at hrest
  show (base ++ pieces p.text).foldlM insideStep? [] = _
  rw [List.foldlM_append, hbase]
  exact hrest

/-- A path in a directory leads below the directory, to where it leads inside. -/
theorem target_join_ofPlace (h : ∀ n ∈ base, IsName n) (hp : p.inside? = some place) :
    ((ofPlace base).join p).target = base ++ place := by
  rw [target, pieces_join_ofPlace h (isAbsolute_of_inside? hp)]
  exact foldl_descend_of_inside (foldlM_of_inside? h hp)

/-- A path inside a directory is normally spelled by the names of the directory and those inside. -/
theorem normalize_join_ofPlace (h : ∀ n ∈ base, IsName n) (hp : p.inside? = some place) :
    ((ofPlace base).join p).normalize = ofPlace (base ++ place) := by
  rw [normalize, resolve, components_of_isAbsolute (isAbsolute_ofPlace_join base p), steps,
    pieces_join_ofPlace h (isAbsolute_of_inside? hp), List.foldl_cons]
  have hfold := foldl_resolveStep_of_inside (foldlM_of_inside? h hp) [.root]
  simp only [List.map_nil, List.reverse_nil, List.nil_append] at hfold
  show ofComponents (List.foldl resolveStep [.root] _).reverse = _
  rw [hfold, List.reverse_append, List.reverse_reverse]
  rfl

end StoreBindings.Path
