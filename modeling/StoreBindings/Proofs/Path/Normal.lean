import StoreBindings.Proofs.Path.Pieces

/-!
# Normal paths

A path that has been normalized is spelled by the components it was resolved to, and resolving them
once more changes nothing: `normalize_normalize`.
-/

namespace StoreBindings

/-- The components that the parts of a path stand for, the root and a leading point aside. -/
def Component.IsStep : Component → Prop
  | .root | .current => False
  | .parent => True
  | .name n => n ≠ [] ∧ n ≠ ['.'] ∧ n ≠ ['.', '.'] ∧ '/' ∉ n

namespace Path

lemma isStep_of_ofPiece? {p : List Char} {c : Component} (hp : '/' ∉ p)
    (h : Component.ofPiece? p = some c) : c.IsStep := by
  unfold Component.ofPiece? at h
  split at h
  · cases h
  · next hidle =>
    rw [not_or] at hidle
    split at h
    · cases h
      trivial
    · next hup =>
      cases h
      exact ⟨hidle.1, hidle.2, hup, hp⟩

lemma ofPiece?_text {c : Component} (h : c.IsStep) : Component.ofPiece? c.text = some c := by
  cases c with
  | root => exact h.elim
  | current => exact h.elim
  | parent => rfl
  | name n => exact Component.ofPiece?_text ⟨n, rfl, h.1, h.2.1, h.2.2.1⟩

/-- A component that a part of a path stands for is written as that part. -/
lemma text_of_ofPiece? {piece : List Char} {c : Component} (h : Component.ofPiece? piece = some c) :
    c.text = piece := by
  unfold Component.ofPiece? at h
  split at h
  · cases h
  · split at h
    · next hup =>
      cases h
      exact hup.symm
    · cases h
      rfl

lemma slash_not_mem_text {c : Component} (h : c.IsStep) : '/' ∉ c.text := by
  cases c with
  | root => exact h.elim
  | current => exact h.elim
  | parent => simp [Component.text]
  | name n => exact h.2.2.2

lemma text_ne_nil {c : Component} (h : c.IsStep) : c.text ≠ [] := by
  cases c with
  | root => exact h.elim
  | current => exact h.elim
  | parent => simp [Component.text]
  | name n => exact h.1

lemma filterMap_ofPiece?_text {cs : List Component} (h : ∀ c ∈ cs, c.IsStep) :
    (cs.map Component.text).filterMap Component.ofPiece? = cs := by
  induction cs with
  | nil => rfl
  | cons c cs ih =>
    rw [List.map_cons, List.filterMap_cons_some (ofPiece?_text (h c List.mem_cons_self)),
      ih fun d hd => h d (List.mem_cons_of_mem _ hd)]

lemma pieces_joined_text {cs : List Component} (hne : cs ≠ []) (h : ∀ c ∈ cs, c.IsStep) :
    pieces (joined (cs.map Component.text)) = cs.map Component.text := by
  refine pieces_joined (by simpa using hne) ?_
  intro q hq
  obtain ⟨c, hc, rfl⟩ := List.mem_map.1 hq
  exact slash_not_mem_text (h c hc)

/-- A path spelled by a root and steps below it has these components. -/
lemma components_ofComponents_root {cs : List Component} (h : ∀ c ∈ cs, c.IsStep) :
    (ofComponents (.root :: cs)).components = .root :: cs := by
  have habs : (ofComponents (.root :: cs)).isAbsolute = true := rfl
  unfold components
  rw [if_pos habs]
  show Component.root :: (pieces ('/' :: joined (cs.map Component.text))).filterMap
    Component.ofPiece? = .root :: cs
  rw [pieces, if_pos rfl, List.filterMap_cons_none (by rfl)]
  by_cases hne : cs = []
  · rw [hne]
    rfl
  · rw [pieces_joined_text hne h, filterMap_ofPiece?_text h]

/-- A relative path spelled by steps has these components. -/
lemma components_ofComponents {cs : List Component} (h : ∀ c ∈ cs, c.IsStep) :
    (ofComponents cs).components = cs := by
  cases cs with
  | nil => rfl
  | cons c rest =>
    have hc := h c List.mem_cons_self
    have hof : ofComponents (c :: rest) = ⟨joined ((c :: rest).map Component.text)⟩ := by
      cases c with
      | root => exact hc.elim
      | _ => rfl
    rw [hof]
    -- the text of a step is not empty and has no slash, so the path does not begin with one
    have hrel : (⟨joined ((c :: rest).map Component.text)⟩ : Path).isAbsolute = false := by
      have hslash := slash_not_mem_text hc
      have hnil := text_ne_nil hc
      unfold isAbsolute
      cases ht : c.text with
      | nil => exact absurd ht hnil
      | cons d ds =>
        rw [ht] at hslash
        have hd : d ≠ '/' := fun he => hslash (by rw [he]; exact List.mem_cons_self)
        rw [List.map_cons, ht]
        cases rest with
        | nil => simpa [joined] using hd
        | cons c' rest => simpa [joined] using hd
    unfold components
    rw [hrel, if_neg Bool.false_ne_true, pieces_joined_text (by simp) h, List.map_cons]
    have hfirst : Component.ofFirst? c.text = some c := by
      unfold Component.ofFirst?
      rw [if_neg, ofPiece?_text hc]
      intro hdot
      cases c with
      | root => exact hc
      | current => exact hc
      | parent => cases hdot
      | name n => exact hc.2.1 hdot
    dsimp only
    rw [hfirst, filterMap_ofPiece?_text fun d hd => h d (List.mem_cons_of_mem _ hd)]
    rfl

/-- The components of a path are steps, below the root or behind a leading point. -/
lemma components_cases (p : Path) : ∃ steps : List Component, (∀ c ∈ steps, c.IsStep) ∧
    (p.components = .root :: steps ∨ p.components = .current :: steps ∨ p.components = steps) := by
  have hstep : ∀ ps : List (List Char), (∀ q ∈ ps, '/' ∉ q) →
      ∀ c ∈ ps.filterMap Component.ofPiece?, c.IsStep := by
    intro ps hps c hc
    obtain ⟨q, hq, hqc⟩ := List.mem_filterMap.1 hc
    exact isStep_of_ofPiece? (hps q hq) hqc
  have hslash : ∀ q ∈ pieces p.text, '/' ∉ q := fun q => slash_not_mem_of_mem_pieces
  unfold components
  split
  · exact ⟨_, hstep _ hslash, .inl rfl⟩
  · -- only the first part can be a point that counts
    cases hp : pieces p.text with
    | nil => exact absurd hp (pieces_ne_nil _)
    | cons first more =>
      rw [hp] at hslash
      have hmore := hstep more fun q hq => hslash q (List.mem_cons_of_mem _ hq)
      dsimp only
      unfold Component.ofFirst?
      split
      · exact ⟨_, hmore, .inr (.inl rfl)⟩
      · cases hf : Component.ofPiece? first with
        | none => exact ⟨_, hmore, .inr (.inr rfl)⟩
        | some c =>
          refine ⟨c :: more.filterMap Component.ofPiece?, fun d hd => ?_, .inr (.inr rfl)⟩
          rcases List.mem_cons.1 hd with rfl | hd
          · exact isStep_of_ofPiece? (hslash first List.mem_cons_self) hf
          · exact hmore d hd

/-! ## Resolving -/

/-- What can be left in front of the names of a resolved path, the last component first. -/
def stems : List (List Component) := [[], [.root], [.parent], [.parent, .root]]

/-- What reading the components of a path leaves, the last one first: names behind a stem. -/
def IsStack (stack : List Component) : Prop :=
  ∃ names stem, stack = names ++ stem ∧ stem ∈ stems ∧ ∀ c ∈ names, c.IsStep ∧ c ≠ .parent

lemma isStack_resolveStep {stack : List Component} {c : Component} (h : IsStack stack)
    (hc : c.IsStep) : IsStack (resolveStep stack c) := by
  obtain ⟨names, stem, rfl, hstem, hnames⟩ := h
  cases c with
  | root => exact hc.elim
  | current => exact hc.elim
  | name n =>
    refine ⟨.name n :: names, stem, rfl, hstem, ?_⟩
    intro d hd
    rcases List.mem_cons.1 hd with rfl | hd
    · exact ⟨hc, by simp⟩
    · exact hnames d hd
  | parent =>
    -- going up takes a name back, and touches the stem only if there is none
    cases names with
    | nil =>
      refine ⟨[], resolveStep stem .parent, rfl, ?_, by simp⟩
      revert stem
      decide
    | cons d below =>
      obtain ⟨hd, hne⟩ := hnames d List.mem_cons_self
      refine ⟨below, stem, ?_, hstem, fun e he => hnames e (List.mem_cons_of_mem _ he)⟩
      cases d with
      | root => exact hd.elim
      | _ => rfl

lemma isStack_foldl {stack : List Component} (h : IsStack stack) {cs : List Component}
    (hcs : ∀ c ∈ cs, c.IsStep) : IsStack (cs.foldl resolveStep stack) := by
  induction cs generalizing stack with
  | nil => exact h
  | cons c cs ih =>
    exact ih (isStack_resolveStep h (hcs c List.mem_cons_self))
      fun d hd => hcs d (List.mem_cons_of_mem _ hd)

lemma isStack_components (p : Path) : IsStack (p.components.foldl resolveStep []) := by
  obtain ⟨steps, hsteps, hp | hp | hp⟩ := components_cases p
  · rw [hp]
    exact isStack_foldl ⟨[], [.root], rfl, by simp [stems], by simp⟩ hsteps
  · rw [hp, List.foldl_cons]
    exact isStack_foldl ⟨[], [], rfl, by simp [stems], by simp⟩ hsteps
  · rw [hp]
    exact isStack_foldl ⟨[], [], rfl, by simp [stems], by simp⟩ hsteps

/-- Steps other than `..` are put on top of what has been read before. -/
lemma foldl_resolveStep_of_names {cs : List Component} (h : ∀ c ∈ cs, c.IsStep ∧ c ≠ .parent)
    (stack : List Component) : cs.foldl resolveStep stack = cs.reverse ++ stack := by
  induction cs generalizing stack with
  | nil => rfl
  | cons c cs ih =>
    have hpush : resolveStep stack c = c :: stack := by
      obtain ⟨hstep, hne⟩ := h c List.mem_cons_self
      cases c with
      | root => exact hstep.elim
      | current => exact hstep.elim
      | parent => exact absurd rfl hne
      | name n => rfl
    rw [List.foldl_cons, hpush, ih fun d hd => h d (List.mem_cons_of_mem _ hd), List.reverse_cons,
      List.append_assoc]
    rfl

/-- What has been resolved is resolved to itself. -/
lemma resolve_reverse {stack : List Component} (h : IsStack stack) :
    resolve stack.reverse = stack.reverse := by
  obtain ⟨names, stem, rfl, hstem, hnames⟩ := h
  have hbase : stem.reverse.foldl resolveStep [] = stem := by
    revert stem
    decide
  unfold resolve
  rw [List.reverse_append, List.foldl_append, hbase,
    foldl_resolveStep_of_names fun c hc => hnames c (List.mem_reverse.1 hc), List.reverse_reverse,
    List.reverse_append]

/-- A normal path has the components it was resolved to. -/
lemma components_normalize (p : Path) : p.normalize.components = resolve p.components := by
  obtain ⟨names, stem, hstack, hstem, hnames⟩ := isStack_components p
  have hsteps : ∀ c ∈ names.reverse, c.IsStep := fun c hc => (hnames c (List.mem_reverse.1 hc)).1
  have hparent : ∀ c ∈ Component.parent :: names.reverse, c.IsStep := by
    intro c hc
    rcases List.mem_cons.1 hc with rfl | hc
    · trivial
    · exact hsteps c hc
  unfold normalize resolve
  rw [hstack, List.reverse_append]
  -- each stem is spelled in its own way
  simp only [stems, List.mem_cons, List.not_mem_nil, or_false] at hstem
  rcases hstem with rfl | rfl | rfl | rfl
  · exact components_ofComponents hsteps
  · exact components_ofComponents_root hsteps
  · exact components_ofComponents hparent
  · exact components_ofComponents_root hparent

/-- Normalizing twice is normalizing once. -/
@[simp] theorem normalize_normalize (p : Path) : p.normalize.normalize = p.normalize := by
  have hresolve : resolve (resolve p.components) = resolve p.components :=
    resolve_reverse (isStack_components p)
  show ofComponents (resolve p.normalize.components) = p.normalize
  rw [components_normalize, hresolve]
  rfl

end Path

end StoreBindings
