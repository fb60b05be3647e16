import StoreBindings.Proofs.Path.Target

/-!
# Where a path climbs

Resolving a path takes a name back at each `..` behind it. An absolute path is normal if there is
nothing to take back: `isNormal_iff` says that it has a `..` directly behind the root at most. What
is joined to a path keeps the components that it is joined to, so a directory that climbs stays a
directory that climbs, and no normal path is below it: `IsNormal.of_startsWith`.
-/

namespace StoreBindings.Path

variable {p q dir : Path}

/-- The path is spelled from the root, and nothing in it can be resolved any further. -/
def IsNormal (p : Path) : Prop := p.isAbsolute = true ∧ p.normalize.same p = true

instance (p : Path) : Decidable p.IsNormal := inferInstanceAs (Decidable (_ ∧ _))

/-- A path lies in a directory, or is the directory, when both are resolved. -/
def LiesIn (p dir : Path) : Prop := p.normalize.startsWith dir.normalize = true

instance (p dir : Path) : Decidable (p.LiesIn dir) := inferInstanceAs (Decidable (_ = true))

lemma IsNormal.components_eq (h : p.IsNormal) : p.normalize.components = p.components :=
  beq_iff_eq.1 h.2

/-- The components of a path other than the root and a leading point. -/
def steps (p : Path) : List Component := (pieces p.text).filterMap Component.ofPiece?

lemma isStep_of_mem_steps {c : Component} (h : c ∈ p.steps) : c.IsStep := by
  obtain ⟨piece, hpiece, hc⟩ := List.mem_filterMap.1 h
  exact isStep_of_ofPiece? (slash_not_mem_of_mem_pieces hpiece) hc

lemma components_of_isAbsolute (h : p.isAbsolute = true) : p.components = .root :: p.steps := by
  unfold components
  rw [if_pos h]
  rfl

/-- What is joined to a directory stands behind its components. -/
lemma components_join (h : dir.isAbsolute = true) (hp : p.isAbsolute = false) :
    (dir.join p).components = dir.components ++ p.steps := by
  obtain ⟨ps, hps, hjoin⟩ := exists_pieces_join_of_relative (text_ne_nil_of_isAbsolute h) hp
  have hsteps : ps.filterMap Component.ofPiece? = dir.steps := by
    unfold steps
    rcases hps with hps | hps
    · rw [hps]
    · -- an empty part at the end stands for nothing
      rw [hps, List.filterMap_append, List.filterMap_cons_none (by rfl), List.filterMap_nil,
        List.append_nil]
  rw [components_of_isAbsolute (isAbsolute_join_of_isAbsolute h p), components_of_isAbsolute h,
    steps, hjoin, List.filterMap_append, hsteps]
  rfl

/-- The last name of a path is the one that has been joined to it. -/
lemma fileName?_join (h : dir.isAbsolute = true) {name : List Char} (hname : Files.IsName name) :
    (dir.join ⟨name⟩).fileName? = some name := by
  obtain ⟨hnil, hdot, hup, hslash⟩ := hname
  have hsteps : (⟨name⟩ : Path).steps = [.name name] := by
    rw [steps, pieces_of_slash_not_mem hslash]
    simp [Component.ofPiece?, hnil, hdot, hup]
  unfold fileName?
  rw [components_join h (isAbsolute_of_slash_not_mem hslash), hsteps, List.getLast?_concat]

lemma startsWith_join (h : dir.isAbsolute = true) (hp : p.isAbsolute = false) :
    (dir.join p).startsWith dir = true := by
  rw [startsWith, List.isPrefixOf_iff_prefix, components_join h hp]
  exact List.prefix_append _ _

/-- What is above a path from the root is a path from the root. -/
lemma isAbsolute_of_parent? {above : Path} (h : p.isAbsolute = true) (habove : p.parent? = some above) :
    above.isAbsolute = true := by
  unfold parent? at habove
  rw [if_pos h] at habove
  obtain ⟨before, -, rfl⟩ := Option.map_eq_some_iff.1 habove
  rfl

/-- Only the root has nothing above it. -/
lemma exists_parent? (h : p.isAbsolute = true) (hsteps : p.steps ≠ []) :
    ∃ above, p.parent? = some above := by
  unfold parent?
  rw [if_pos h]
  cases hd : dropLast? ((pieces p.text).drop 1).reverse with
  | some before => exact ⟨_, rfl⟩
  | none =>
    exfalso
    -- nothing can be taken off if all parts are idle
    have hidle : ∀ piece ∈ (pieces p.text).drop 1, isIdle piece = true := by
      unfold dropLast? at hd
      split at hd
      · next hnil =>
        intro piece hpiece
        exact List.dropWhile_eq_nil_iff.1 hnil piece (List.mem_reverse.2 hpiece)
      · cases hd
    apply hsteps
    unfold steps
    rw [List.filterMap_eq_nil_iff]
    intro piece hpiece
    obtain ⟨more, hmore⟩ := exists_pieces_of_isAbsolute h
    have hfirst : pieces p.text = [] :: (pieces p.text).drop 1 := by
      rw [hmore]
      rfl
    rw [hfirst] at hpiece
    rcases List.mem_cons.1 hpiece with rfl | hpiece
    · rfl
    · exact Option.isNone_iff_eq_none.1 (hidle piece hpiece)

/-! ## Normal paths -/

/-- Resolving never takes the root back. -/
lemma exists_foldl_resolveStep {cs : List Component} (h : ∀ c ∈ cs, c.IsStep)
    (above : List Component) :
    ∃ above', cs.foldl resolveStep (above ++ [.root]) = above' ++ [.root] := by
  induction cs generalizing above with
  | nil => exact ⟨above, rfl⟩
  | cons c cs ih =>
    have hstep : ∃ above', resolveStep (above ++ [.root]) c = above' ++ [.root] := by
      cases c with
      | root => exact (h _ List.mem_cons_self).elim
      | current => exact (h _ List.mem_cons_self).elim
      | name n => exact ⟨.name n :: above, rfl⟩
      | parent =>
        -- a `..` takes a name back, but not the root and not another `..`
        cases above with
        | nil => exact ⟨[.parent], rfl⟩
        | cons d above =>
          cases d with
          | root => exact ⟨.parent :: .root :: above, rfl⟩
          | _ => exact ⟨above, rfl⟩
    obtain ⟨above', hstep⟩ := hstep
    rw [List.foldl_cons, hstep]
    exact ih (fun d hd => h d (List.mem_cons_of_mem _ hd)) above'

lemma exists_resolve (h : p.isAbsolute = true) : ∃ cs, resolve p.components = .root :: cs := by
  obtain ⟨above, habove⟩ := exists_foldl_resolveStep (fun _ => isStep_of_mem_steps (p := p)) []
  refine ⟨above.reverse, ?_⟩
  rw [resolve, components_of_isAbsolute h, List.foldl_cons]
  show (p.steps.foldl resolveStep ([] ++ [.root])).reverse = _
  rw [habove, List.reverse_concat]

/-- The normal form of an absolute path is normal. -/
lemma isNormal_normalize (h : p.isAbsolute = true) : p.normalize.IsNormal := by
  obtain ⟨cs, hcs⟩ := exists_resolve h
  refine ⟨?_, ?_⟩
  · rw [normalize, hcs]
    rfl
  · rw [normalize_normalize]
    exact beq_self_eq_true _

/-- A path is normal if it climbs nowhere but from the root. -/
theorem isNormal_iff (h : p.isAbsolute = true) :
    p.IsNormal ↔ Component.parent ∉ p.components.drop 2 := by
  constructor
  · intro hnormal
    obtain ⟨names, stem, hstack, hstem, hnames⟩ := isStack_components p
    have hcomponents : p.components = stem.reverse ++ names.reverse := by
      rw [← hnormal.components_eq, components_normalize, resolve, hstack, List.reverse_append]
    -- a stem is no longer than two, so what is behind it is names only
    have hstems : ∀ stem ∈ stems, stem.reverse.drop 2 = [] := by decide
    intro hmem
    rw [hcomponents, List.drop_append, hstems stem hstem, List.nil_append] at hmem
    exact (hnames _ (List.mem_reverse.1 (List.mem_of_mem_drop hmem))).2 rfl
  · intro hmem
    refine ⟨h, beq_iff_eq.2 ?_⟩
    rw [components_normalize]
    have hstack : IsStack p.components.reverse := by
      rw [components_of_isAbsolute h] at hmem ⊢
      cases hsteps : p.steps with
      | nil => exact ⟨[], [.root], rfl, by simp [stems], by simp⟩
      | cons c cs =>
        have hall : ∀ d ∈ c :: cs, d.IsStep := fun d hd => isStep_of_mem_steps (hsteps ▸ hd)
        have hcs : ∀ d ∈ cs.reverse, d.IsStep ∧ d ≠ .parent := by
          intro d hd
          rw [List.mem_reverse] at hd
          refine ⟨hall d (List.mem_cons_of_mem _ hd), fun hd' => hmem ?_⟩
          rw [hsteps]
          exact hd' ▸ hd
        by_cases hc : c = .parent
        · -- the root and `..` behind it are a stem together
          exact ⟨cs.reverse, [.parent, .root], by simp [hc], by simp [stems], hcs⟩
        · refine ⟨(c :: cs).reverse, [.root], by simp, by simp [stems], fun d hd => ?_⟩
          rcases List.mem_cons.1 (List.mem_reverse.1 hd) with rfl | hd
          · exact ⟨hall _ List.mem_cons_self, hc⟩
          · exact hcs d (List.mem_reverse.2 hd)
    have hresolve := resolve_reverse hstack
    rwa [List.reverse_reverse] at hresolve

/-- The directories that a normal path is below are normal. -/
theorem IsNormal.of_startsWith (h : p.IsNormal) (hdir : dir.isAbsolute = true)
    (hbelow : p.startsWith dir = true) : dir.IsNormal := by
  obtain ⟨rest, hrest⟩ := List.isPrefixOf_iff_prefix.1 hbelow
  rw [isNormal_iff hdir]
  intro hmem
  refine (isNormal_iff h.1).1 h ?_
  rw [← hrest, List.drop_append]
  exact List.mem_append_left _ hmem

/-- What climbs nowhere can be joined to a normal path. -/
lemma IsNormal.join (h : dir.IsNormal) (hp : p.isAbsolute = false)
    (hup : Component.parent ∉ p.steps) : (dir.join p).IsNormal := by
  rw [isNormal_iff (isAbsolute_join_of_isAbsolute h.1 p), components_join h.1 hp, List.drop_append]
  intro hmem
  rcases List.mem_append.1 hmem with hmem | hmem
  · exact (isNormal_iff h.1).1 h hmem
  · exact hup (List.mem_of_mem_drop hmem)

end StoreBindings.Path
