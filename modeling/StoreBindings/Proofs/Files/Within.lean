import StoreBindings.Files.Within
import StoreBindings.Proofs.Files.Extending
import StoreBindings.Proofs.Path.Relative

/-!
# Paths within a directory that are not there

Where nothing is there, a path lies in a directory by its spelling: the directory's components are the
first ones of the path, before any of them is resolved. What is left is the rest of the path as it is
spelled, and joined to the directory it is the path again: `components_join_of_stripDirectory?`. So `..`
may lead out of the directory unnoticed, or into it. Between paths that are normal the spelling tells
which one lies in the other, and the rest is the way there if nothing in it is superfluous:
`within_iff`.
-/

namespace StoreBindings

namespace Path

variable {p dir : Path} {rest : List Char} {ps : List (List Char)}

/-! ## Parts without what is idle -/

lemma ofPiece?_of_isIdle {piece : List Char} (h : isIdle piece = true) :
    Component.ofPiece? piece = none := Option.isNone_iff_eq_none.1 h

lemma exists_ofPiece? {piece : List Char} (h : isIdle piece = false) :
    ∃ c, Component.ofPiece? piece = some c := by
  unfold isIdle at h
  exact Option.ne_none_iff_exists'.1 fun hnone => by rw [hnone] at h; cases h

lemma filterMap_dropWhile_isIdle (ps : List (List Char)) :
    (ps.dropWhile isIdle).filterMap Component.ofPiece? = ps.filterMap Component.ofPiece? := by
  induction ps with
  | nil => rfl
  | cons piece ps ih =>
    rw [List.dropWhile_cons]
    split
    · next hidle => rw [ih, List.filterMap_cons_none (ofPiece?_of_isIdle hidle)]
    · rfl

/-- What is trimmed off stands for nothing. -/
lemma filterMap_trimIdle (ps : List (List Char)) :
    (trimIdle ps).filterMap Component.ofPiece? = ps.filterMap Component.ofPiece? := by
  unfold trimIdle
  rw [List.filterMap_reverse, filterMap_dropWhile_isIdle, List.filterMap_reverse, List.reverse_reverse,
    filterMap_dropWhile_isIdle]

/-- Nothing idle is left in front. -/
lemma isIdle_of_head?_trimIdle {piece : List Char} (h : (trimIdle ps).head? = some piece) :
    isIdle piece = false := by
  have hbegins : trimIdle ps <+: ps.dropWhile isIdle := by
    rw [trimIdle, ← List.reverse_suffix, List.reverse_reverse]
    exact List.dropWhile_suffix _
  have hhead : (ps.dropWhile isIdle).head? = some piece := by
    obtain ⟨more, hmore⟩ := hbegins
    rw [← hmore, List.head?_append, h]
    rfl
  have hnot := List.head?_dropWhile_not isIdle ps
  rw [hhead] at hnot
  simpa using hnot

lemma mem_of_mem_trimIdle {piece : List Char} (h : piece ∈ trimIdle ps) : piece ∈ ps := by
  have hmem := (List.dropWhile_sublist isIdle).subset (List.mem_reverse.1 h)
  exact (List.dropWhile_sublist isIdle).subset (List.mem_reverse.1 hmem)

/-- Each component that is taken off takes the idle parts before it along. -/
lemma filterMap_dropComponents (n : Nat) (ps : List (List Char)) :
    (dropComponents n ps).filterMap Component.ofPiece? = (ps.filterMap Component.ofPiece?).drop n := by
  induction ps generalizing n with
  | nil => cases n <;> rfl
  | cons piece ps ih =>
    cases n with
    | zero => rfl
    | succ n =>
      rw [dropComponents]
      split
      · next hidle => rw [ih, List.filterMap_cons_none (ofPiece?_of_isIdle hidle)]
      · next hidle =>
        obtain ⟨c, hc⟩ := exists_ofPiece? (by simpa using hidle)
        rw [ih, List.filterMap_cons_some hc, List.drop_succ_cons]

lemma dropComponents_subset (n : Nat) (ps : List (List Char)) : dropComponents n ps ⊆ ps := by
  induction ps generalizing n with
  | nil => cases n <;> exact List.Subset.refl _
  | cons piece ps ih =>
    cases n with
    | zero => exact List.Subset.refl _
    | succ n =>
      rw [dropComponents]
      split
      · exact List.Subset.trans (ih (n + 1)) (List.subset_cons_self _ _)
      · exact List.Subset.trans (ih n) (List.subset_cons_self _ _)

/-! ## The rest of a path -/

/-- A text of parts without slashes, the first of which is not idle, is a relative path with the
components of the parts. -/
lemma relative_joined (hslash : ∀ q ∈ ps, '/' ∉ q) (hhead : ∀ q, ps.head? = some q → isIdle q = false) :
    (⟨joined ps⟩ : Path).isAbsolute = false ∧
      (⟨joined ps⟩ : Path).steps = ps.filterMap Component.ofPiece? := by
  cases ps with
  | nil => exact ⟨rfl, rfl⟩
  | cons q qs =>
    have hq : q ≠ [] := by
      rintro rfl
      exact absurd (hhead [] rfl) (by decide)
    exact ⟨isAbsolute_joined_cons hq (hslash q List.mem_cons_self) qs, by
      rw [steps, pieces_joined (List.cons_ne_nil q qs) hslash]⟩

lemma stripDirectory?_eq_some_iff (hp : p.isAbsolute = true) (hdir : dir.isAbsolute = true) :
    p.stripDirectory? dir = some rest ↔ p.startsWith dir = true ∧
      rest = joined (trimIdle (dropComponents dir.steps.length ((pieces p.text).drop 1))) := by
  obtain ⟨more, hmore⟩ := exists_pieces_of_isAbsolute hp
  unfold stripDirectory?
  rw [hmore, components_of_isAbsolute hdir, List.length_cons, hp]
  dsimp only
  rw [Bool.true_or, if_pos rfl, Option.ite_none_right_eq_some, Option.some.injEq, eq_comm (b := rest)]
  rfl

/-- The rest of a path behind a directory, joined to the directory, is the path again. -/
theorem components_join_of_stripDirectory? (hp : p.isAbsolute = true) (hdir : dir.isAbsolute = true)
    (h : p.stripDirectory? dir = some rest) :
    (⟨rest⟩ : Path).isAbsolute = false ∧ (dir.join ⟨rest⟩).components = p.components := by
  obtain ⟨hstarts, rfl⟩ := (stripDirectory?_eq_some_iff hp hdir).1 h
  obtain ⟨more, hmore⟩ := exists_pieces_of_isAbsolute hp
  have hslash : ∀ q ∈ trimIdle (dropComponents dir.steps.length ((pieces p.text).drop 1)), '/' ∉ q :=
    fun q hq => slash_not_mem_of_mem_pieces
      (List.mem_of_mem_drop (dropComponents_subset _ _ (mem_of_mem_trimIdle hq)))
  obtain ⟨hrel, hsteps⟩ := relative_joined hslash fun q => isIdle_of_head?_trimIdle
  refine ⟨hrel, ?_⟩
  have hall : p.steps = more.filterMap Component.ofPiece? := by
    rw [steps, hmore]
    rfl
  obtain ⟨cs, hcs⟩ := List.isPrefixOf_iff_prefix.1 hstarts
  -- what is stripped and what is left make up the names of the path again
  rw [components_of_isAbsolute hp, components_of_isAbsolute hdir, List.cons_append,
    List.cons.injEq] at hcs
  rw [components_join hdir hrel, hsteps, filterMap_trimIdle, filterMap_dropComponents, hmore,
    List.drop_succ_cons, List.drop_zero, ← hall, components_of_isAbsolute hp,
    components_of_isAbsolute hdir, ← hcs.2, List.drop_left, List.cons_append]

/-! ## Containment -/

/-- What is joined to a directory is nothing, or a way down in which nothing is superfluous and nothing
is taken back. -/
def IsPlainBelow (dir : Path) (rest : List Char) : Prop :=
  rest = [] ∨ (∀ piece ∈ pieces rest, isIdle piece = false) ∧ (dir.normalize.join ⟨rest⟩).IsNormal

instance (dir : Path) (rest : List Char) : Decidable (dir.IsPlainBelow rest) :=
  inferInstanceAs (Decidable (_ ∨ _))

/-- Whether a directory is resolved before something is joined to it makes no difference. -/
lemma normalize_join_normalize {q : Path} (hdir : dir.isAbsolute = true) (hq : q.isAbsolute = false) :
    (dir.normalize.join q).normalize = (dir.join q).normalize := by
  have hnormal := (isAbsolute_normalize dir).trans hdir
  rw [normalize_eq_iff, components_normalize_join hnormal hq, components_normalize_join hdir hq,
    normalize_normalize]

/-- Parts none of which is idle are the components that they stand for. -/
lemma map_text_filterMap_ofPiece? (h : ∀ q ∈ ps, isIdle q = false) :
    (ps.filterMap Component.ofPiece?).map Component.text = ps := by
  induction ps with
  | nil => rfl
  | cons q ps ih =>
    obtain ⟨c, hc⟩ := exists_ofPiece? (h q List.mem_cons_self)
    rw [List.filterMap_cons_some hc, List.map_cons, text_of_ofPiece? hc,
      ih fun r hr => h r (List.mem_cons_of_mem _ hr)]

/-- The way down to a path in a directory is the rest of its components. -/
lemma relativePath_of_append {cs : List Component}
    (h : p.normalize.components = dir.normalize.components ++ cs) :
    relativePath dir p = joined (cs.map Component.text) := by
  have hdiverge : diverge dir.normalize.components p.normalize.components = ([], cs) := by
    have happend := diverge_append dir.normalize.components [] cs
    rwa [List.append_nil, diverge_nil_left, ← h] at happend
  rw [relativePath_eq, way, wayBetween, hdiverge]
  rfl

lemma IsNormal.of_components_eq {q : Path} (h : q.IsNormal) (hp : p.isAbsolute = true)
    (heq : p.components = q.components) : p.IsNormal :=
  ⟨hp, beq_iff_eq.2 (by rw [normalize_congr_components heq, h.components_eq, heq])⟩

/-- A text that leads from a directory to a path leads to one in the directory, and is the relative
path there, exactly if it is plain. -/
lemma liesIn_and_eq_relativePath_iff (hp : p.isAbsolute = true) (hdir : dir.isAbsolute = true)
    (hrest : (⟨rest⟩ : Path).isAbsolute = false) (hjoin : (dir.join ⟨rest⟩).components = p.components) :
    p.LiesIn dir ∧ rest = relativePath dir p ↔ dir.IsPlainBelow rest := by
  have hnormal : (dir.normalize.join ⟨rest⟩).normalize = p.normalize :=
    (normalize_join_normalize hdir hrest).trans (normalize_congr_components hjoin)
  have hdirnormal := (isAbsolute_normalize dir).trans hdir
  have habs := isAbsolute_join_of_isAbsolute hdirnormal ⟨rest⟩
  constructor
  · rintro ⟨hlies, hrel⟩
    -- in the directory the relative path goes down only, by what is left of the resolved components
    obtain ⟨cs, hcs⟩ := List.isPrefixOf_iff_prefix.1 hlies
    have hsteps : ∀ c ∈ cs, c.IsStep := by
      intro c hc
      obtain ⟨all, hall, hall'⟩ := exists_steps_of_isAbsolute hp
      obtain ⟨above, habove, -⟩ := exists_steps_of_isAbsolute hdir
      rw [hall, habove, List.cons_append, List.cons.injEq] at hcs
      exact hall' c (hcs.2 ▸ List.mem_append_right _ hc)
    rw [relativePath_of_append hcs.symm] at hrel
    by_cases hnil : cs = []
    · left
      rw [hrel, hnil]
      rfl
    · right
      refine ⟨fun piece hpiece => ?_, ?_⟩
      · rw [hrel, pieces_joined_text hnil hsteps] at hpiece
        obtain ⟨c, hc, rfl⟩ := List.mem_map.1 hpiece
        rw [isIdle, ofPiece?_text (hsteps c hc)]
        rfl
      · refine (isNormal_normalize hp).of_components_eq habs ?_
        rw [components_join hdirnormal hrest, hrel, steps_joined hsteps, hcs]
  · rintro (rfl | ⟨hidle, hplain⟩)
    · have hsame : dir.normalize = p.normalize := by
        refine normalize_congr_components ?_
        rw [← hjoin, components_join hdir hrest]
        exact (List.append_nil _).symm
      refine ⟨?_, ((relativePath_eq_nil_iff hdir hp).2 hsame).symm⟩
      rw [LiesIn, startsWith, hsame]
      exact List.isPrefixOf_iff_prefix.2 List.prefix_rfl
    · -- where nothing is taken back, the steps are what is left of the resolved components
      have hcs : p.normalize.components = dir.normalize.components ++ (⟨rest⟩ : Path).steps := by
        rw [← hnormal, hplain.components_eq, components_join hdirnormal hrest]
      refine ⟨List.isPrefixOf_iff_prefix.2 ⟨_, hcs.symm⟩, ?_⟩
      rw [relativePath_of_append hcs, steps, map_text_filterMap_ofPiece? hidle, joined_pieces]

end Path

namespace Files.Tree

variable {t : Tree} {p root : Path}

lemma reaches_of_canonical {q : Path} (h : t.canonical p = .ok q) : t.reaches p = true := by
  unfold canonical at h
  cases hl : t.locate p with
  | error e =>
    rw [hl] at h
    cases h
  | ok place =>
    obtain rfl := eq_target_of_locate hl
    simp only [hl, bind, Except.bind] at h
    refine reaches_iff.2 ⟨hl, ?_⟩
    cases he : t.at? p.target with
    | none =>
      rw [he] at h
      cases h
    | some e => rfl

/-- If one of the two is not there, both are compared as they are spelled. -/
lemma within_of_not_reaches (h : t.reaches p = false ∨ t.reaches root = false) :
    t.within p root = (p.stripDirectory? root).elim (.error ⟨p, root⟩) .ok := by
  unfold within
  have hboth : ∀ q q', t.canonical p = .ok q → t.canonical root ≠ .ok q' := by
    intro q q' hq hq'
    rw [reaches_of_canonical hq, reaches_of_canonical hq'] at h
    simp at h
  split
  next p' root' heq =>
  have hsame : (p', root') = (p, root) := by
    rw [← heq]
    split
    · next q q' hq hq' => exact absurd hq' (hboth q q' hq)
    · rfl
  cases hsame
  cases p.stripDirectory? root <;> rfl

lemma within_eq_ok_iff (h : t.reaches p = false ∨ t.reaches root = false) {rest : List Char} :
    t.within p root = .ok rest ↔ p.stripDirectory? root = some rest := by
  rw [within_of_not_reaches h]
  cases p.stripDirectory? root with
  | none => exact ⟨nofun, nofun⟩
  | some rest' =>
    exact ⟨fun heq => congrArg some (Except.ok.inj heq), fun heq => congrArg _ (Option.some.inj heq)⟩

end Files.Tree

open Files (Tree)

/-- A path from the root lies in a directory that is not there if its spelling begins as that of the
directory does, else it is an error that names both. What is left of the path, joined to the directory, is
the path again; it leads down to a place in the directory, and is the relative path, exactly if it is
plain. A normal path lies in a normal directory exactly if it does so when both are resolved. -/
theorem within_iff {t : Tree} {p root : Path} (hp : p.isAbsolute = true) (hroot : root.isAbsolute = true)
    (hnot : t.reaches p = false ∨ t.reaches root = false) :
    (p.startsWith root = false → t.within p root = .error ⟨p, root⟩) ∧
    (p.startsWith root = true → ∃ rest, t.within p root = .ok rest ∧
      (root.join ⟨rest⟩).components = p.components ∧
      (p.LiesIn root ∧ rest = Path.relativePath root p ↔ root.IsPlainBelow rest)) ∧
    (p.IsNormal → root.IsNormal → ((∃ rest, t.within p root = .ok rest) ↔ p.LiesIn root)) := by
  have hstrip : ∀ {rest}, p.stripDirectory? root = some rest ↔ p.startsWith root = true ∧
      rest = Path.joined (Path.trimIdle (Path.dropComponents root.steps.length
        ((Path.pieces p.text).drop 1))) := Path.stripDirectory?_eq_some_iff hp hroot
  refine ⟨fun houtside => ?_, fun hstarts => ?_, fun hpn hrootn => ?_⟩
  · have hnone : p.stripDirectory? root = none := by
      rw [Option.eq_none_iff_forall_ne_some]
      intro rest hrest
      rw [(hstrip.1 hrest).1] at houtside
      cases houtside
    rw [Tree.within_of_not_reaches hnot, hnone]
    rfl
  · have hrest := hstrip.2 ⟨hstarts, rfl⟩
    obtain ⟨hrel, hjoin⟩ := Path.components_join_of_stripDirectory? hp hroot hrest
    exact ⟨_, (Tree.within_eq_ok_iff hnot).2 hrest, hjoin,
      Path.liesIn_and_eq_relativePath_iff hp hroot hrel hjoin⟩
  · have hlies : p.LiesIn root ↔ p.startsWith root = true := by
      unfold Path.LiesIn Path.startsWith
      rw [hpn.components_eq, hrootn.components_eq]
    rw [hlies]
    constructor
    · rintro ⟨rest, hrest⟩
      exact (hstrip.1 ((Tree.within_eq_ok_iff hnot).1 hrest)).1
    · intro hstarts
      exact ⟨_, (Tree.within_eq_ok_iff hnot).2 (hstrip.2 ⟨hstarts, rfl⟩)⟩

/-- A file in a directory, neither of which is there: the rest of its path is the relative path although
the directory climbs. Where nothing climbs both are normal, and what is superfluous in the rest is kept. -/
theorem within_of_inside :
    (let p := Path.ofString "/app/src/../src//Stores/S.ts"
      let root := Path.ofString "/app/src/../src/"
      p.isAbsolute = true ∧ root.isAbsolute = true ∧ Tree.empty.reaches p = false ∧
        Tree.empty.within p root = .ok "Stores/S.ts".toList ∧ p.LiesIn root ∧
        "Stores/S.ts".toList = Path.relativePath root p) ∧
    let p := Path.ofString "/app/src/Stores/./S.ts"
    let root := Path.ofString "/app/src"
    p.IsNormal ∧ root.IsNormal ∧ Tree.empty.reaches p = false ∧
      (∃ rest, Tree.empty.within p root = .ok rest) ∧ p.LiesIn root ∧
      Tree.empty.within p root = .ok "Stores/./S.ts".toList ∧
      "Stores/./S.ts".toList ≠ Path.relativePath root p := by
  refine ⟨?_, ?_⟩
  · intro p root
    have hthere : Tree.empty.reaches p = false := by decide +kernel
    obtain ⟨-, hinside, -⟩ :=
      within_iff (show p.isAbsolute = true by decide) (show root.isAbsolute = true by decide) (.inl hthere)
    obtain ⟨rest, hrest, -, hplain⟩ := hinside (by decide +kernel)
    have heval : Tree.empty.within p root = .ok "Stores/S.ts".toList := by decide +kernel
    obtain rfl := Except.ok.inj (heval.symm.trans hrest)
    exact ⟨by decide, by decide, hthere, heval, hplain.2 (by decide +kernel)⟩
  · intro p root
    have hthere : Tree.empty.reaches p = false := by decide +kernel
    have hp : p.IsNormal := by decide +kernel
    have hroot : root.IsNormal := by decide +kernel
    have hlies : p.LiesIn root := by decide +kernel
    obtain ⟨-, -, hnormal⟩ := within_iff hp.1 hroot.1 (.inl hthere)
    exact ⟨hp, hroot, hthere, (hnormal hp hroot).2 hlies, hlies, by decide +kernel, by decide +kernel⟩

/-- A path that climbs out of the directory is accepted, and one that climbs into it is not. -/
theorem within_of_climbing :
    (let p := Path.ofString "/home/dev/app/src/stores/../../secret.ts"
      let root := Path.ofString "/home/dev/app/src/stores"
      p.isAbsolute = true ∧ root.isAbsolute = true ∧ Tree.empty.reaches p = false ∧
        Tree.empty.reaches root = false ∧
        Tree.empty.within p root = .ok "../../secret.ts".toList ∧ ¬p.LiesIn root) ∧
    let p := Path.ofString "/home/dev/app/lib/../src/stores/S.ts"
    let root := Path.ofString "/home/dev/app/src"
    p.isAbsolute = true ∧ root.isAbsolute = true ∧ Tree.empty.reaches p = false ∧
      Tree.empty.reaches root = false ∧ Tree.empty.within p root = .error ⟨p, root⟩ ∧ p.LiesIn root := by
  decide +kernel

end StoreBindings
