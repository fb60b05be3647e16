import StoreBindings.Proofs.Session.Batch
import StoreBindings.Proofs.Watch.Pending

/-!
# Changes of one file that are taken together

A file that is met several times is followed only once, by the change that its changes amount to. That
change can have another outcome than the ones that it stands for, since a file that has been removed is
looked for among the stores there were, and one that has been added among the stores there are. So one
way of following the changes can lead to a rebuild where the other does not; where they agree on that,
they agree on everything that is written: `coalesced_iff`.
-/

namespace StoreBindings

/-- The source of the small project is removed and then added again. -/
def Sample.replaced : List (Change × Path) := [(.removed, path), (.added, path)]

/-- The store of the small project has moved to its other source. -/
def Sample.moved : Files.Tree := treeOf "" store

namespace Session

open Files (Tree)

variable {s : Session} {t : Tree} {es : List (Change × Path)}

/-- There is one program to be read, so one rebuild is all that can be meant. -/
lemma forall_load_iff (hP : Program.load t s.project s.compiler = .ok P) :
    (∀ P, Program.load t s.project s.compiler = .ok P → ∀ out ∈ s.project.outputs,
        (s.reloadAndRebuild P t).files.read out = t.read out) ↔
      ∀ out ∈ s.project.outputs, (s.reloadAndRebuild P t).files.read out = t.read out := by
  refine ⟨fun h => h P hP, fun h P' hP' => ?_⟩
  cases Except.ok.inj (hP.symm.trans hP')
  exact h

/-- Two batches on one tree leave the same generated files if and only if both lead to a rebuild, or
neither does, or a rebuild changes none of these files. -/
lemma read_handleAll_iff {es' : List (Change × Path)}
    (hgen : ∀ out ∈ s.project.outputs, s.project.isGenerated out = true)
    (hne : s.project.loader.components ≠ s.project.declarations.components)
    (hkeeps : s.KeepsSources t)
    (hok : ∀ r ∈ (s.handleAll t es).1, r.isOk = true)
    (hok' : ∀ r ∈ (s.handleAll t es').1, r.isOk = true) :
    (∀ out ∈ s.project.outputs,
        (s.handleAll t es').2.2.read out = (s.handleAll t es).2.2.read out) ↔
      (Rebuilds (s.handleAll t es').1 ↔ Rebuilds (s.handleAll t es).1) ∨
        ∀ P, Program.load t s.project s.compiler = .ok P → ∀ out ∈ s.project.outputs,
          (s.reloadAndRebuild P t).files.read out = t.read out := by
  -- each batch leaves the tree as it was or what one rebuild leaves
  rcases files_handleAll_of_pending (.refl s) hgen hne hkeeps hok with
    ⟨hr, P, hP, hfiles⟩ | ⟨hr, hfiles⟩
  · rcases files_handleAll_of_pending (.refl s) hgen hne hkeeps hok' with
      ⟨hr', P', hP', hfiles'⟩ | ⟨hr', hfiles'⟩
    · cases Except.ok.inj (hP.symm.trans hP')
      rw [hfiles, hfiles']
      exact ⟨fun _ => .inl ⟨fun _ => hr, fun _ => hr'⟩, fun _ _ _ => rfl⟩
    · rw [hfiles, hfiles', forall_load_iff hP, or_iff_right fun h => hr' (h.2 hr)]
      exact forall₂_congr fun _ _ => eq_comm
  · rcases files_handleAll_of_pending (.refl s) hgen hne hkeeps hok' with
      ⟨hr', P, hP, hfiles'⟩ | ⟨hr', hfiles'⟩
    · rw [hfiles, hfiles', forall_load_iff hP, or_iff_right fun h => hr (h.1 hr')]
    · rw [hfiles, hfiles']
      exact ⟨fun _ => .inl ⟨fun h => absurd h hr', fun h => absurd h hr⟩, fun _ _ _ => rfl⟩

/-- The changes that have been collected leave the same generated files as the changes themselves if
and only if what the changes of each source amount to leads to a rebuild exactly if the changes do, or
a rebuild changes none of these files. -/
theorem coalesced_iff (hgen : ∀ out ∈ s.project.outputs, s.project.isGenerated out = true)
    (hne : s.project.loader.components ≠ s.project.declarations.components)
    (hkeeps : s.KeepsSources t)
    (hok : ∀ r ∈ (s.handleAll t es).1, r.isOk = true)
    (hok' : ∀ r ∈ (s.handleAll t (PendingChanges.collected t es)).1,
      r.isOk = true) :
    (∀ out ∈ s.project.outputs,
        (s.handleAll t (PendingChanges.collected t es)).2.2.read out =
          (s.handleAll t es).2.2.read out) ↔
      (Rebuilds (s.handleAll t (PendingChanges.netAll (PendingChanges.ofSources t es))).1 ↔
          Rebuilds (s.handleAll t es).1) ∨
        ∀ P, Program.load t s.project s.compiler = .ok P → ∀ out ∈ s.project.outputs,
          (s.reloadAndRebuild P t).files.read out = t.read out := by
  rw [PendingChanges.collected_eq] at hok' ⊢
  exact read_handleAll_iff hgen hne hkeeps hok hok'

/-- Where no store is found, a rebuild does nothing. -/
lemma files_reloadAndRebuild_of_no_store {P : Program}
    (h : Program.stores (P.extractions s.project.directories) = []) :
    (s.reloadAndRebuild P t).files = t := by
  unfold reloadAndRebuild rebuild
  rw [writeFiles_of_stores_eq_nil h]

/-- The one store of a project is emptied, and that is told of as a removal and an addition. Taken
together these are an addition, which does not lead to a rebuild; but nothing is left to be rebuilt. -/
theorem coalesced_iff_of_emptied : ∃ s,
    start Sample.project .empty (Sample.tree Sample.store) = .ok s ∧
    Rebuilds (s.handleAll (Sample.tree "") Sample.replaced).1 ∧
    ∀ out ∈ s.project.outputs,
      (s.handleAll (Sample.tree "")
          (PendingChanges.collected (Sample.tree "") Sample.replaced)).2.2.read out =
        (s.handleAll (Sample.tree "") Sample.replaced).2.2.read out := by
  have heval : ((start Sample.project .empty (Sample.tree Sample.store)).toOption.any fun s =>
      let run := (s.handleAll (Sample.tree "") Sample.replaced).1
      let run' := (s.handleAll (Sample.tree "")
        (PendingChanges.collected (Sample.tree "") Sample.replaced)).1
      run.all (·.isOk) && run'.all (·.isOk) && (run.any fun r => (reportOf r).any fun _ => true) &&
      (Program.load (Sample.tree "") s.project s.compiler).toOption.any fun P =>
        (Program.stores (P.extractions s.project.directories)).isEmpty) = true := by
    decide +kernel
  obtain ⟨s, hstart, h⟩ := exists_of_toOption_any heval
  simp only [Bool.and_eq_true, List.all_eq_true, List.any_eq_true] at h
  obtain ⟨⟨⟨hok, hok'⟩, result, hmem, hrebuilt⟩, hempty⟩ := h
  obtain ⟨P, hP, hnone⟩ := exists_of_toOption_any hempty
  have hproject := (began_of_start hstart).project_eq
  have hnothing : (s.reloadAndRebuild P (Sample.tree "")).files = Sample.tree "" :=
    files_reloadAndRebuild_of_no_store (List.isEmpty_iff.1 hnone)
  refine ⟨s, hstart, ?_, (coalesced_iff ?_ ?_ ?_ hok hok').2 (.inr ?_)⟩
  · obtain ⟨r, rfl, -⟩ := exists_of_reportOf_any hrebuilt
    exact ⟨r, hmem⟩
  · rw [hproject]
    decide +kernel
  · rw [hproject]
    decide +kernel
  · intro P' hP'
    cases Except.ok.inj (hP.symm.trans hP')
    rw [hnothing, hP]
  · intro P' hP' out _
    cases Except.ok.inj (hP.symm.trans hP')
    rw [hnothing]

/-- A store moves from one source to another, and the source that it has left is told of as removed and
added. One by one, the removal leads to a rebuild; taken together, the changes are an addition of a
source without a store, and the generated files stay missing. -/
theorem coalesced_ne : ∃ s,
    start Sample.project .empty (Sample.tree Sample.store) = .ok s ∧
    (∀ e ∈ Sample.replaced, s.IsFollowed e.2.normalize ∧ Syntax.isSourceFile e.2 = true) ∧
    (∀ r ∈ (s.handleAll Sample.moved Sample.replaced).1, r.isOk = true) ∧
    (∀ r ∈ (s.handleAll Sample.moved
      (PendingChanges.collected Sample.moved Sample.replaced)).1, r.isOk = true) ∧
    ∀ out ∈ s.project.outputs,
      (s.handleAll Sample.moved
          (PendingChanges.collected Sample.moved Sample.replaced)).2.2.read out ≠
        (s.handleAll Sample.moved Sample.replaced).2.2.read out := by
  have heval : ((start Sample.project .empty (Sample.tree Sample.store)).toOption.any fun s =>
      let run := s.handleAll Sample.moved Sample.replaced
      let run' := s.handleAll Sample.moved (PendingChanges.collected Sample.moved Sample.replaced)
      run.1.all (·.isOk) && run'.1.all (·.isOk) && s.project.outputs.all fun out =>
        (run.2.2.read out).isOk && !(run'.2.2.read out).isOk) = true := by decide +kernel
  obtain ⟨s, hstart, h⟩ := exists_of_toOption_any heval
  simp only [Bool.and_eq_true, List.all_eq_true, Bool.not_eq_true'] at h
  obtain ⟨⟨hok, hok'⟩, hread⟩ := h
  refine ⟨s, hstart, ?_, hok, hok', ?_⟩
  · unfold IsFollowed
    rw [(began_of_start hstart).project_eq]
    decide +kernel
  · intro out hout heq
    obtain ⟨hwritten, hmissing⟩ := hread out hout
    rw [heq, hwritten] at hmissing
    cases hmissing

end Session

end StoreBindings
