import StoreBindings.Proofs.Session.Coherence

/-!
# Following a change once more after a failure

By the time that a generated file cannot be written, the sources have been read and their contents are
known. So a change that has failed for this reason is not found to be one when it is told of again: the
file has the content that was read, and the generated files stay as the failure has left them.

* `handle_of_error` — the session that the failure leaves behind, which is that of a rebuild.
* `handle_of_failed` — what following the change again comes to: nothing is written in any case.
* `retried_iff` — when following it again ends as following it for the first time should have ended.
-/

namespace StoreBindings.Session

open Files (Tree)

variable {s : Session} {t u : Tree} {path p : Path} {P : Program} {step retry : Step Outcome}
  {c : ByteArray}

/-! ## What is known after a failure -/

/-- Of a file that is neither a module nor generated, nothing is learned by following its change. -/
lemma get?_rebuild_of_not_module (hout : ∀ out ∈ s.project.outputs, p.components ≠ out.components)
    (hnot : ∀ m ∈ P.modules, m.path.components ≠ p.components) (t : Tree) :
    ((s.reread .changed p P).process.writeFiles t).session.ledger.get? p = s.ledger.get? p := by
  have hout' : ∀ out ∈ (s.reread .changed p P).process.project.outputs,
      p.components ≠ out.components := by
    rw [process_project, reread_project]
    exact hout
  rw [get?_writeFiles_of_ne hout']
  rcases s.get?_withProgram P p with ⟨m, hm, hpath, -⟩ | ⟨-, hget⟩
  · exact absurd hpath (hnot m hm)
  · exact hget

/-- Whether a file is found to have changed is decided by what is known of it and what it reads. -/
lemma isKnown_congr {s' : Session} (hget : s'.ledger.get? p = s.ledger.get? p)
    (hread : u.read p = t.read p) : s'.isKnown u p = s.isKnown t p := by
  unfold isKnown Ledger.isChanged
  rw [hread, hget]

/-- A change that fails although the sources can be read has failed in writing the generated files. -/
theorem handle_of_error (hP : Program.load t s.project s.compiler = .ok P)
    (hstep : s.handle t .changed path = step) (hfailed : step.result.isOk = false) :
    s.IsFollowed path.normalize ∧ s.isKnown t path.normalize = false ∧
      step.session = ((s.reread .changed path.normalize P).process.writeFiles t).session := by
  have hhandled := handled s t .changed path
  rw [hstep] at hhandled
  cases hhandled with
  | ignored _ => cases hfailed
  | unchanged _ _ _ => cases hfailed
  | failed _ hfail => rw [hP] at hfail; cases hfail
  | @rebuilt hp hnew P' hP' _ =>
    cases Except.ok.inj (hP.symm.trans hP')
    exact ⟨hp, by simpa using hnew, rfl⟩
  | gone _ _ _ _ => cases hfailed
  | found _ _ _ _ _ => cases hfailed

/-- What the failure leaves behind has the program and its stores, and knows its modules. -/
lemma rebuilt_spec (hP : Program.load t s.project s.compiler = .ok P)
    (hsession : step.session = ((s.reread .changed p P).process.writeFiles t).session) :
    SameProject s step.session ∧ step.session.program = P ∧ HasStores step.session ∧
      KnowsModules step.session := by
  have hsame := ((sameProject_reread s .changed p P).trans (sameProject_process _)).trans
    (sameProject_writeFiles (s.reread .changed p P).process t)
  have hmodules : KnowsModules (s.reread .changed p P).process :=
    knowsModules_withProgram (Program.isLoaded_of_load hP) (s.forgetting .changed p)
  rw [hsession]
  refine ⟨hsame, ?_, hasStores_writeFiles (hasStores_process _) t,
    knowsModules_writeFiles hmodules t⟩
  rw [writeFiles_session]
  rfl

/-! ## Following the change again -/

/-- A file that has the content that is known of it is left alone. -/
lemma handle_of_isKnown (hp : s.IsFollowed path.normalize)
    (h : s.isKnown t path.normalize = true) :
    s.handle t .changed path = ⟨.ok .unchanged, s, t⟩ := by
  unfold handle
  dsimp only
  rw [if_neg (isFollowed_iff.1 hp), if_pos ⟨rfl, h⟩]

/-- A file with a new content that declares no store, and declared none, has the sources read and
nothing written. -/
lemma handle_of_not_concerns (hp : s.IsFollowed path.normalize)
    (hnew : s.isKnown t path.normalize = false)
    (hP : Program.load t s.project s.compiler = .ok P)
    (h : ¬s.Concerns (s.reread .changed path.normalize P).process .changed path.normalize) :
    s.handle t .changed path =
      ⟨.ok .notAStore, (s.reread .changed path.normalize P).process, t⟩ := by
  have hhandled := handled s t .changed path
  generalize s.handle t .changed path = step at hhandled
  cases hhandled with
  | ignored hnot => exact absurd hp hnot
  | unchanged _ _ hknown => rw [hnew] at hknown; cases hknown
  | failed _ hfail => rw [hP] at hfail; cases hfail
  | @rebuilt _ _ P' hP' hconcerns =>
    cases Except.ok.inj (hP.symm.trans hP')
    exact absurd hconcerns h
  | gone _ _ hchange _ => cases hchange
  | @found _ _ P' hP' _ _ =>
    cases Except.ok.inj (hP.symm.trans hP')
    rfl

/-- A change is told of again, after a generated file could not be written when it was followed.
Nothing is written: the file is taken for unchanged if it is one of the modules, and else for one
without a store. -/
theorem handle_of_failed (hout : ∀ out ∈ s.project.outputs,
      path.normalize.components ≠ out.components)
    (hP : Program.load t s.project s.compiler = .ok P) (hread : t.read path.normalize = .ok c)
    (hstep : s.handle t .changed path = step) (hfailed : step.result.isOk = false)
    (hsources : Program.load u s.project s.compiler = .ok P)
    (hsame : u.read path.normalize = .ok c) :
    (step.session.handle u .changed path).files = u ∧
      ((step.session.handle u .changed path).result ≠ .ok .unchanged ↔
        ∀ m ∈ P.modules, m.path.components ≠ path.normalize.components) := by
  obtain ⟨hp, hnew, hsession⟩ := handle_of_error hP hstep hfailed
  obtain ⟨hproject, hprogram, hstores, hknows⟩ := rebuilt_spec hP hsession
  have hfollowed : step.session.IsFollowed path.normalize := by
    unfold IsFollowed
    rw [hproject.project]
    exact hp
  by_cases hmodule : ∃ m ∈ P.modules, m.path.components = path.normalize.components
  · -- the failure came after the reading, so the module is known as it is
    obtain ⟨m, hm, hpath⟩ := hmodule
    have hknown : step.session.isKnown u path.normalize = true := by
      refine isKnown_of_module (Program.isLoaded_of_load hsources) hm ?_ hpath hsame
      refine hknows m (hprogram ▸ hm) ?_
      intro out hout'
      rw [hpath]
      exact hout out (hproject.project ▸ hout')
    rw [handle_of_isKnown hfollowed hknown]
    exact ⟨rfl, fun h => absurd rfl h, fun h => absurd hpath (h m hm)⟩
  · -- the file is as new as it was, but it is none that a store can be in
    have hnot : ∀ m ∈ P.modules, m.path.components ≠ path.normalize.components :=
      fun m hm hpath => hmodule ⟨m, hm, hpath⟩
    have hunknown : step.session.isKnown u path.normalize = false := by
      rw [← hnew]
      refine isKnown_congr ?_ (hsame.trans hread.symm)
      rw [hsession]
      exact get?_rebuild_of_not_module hout hnot t
    have hload : Program.load u step.session.project step.session.compiler = .ok P := by
      rw [hproject.project, hproject.compiler]
      exact hsources
    have hnone : ¬step.session.Concerns
        (step.session.reread .changed path.normalize P).process .changed path.normalize := by
      intro hconcerns
      refine hmodule ?_
      rw [← Path.normalize_normalize path]
      rcases hconcerns with ⟨-, hbefore⟩ | ⟨-, hnow⟩
      · exact exists_module_of_isStoreFile (hprogram ▸ hstores) hbefore
      · exact exists_module_of_isStoreFile rfl hnow
    rw [handle_of_not_concerns hfollowed hunknown hload hnone]
    exact ⟨rfl, fun _ => hnot, fun _ h => by cases h⟩

/-- An edit has been followed up to the generated files, of which one could not be written. Once what
was in the way is gone, and with the sources as they were, following it again writes nothing. It is not
taken for unchanged and the generated files have the contents that they are to have for the edited
sources, if and only if the file is no module any more and the generated files have these contents
anyway. -/
theorem retried_iff (hout : ∀ out ∈ s.project.outputs,
      path.normalize.components ≠ out.components)
    (hP : Program.load t s.project s.compiler = .ok P) (hread : t.read path.normalize = .ok c)
    (hstep : s.handle t .changed path = step) (hfailed : step.result.isOk = false)
    (hsources : Program.load u s.project s.compiler = .ok P)
    (hsame : u.read path.normalize = .ok c)
    (hretry : step.session.handle u .changed path = retry) :
    step.session.stores = Program.stores (P.extractions s.project.directories) ∧
      retry.files = u ∧
      (retry.result ≠ .ok .unchanged ∧
          (∀ o ∈ step.session.outputs, retry.files.read o.1 = .ok o.2.toUTF8) ↔
        (∀ m ∈ P.modules, m.path.components ≠ path.normalize.components) ∧
          ∀ o ∈ step.session.outputs, u.read o.1 = .ok o.2.toUTF8) := by
  obtain ⟨-, -, hsession⟩ := handle_of_error hP hstep hfailed
  obtain ⟨hproject, hprogram, hstores, -⟩ := rebuilt_spec hP hsession
  obtain ⟨hfiles, hmodule⟩ := handle_of_failed hout hP hread hstep hfailed hsources hsame
  rw [hretry] at hfiles hmodule
  refine ⟨?_, hfiles, ?_⟩
  · unfold HasStores at hstores
    rw [hstores, hprogram, hproject.project]
  · rw [hmodule, hfiles]

end StoreBindings.Session

namespace StoreBindings

namespace Sample

open Files (Tree)

/-- The files of the project after both sources were edited, with a directory where the loader is to be
written. -/
def blocked : Tree := ((edited (tree store) sourceEdits).makeDirectories project.loader).2

end Sample

namespace Session

open Files (Tree)

/-- The small project cannot be rebuilt while the directory is in the way. -/
lemma failure_of_sample : ∃ s P u,
    start Sample.project .empty (Sample.tree Sample.store) = .ok s ∧
    s.isStoreFile Sample.path = true ∧ s.isKnown Sample.blocked Sample.path.normalize = false ∧
    Program.load Sample.blocked s.project s.compiler = .ok P ∧
    (s.handle Sample.blocked .changed Sample.path).result.isOk = false ∧
    (s.handle Sample.blocked .changed Sample.path).files.remove Sample.project.loader = .ok u ∧
    Program.load u s.project s.compiler = .ok P ∧
    (∃ c, Sample.blocked.read Sample.path.normalize = .ok c ∧
      u.read Sample.path.normalize = .ok c) ∧
    ((s.handle Sample.blocked .changed Sample.path).session.handle u .changed Sample.path).result =
      .ok .unchanged ∧
    ∀ out ∈ Sample.project.outputs, u.read out = .error .missing := by
  have heval : ((start Sample.project .empty (Sample.tree Sample.store)).toOption.any fun s =>
      let step := s.handle Sample.blocked .changed Sample.path
      s.isStoreFile Sample.path && !s.isKnown Sample.blocked Sample.path.normalize &&
      !step.result.isOk &&
      (step.files.remove Sample.project.loader).toOption.any fun u =>
        agrees Sample.blocked u Sample.path.normalize &&
        (Sample.blocked.read Sample.path.normalize).isOk &&
        decide ((step.session.handle u .changed Sample.path).result = .ok .unchanged) &&
        (Sample.project.outputs.all fun out => decide (u.read out = .error .missing)) &&
        (Sample.project.sources Sample.blocked s.compiler).toOption.any fun paths =>
          (Sample.project.sources u s.compiler).toOption.any fun paths' =>
            decide (paths' = paths) && paths.all (agrees Sample.blocked u)) = true := by
    decide +kernel
  obtain ⟨s, hstart, h⟩ := exists_of_toOption_any heval
  have hproject := (began_of_start hstart).project_eq
  dsimp only at h
  simp only [Bool.and_eq_true, Bool.not_eq_true'] at h
  obtain ⟨⟨⟨hstore, hnew⟩, hfailed⟩, h⟩ := h
  obtain ⟨u, hremove, h⟩ := exists_of_toOption_any h
  simp only [Bool.and_eq_true, decide_eq_true_eq, List.all_eq_true] at h
  obtain ⟨⟨⟨⟨hagrees, hread⟩, hretry⟩, hmissing⟩, h⟩ := h
  obtain ⟨paths, hpaths, h⟩ := exists_of_toOption_any h
  obtain ⟨paths', hpaths', h⟩ := exists_of_toOption_any h
  simp only [Bool.and_eq_true, decide_eq_true_eq, List.all_eq_true] at h
  obtain ⟨rfl, hsame⟩ := h
  obtain ⟨c, hc⟩ := exists_of_isOk hread
  -- the sources read the same in both trees, so they are one program
  refine ⟨s, Program.read Sample.blocked paths', u, hstart, hstore, hnew, ?_, hfailed, hremove, ?_,
    ⟨c, hc, (read_eq_of_agrees hagrees).trans hc⟩, hretry, hmissing⟩
  · exact Program.load_eq_ok_iff.2 ⟨paths', hproject ▸ hpaths, rfl⟩
  · refine Program.load_eq_ok_iff.2 ⟨paths', hproject ▸ hpaths', ?_⟩
    exact (Program.read_congr fun p hp => read_eq_of_agrees (hsame p hp)).symm

/-- The small project is told of the edit again once the directory is gone. -/
theorem retried_of_sample : ∃ s P u retry,
    start Sample.project .empty (Sample.tree Sample.store) = .ok s ∧
    Program.load Sample.blocked s.project s.compiler = .ok P ∧
    (s.handle Sample.blocked .changed Sample.path).result.isOk = false ∧
    (s.handle Sample.blocked .changed Sample.path).files.remove Sample.project.loader = .ok u ∧
    (s.handle Sample.blocked .changed Sample.path).session.handle u .changed Sample.path = retry ∧
    retry.files = u ∧
    (retry.result ≠ .ok .unchanged ∧
        (∀ o ∈ (s.handle Sample.blocked .changed Sample.path).session.outputs,
          retry.files.read o.1 = .ok o.2.toUTF8) ↔
      (∀ m ∈ P.modules, m.path.components ≠ Sample.path.normalize.components) ∧
        ∀ o ∈ (s.handle Sample.blocked .changed Sample.path).session.outputs,
          u.read o.1 = .ok o.2.toUTF8) := by
  obtain ⟨s, P, u, hstart, -, -, hP, hfailed, hremove, hsources, ⟨c, hread, hsame⟩, -⟩ :=
    failure_of_sample
  have hout : ∀ out ∈ s.project.outputs, Sample.path.normalize.components ≠ out.components := by
    rw [(began_of_start hstart).project_eq]
    decide +kernel
  obtain ⟨-, hfiles, hiff⟩ := retried_iff hout hP hread rfl hfailed hsources hsame rfl
  exact ⟨s, P, u, _, hstart, hP, hfailed, hremove, rfl, hfiles, hiff⟩

/-- A store is edited while a directory is in the way of the loader. Once the directory is gone, the
edit is taken for known, and the generated files stay missing. -/
theorem lost_of_sample : ∃ s P u,
    start Sample.project .empty (Sample.tree Sample.store) = .ok s ∧
    s.isStoreFile Sample.path = true ∧ s.isKnown Sample.blocked Sample.path.normalize = false ∧
    Program.load Sample.blocked s.project s.compiler = .ok P ∧
    (s.handle Sample.blocked .changed Sample.path).result.isOk = false ∧
    (s.handle Sample.blocked .changed Sample.path).files.remove Sample.project.loader = .ok u ∧
    Program.load u s.project s.compiler = .ok P ∧
    ((s.handle Sample.blocked .changed Sample.path).session.handle u .changed Sample.path).result =
      .ok .unchanged ∧
    ∀ out ∈ Sample.project.outputs,
      ((s.handle Sample.blocked .changed Sample.path).session.handle u .changed
        Sample.path).files.read out = .error .missing := by
  obtain ⟨s, P, u, hstart, hstore, hnew, hP, hfailed, hremove, hsources, -, hretry, hmissing⟩ :=
    failure_of_sample
  have hfiles := (handle_eq_of_kept hretry (.inr rfl)).2
  refine ⟨s, P, u, hstart, hstore, hnew, hP, hfailed, hremove, hsources, hretry, ?_⟩
  rw [hfiles]
  exact hmissing

end Session

end StoreBindings
