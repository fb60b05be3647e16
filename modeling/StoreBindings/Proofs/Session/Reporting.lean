import StoreBindings.Proofs.Session.Coherence
import StoreBindings.Watch

/-!
# Messages

A session gathers messages whenever it looks for stores, until somebody takes them. What follows a change
looks for stores at one of several places, or at none, and so it adds the messages of one pass over the
sources, or nothing: `Reports`, `reports_handle`. Which of the two it was can be told from what came of
the change, if it did not fail: `Outcome.LooksForStores`, `reported_once`.

No message is lost or added otherwise when changes are followed one after the other:
`reports_handleAll`.
-/

namespace StoreBindings

/-- The messages of one pass over the sources: of each source in order, those about its stores. -/
def Program.messages (P : Program) (dirs : Store.Directories) : Report.Diagnostics :=
  P.modules.flatMap fun m => (Store.Extraction.ofModule P.decorators dirs m).diagnostics

/-- Whether stores have been looked for, if a change has come to this. -/
def Outcome.LooksForStores (change : Change) : Outcome → Prop
  | .ignored => False
  | .unchanged => False
  | .notAStore => change ≠ .removed
  | .rebuilt _ => True

namespace Session

open Files (Tree)
open Config (Project Compiler)

variable {s : Session} {t : Tree} {change : Change} {path : Path} {outcome : Outcome}
  {added : Report.Diagnostics}

/-- What following a change adds to the messages, if the sources are these afterwards: those of one pass
over them, or nothing. A change that fails can have added either. -/
inductive Reports (t : Tree) (project : Project) (c : Compiler) (P : Program) (change : Change) :
    Except Failure Outcome → Report.Diagnostics → Prop
  | nothing {result : Except Failure Outcome}
      (h : ∀ outcome, result = .ok outcome → ¬outcome.LooksForStores change) :
      Reports t project c P change result []
  | pass {result : Except Failure Outcome} (hP : Program.load t project c = .ok P)
      (h : ∀ outcome, result = .ok outcome → outcome.LooksForStores change) :
      Reports t project c P change result (P.messages project.directories)

lemma diagnostics_process (s : Session) :
    s.process.diagnostics = s.diagnostics ++ s.program.messages s.project.directories := by
  show s.diagnostics ++ Program.diagnostics (s.program.extractions s.project.directories) = _
  unfold Program.diagnostics Program.extractions Program.messages
  rw [List.flatMap_map]

@[simp] lemma diagnostics_writeFiles (s : Session) (t : Tree) :
    (s.writeFiles t).session.diagnostics = s.diagnostics := by rw [writeFiles_session]

@[simp] lemma program_writeFiles (s : Session) (t : Tree) :
    (s.writeFiles t).session.program = s.program := by rw [writeFiles_session]

@[simp] lemma diagnostics_forgetting (s : Session) (change : Change) (p : Path) :
    (s.forgetting change p).diagnostics = s.diagnostics := by
  unfold forgetting
  split <;> rfl

/-- A session that has read its sources again and then looked for stores has gone over them once. -/
lemma diagnostics_process_reread (s : Session) (change : Change) (p : Path) (P : Program) :
    (s.reread change p P).process.diagnostics =
      s.diagnostics ++ P.messages s.project.directories := by
  rw [diagnostics_process, reread_program, reread_project]
  show (s.forgetting change p).diagnostics ++ _ = _
  rw [diagnostics_forgetting]

/-- Following a change leaves the messages that nobody has taken, and adds those of one pass or none. -/
theorem reports_handle (s : Session) (t : Tree) (change : Change) (path : Path) :
    ∃ added, (s.handle t change path).session.diagnostics = s.diagnostics ++ added ∧
      Reports t s.project s.compiler (s.handle t change path).session.program change
        (s.handle t change path).result added := by
  have hhandled := handled s t change path
  generalize s.handle t change path = step at hhandled ⊢
  cases hhandled with
  | ignored _ =>
    refine ⟨[], (List.append_nil _).symm, .nothing ?_⟩
    intro outcome houtcome
    cases houtcome
    exact id
  | unchanged _ _ _ =>
    refine ⟨[], (List.append_nil _).symm, .nothing ?_⟩
    intro outcome houtcome
    cases houtcome
    exact id
  | failed _ _ =>
    refine ⟨[], ?_, .nothing ?_⟩
    · rw [List.append_nil]
      exact diagnostics_forgetting ..
    · intro outcome houtcome
      cases houtcome
  | @rebuilt _ _ P hP _ =>
    -- the messages of the new program are kept while the outputs are written
    refine ⟨P.messages s.project.directories, ?_, ?_⟩
    · show ((s.reread change path.normalize P).process.writeFiles t).session.diagnostics = _
      rw [diagnostics_writeFiles, diagnostics_process_reread]
    · show Reports t s.project s.compiler
        ((s.reread change path.normalize P).process.writeFiles t).session.program change _ _
      rw [program_writeFiles]
      refine .pass hP ?_
      intro outcome houtcome
      obtain ⟨r, -, rfl⟩ := rebuiltStep_eq_ok_iff.1 houtcome
      trivial
  | @gone _ P _ hchange _ =>
    refine ⟨[], ?_, .nothing ?_⟩
    · rw [List.append_nil]
      exact diagnostics_forgetting ..
    · intro outcome houtcome
      cases houtcome
      exact not_not_intro hchange
  | @found _ _ P hP hchange _ =>
    refine ⟨_, diagnostics_process_reread s change path.normalize P, .pass hP ?_⟩
    intro outcome houtcome
    cases houtcome
    exact hchange

/-- Several changes that are followed one after the other add to the messages what each of them adds. -/
theorem reports_handleAll (s : Session) (t : Tree) (es : List (Change × Path)) :
    ∃ added : List Report.Diagnostics,
      (s.handleAll t es).2.1.diagnostics = s.diagnostics ++ added.flatten ∧
      List.Forall₂ (fun e ds => ∃ t P, Reports t s.project s.compiler P e.1.1 e.2 ds)
        (es.zip (s.handleAll t es).1) added := by
  induction es generalizing s t with
  | nil => exact ⟨[], (List.append_nil _).symm, .nil⟩
  | cons e es ih =>
    obtain ⟨change, path⟩ := e
    obtain ⟨first, hfirst, hreports⟩ := reports_handle s t change path
    have hsame := sameProject_move (.handle s t change path)
    obtain ⟨rest, hrest, hall⟩ :=
      ih (s.handle t change path).session (s.handle t change path).files
    rw [hsame.project, hsame.compiler] at hall
    refine ⟨first :: rest, ?_, .cons ⟨t, _, hreports⟩ hall⟩
    rw [List.flatten_cons, ← List.append_assoc, ← hfirst]
    exact hrest

/-- A session whose messages have been taken has those of one pass over its sources after a change that
had it look for stores, and none after one that did not. -/
theorem reported_once
    (hresult : (s.takeDiagnostics.2.handle t change path).result = .ok outcome) :
    (outcome.LooksForStores change →
      Program.load t s.project s.compiler =
          .ok (s.takeDiagnostics.2.handle t change path).session.program ∧
        (s.takeDiagnostics.2.handle t change path).session.diagnostics =
          (s.takeDiagnostics.2.handle t change path).session.program.messages
            s.project.directories) ∧
      (¬outcome.LooksForStores change →
        (s.takeDiagnostics.2.handle t change path).session.diagnostics = []) := by
  obtain ⟨added, hadded, hreports⟩ := reports_handle s.takeDiagnostics.2 t change path
  have hnone : s.takeDiagnostics.2.diagnostics = [] := rfl
  rw [hnone, List.nil_append] at hadded
  rw [hadded]
  cases hreports with
  | nothing h => exact ⟨fun hlooks => absurd hlooks (h outcome hresult), fun _ => rfl⟩
  | pass hP h => exact ⟨fun _ => ⟨hP, rfl⟩, fun hnot => absurd (h outcome hresult) hnot⟩

end Session

namespace Sample

/-- A source that declares a store with two states. -/
def storeTwice : String :=
  "export class S extends Store()\x7bget state()\x7breturn\x7ba:1\x7d\x7dget state()\x7breturn\x7b\x7d\x7d\x7dexport const s=new S()"

end Sample

namespace Session

/-- A store with two states is added to the small project, and that is warned of once. -/
theorem reported_of_added : ∃ s r,
    start Sample.project .empty (Sample.tree "") = .ok s ∧
    (s.takeDiagnostics.2.handle (Sample.tree Sample.storeTwice) .added Sample.path).result =
      .ok (.rebuilt r) ∧
    (s.takeDiagnostics.2.handle (Sample.tree Sample.storeTwice) .added
      Sample.path).session.diagnostics.length = 1 ∧
    (s.takeDiagnostics.2.handle (Sample.tree Sample.storeTwice) .added
        Sample.path).session.diagnostics =
      (s.takeDiagnostics.2.handle (Sample.tree Sample.storeTwice) .added
        Sample.path).session.program.messages s.project.directories := by
  have heval : ((start Sample.project .empty (Sample.tree "")).toOption.any fun s =>
      let step := s.takeDiagnostics.2.handle (Sample.tree Sample.storeTwice) .added Sample.path
      (reportOf step.result).any fun _ => step.session.diagnostics.length == 1) = true := by
    decide +kernel
  obtain ⟨s, hstart, h⟩ := exists_of_toOption_any heval
  obtain ⟨r, hresult, hone⟩ := exists_of_reportOf_any h
  refine ⟨s, r, hstart, hresult, by simpa using hone, ?_⟩
  exact ((reported_once hresult).1 trivial).2

end Session

end StoreBindings
