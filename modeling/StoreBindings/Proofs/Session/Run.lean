import Mathlib.Logic.Relation
import StoreBindings.Proofs.Session.Writing

/-!
# Runs of a session

What following one change can do is said once, case by case: `Handled`. A run of a session is any
sequence of its operations with edits of the project's files in between, as long as nobody else
touches the generated files: `Move`. What concerns a generated file changes in few ways in a run, so
an invariant of it is an induction with three cases: `reaches_induction`.
-/

namespace StoreBindings

/-- Two trees between which nobody has touched a file: what is at its place is still there, and the
path still leads to it if it did. -/
def Files.Tree.LeavesAlone (t t' : Files.Tree) (p : Path) : Prop :=
  t'.at? p.target = t.at? p.target ∧ ∀ c, t.read p = .ok c → t'.read p = .ok c

/-- What has been written, if a change has led to a rebuild. -/
def Outcome.report? : Outcome → Option WriteReport
  | .ignored => none
  | .unchanged => none
  | .notAStore => none
  | .rebuilt report => some report

namespace Session

open Files (Tree)

/-! ## One change -/

/-- What has been written, if following a change has led to a rebuild. -/
def reportOf (result : Except Failure Outcome) : Option WriteReport :=
  result.toOption.bind Outcome.report?

/-- A report of which something holds is that of a rebuild. -/
lemma exists_of_reportOf_any {result : Except Failure Outcome} {p : WriteReport → Bool}
    (h : (reportOf result).any p = true) : ∃ r, result = .ok (.rebuilt r) ∧ p r = true := by
  cases result with
  | error e => cases h
  | ok outcome =>
    cases outcome with
    | ignored => cases h
    | unchanged => cases h
    | notAStore => cases h
    | rebuilt r => exact ⟨r, rfl, h⟩

/-- The session that knows nothing any more of a file that has been removed. -/
def forgetting (s : Session) (change : Change) (p : Path) : Session :=
  if change = .removed then { s with ledger := s.ledger.forget p } else s

/-- The session that has read the sources again because of a change. -/
def reread (s : Session) (change : Change) (p : Path) (P : Program) : Session :=
  (s.forgetting change p).withProgram P

/-- Whether a path is that of a source that changes are followed of. -/
def IsFollowed (s : Session) (p : Path) : Prop :=
  s.project.isGenerated p = false ∧ s.project.isInStores p = true

/-- Whether a change concerns a store: one that the file declared before, unless the file is new, or
one that it declares now, unless it is gone. -/
def Concerns (s found : Session) (change : Change) (p : Path) : Prop :=
  change ≠ .added ∧ s.isStoreFile p = true ∨ change ≠ .removed ∧ found.isStoreFile p = true

variable {s s' : Session} {t t' : Tree} {change : Change} {path p : Path} {P : Program}

/-- What `handle` does first is `forgetting`. -/
lemma ite_forget_eq_forgetting (s : Session) (change : Change) (p : Path) :
    (if change = .removed then { s with ledger := s.ledger.forget p } else s) =
      s.forgetting change p := rfl

/-- Forgetting a file leaves the project as it is. -/
@[simp] lemma forgetting_project (s : Session) (change : Change) (p : Path) :
    (s.forgetting change p).project = s.project := by
  unfold forgetting
  split <;> rfl

/-- Forgetting a file leaves the configuration of the compiler as it is. -/
@[simp] lemma forgetting_compiler (s : Session) (change : Change) (p : Path) :
    (s.forgetting change p).compiler = s.compiler := by
  unfold forgetting
  split <;> rfl

/-- Forgetting a file leaves the stores as they are. -/
@[simp] lemma forgetting_stores (s : Session) (change : Change) (p : Path) :
    (s.forgetting change p).stores = s.stores := by
  unfold forgetting
  split <;> rfl

@[simp] lemma reread_project (s : Session) (change : Change) (p : Path) (P : Program) :
    (s.reread change p P).project = s.project := forgetting_project s change p

@[simp] lemma reread_compiler (s : Session) (change : Change) (p : Path) (P : Program) :
    (s.reread change p P).compiler = s.compiler := forgetting_compiler s change p

@[simp] lemma reread_program (s : Session) (change : Change) (p : Path) (P : Program) :
    (s.reread change p P).program = P := rfl

@[simp] lemma reread_stores (s : Session) (change : Change) (p : Path) (P : Program) :
    (s.reread change p P).stores = s.stores := forgetting_stores s change p

/-- Whether a file declares a store is decided by the stores of the session. -/
lemma isStoreFile_congr (h : s'.stores = s.stores) (p : Path) :
    s'.isStoreFile p = s.isStoreFile p := by
  unfold isStoreFile storeAt?
  rw [h]

/-- A rebuild reports what writing has reported. -/
lemma result_rebuiltStep_iff {written : Step WriteReport} {r : WriteReport} :
    (rebuiltStep written).result = .ok (.rebuilt r) ↔ written.result = .ok r := by
  unfold rebuiltStep
  cases written.result with
  | error e => simp [Except.map]
  | ok r' => simp [Except.map]

/-- A rebuild succeeds only if writing does. -/
lemma exists_of_rebuiltStep_isOk {written : Step WriteReport}
    (h : (rebuiltStep written).result.isOk = true) : ∃ r, written.result = .ok r := by
  unfold rebuiltStep at h
  cases hr : written.result with
  | error e =>
    rw [hr] at h
    cases h
  | ok r => exact ⟨r, rfl⟩

/-- What following a change of a file comes to. -/
inductive Handled (s : Session) (t : Tree) (change : Change) (path : Path) : Step Outcome → Prop
  | ignored (h : ¬s.IsFollowed path.normalize) : Handled s t change path ⟨.ok .ignored, s, t⟩
  | unchanged (hp : s.IsFollowed path.normalize) (hchange : change = .changed)
      (h : s.isKnown t path.normalize = true) : Handled s t change path ⟨.ok .unchanged, s, t⟩
  | failed (hp : s.IsFollowed path.normalize) {e : Failure}
      (h : Program.load t s.project s.compiler = .error e) :
      Handled s t change path ⟨.error e, s.forgetting change path.normalize, t⟩
  | rebuilt (hp : s.IsFollowed path.normalize)
      (hknown : ¬(change = .changed ∧ s.isKnown t path.normalize = true)) {P : Program}
      (hP : Program.load t s.project s.compiler = .ok P)
      (h : s.Concerns (s.reread change path.normalize P).process change path.normalize) :
      Handled s t change path
        (rebuiltStep ((s.reread change path.normalize P).process.writeFiles t))
  | gone (hp : s.IsFollowed path.normalize) {P : Program}
      (hP : Program.load t s.project s.compiler = .ok P) (hchange : change = .removed)
      (h : ¬s.Concerns (s.reread change path.normalize P).process change path.normalize) :
      Handled s t change path ⟨.ok .notAStore, s.reread change path.normalize P, t⟩
  | found (hp : s.IsFollowed path.normalize)
      (hknown : ¬(change = .changed ∧ s.isKnown t path.normalize = true)) {P : Program}
      (hP : Program.load t s.project s.compiler = .ok P) (hchange : change ≠ .removed)
      (h : ¬s.Concerns (s.reread change path.normalize P).process change path.normalize) :
      Handled s t change path ⟨.ok .notAStore, (s.reread change path.normalize P).process, t⟩

/-- A path is followed if `handle` does not turn it away. -/
lemma isFollowed_iff :
    s.IsFollowed p ↔ ¬(s.project.isGenerated p || !s.project.isInStores p) = true := by
  unfold IsFollowed
  cases s.project.isGenerated p <;> cases s.project.isInStores p <;> simp

/-- Following a change comes to one of the cases, and the session and the files are those of the
case. -/
lemma handled (s : Session) (t : Tree) (change : Change) (path : Path) :
    Handled s t change path (s.handle t change path) := by
  unfold handle
  dsimp only
  split
  -- the cases stand in the order in which they are told apart
  · next h => exact .ignored fun hp => isFollowed_iff.1 hp h
  · next h =>
    have hp := isFollowed_iff.2 h
    split
    · next hk => exact .unchanged hp hk.1 hk.2
    · next hk =>
      rw [ite_forget_eq_forgetting]
      have hreload : (s.forgetting change path.normalize).reload t =
          (Program.load t s.project s.compiler).map (s.reread change path.normalize) := by
        unfold reload
        rw [forgetting_project, forgetting_compiler]
        rfl
      rw [hreload]
      cases hP : Program.load t s.project s.compiler with
      | error e => exact .failed hp hP
      | ok P =>
        have hstores : (s.reread change path.normalize P).isStoreFile path.normalize =
            s.isStoreFile path.normalize := isStoreFile_congr (reread_stores s change _ P) _
        show Handled s t change path
          ((s.reread change path.normalize P).follow t change path.normalize)
        unfold follow
        rw [hstores]
        split
        · next hc => exact .rebuilt hp hk hP (.inl hc)
        · next hbefore =>
          split
          · next hc =>
            refine .gone hp hP hc ?_
            intro hcon
            exact hcon.elim hbefore fun hnow => hnow.1 hc
          · next hc =>
            dsimp only
            split
            · next hnow => exact .rebuilt hp hk hP (.inr ⟨hc, hnow⟩)
            · next hnow =>
              exact .found hp hk hP hc fun hcon => hcon.elim hbefore fun h => hnow h.2

/-! ## Runs -/

/-- What can happen to a session and the files of its project, if nobody else touches the generated
files. -/
inductive Move : Session × Tree → Session × Tree → Prop
  | edit (s : Session) {t t' : Tree} (h : ∀ out ∈ s.project.outputs, t.LeavesAlone t' out) :
      Move (s, t) (s, t')
  | handle (s : Session) (t : Tree) (change : Change) (path : Path) :
      Move (s, t) ((s.handle t change path).session, (s.handle t change path).files)
  | reload {s s' : Session} {t : Tree} (h : s.reload t = .ok s') : Move (s, t) (s', t)
  | process (s : Session) (t : Tree) : Move (s, t) (s.process, t)
  | writeFiles (s : Session) (t : Tree) :
      Move (s, t) ((s.writeFiles t).session, (s.writeFiles t).files)
  | takeDiagnostics (s : Session) (t : Tree) : Move (s, t) (s.takeDiagnostics.2, t)

/-- One session and its files come from another by a run. -/
def Reaches (a b : Session × Tree) : Prop := Relation.ReflTransGen Move a b

/-- The same project, read with the same configuration. -/
structure SameProject (s s' : Session) : Prop where
  project : s'.project = s.project
  compiler : s'.compiler = s.compiler

lemma SameProject.trans {s'' : Session} (h : SameProject s s') (h' : SameProject s' s'') :
    SameProject s s'' := ⟨h'.project.trans h.project, h'.compiler.trans h.compiler⟩

/-- Reading the sources again leaves project and configuration as they are. -/
lemma sameProject_reread (s : Session) (change : Change) (p : Path) (P : Program) :
    SameProject s (s.reread change p P) := ⟨reread_project .., reread_compiler ..⟩

lemma sameProject_process (s : Session) : SameProject s s.process := ⟨rfl, rfl⟩

/-- Writing the generated files leaves project and configuration as they are. -/
lemma sameProject_writeFiles (s : Session) (t : Tree) :
    SameProject s (s.writeFiles t).session := by
  rw [writeFiles_session]
  exact ⟨rfl, rfl⟩

/-- No operation of a session changes its project or its configuration. -/
lemma sameProject_move {a b : Session × Tree} (h : Move a b) : SameProject a.1 b.1 := by
  -- only following a change has cases of its own
  cases h with
  | edit s _ => exact ⟨rfl, rfl⟩
  | handle s t change path =>
    have hhandled := handled s t change path
    generalize s.handle t change path = step at hhandled ⊢
    cases hhandled with
    | ignored _ => exact ⟨rfl, rfl⟩
    | unchanged _ _ _ => exact ⟨rfl, rfl⟩
    | failed _ _ => exact ⟨forgetting_project .., forgetting_compiler ..⟩
    | @rebuilt _ _ P _ _ =>
      have hread := (sameProject_reread s change path.normalize P).trans (sameProject_process _)
      exact hread.trans (sameProject_writeFiles _ t)
    | gone _ _ _ _ => exact sameProject_reread ..
    | found _ _ _ _ _ => exact (sameProject_reread ..).trans (sameProject_process _)
  | reload h =>
    obtain ⟨P, -, rfl⟩ := reload_eq_ok_iff.1 h
    exact ⟨rfl, rfl⟩
  | process s t => exact sameProject_process s
  | writeFiles s t => exact sameProject_writeFiles s t
  | takeDiagnostics s t => exact ⟨rfl, rfl⟩

/-- Neither does a run. -/
lemma sameProject_of_reaches {a b : Session × Tree} (h : Reaches a b) : SameProject a.1 b.1 := by
  induction h with
  | refl => exact ⟨rfl, rfl⟩
  | tail _ hmove ih =>
    exact ih.trans (sameProject_move hmove)

/-! ## Generated files in a run -/

/-- What reading sources can teach a ledger about a file: nothing, and if the file does not count as
generated, that it is gone, or what is at its place. -/
def Learns (project : Config.Project) (out : Path) (t : Tree) (l l' : Ledger) : Prop :=
  l'.get? out = l.get? out ∨ project.isGenerated out = false ∧
    (l'.get? out = none ∨
      ∃ c, t.at? out.target = some (.file c) ∧ l'.get? out = some (Ledger.digest c))

/-- What an invariant of a generated file has to survive: that the ledger learns from the sources,
that other files are edited, and that generated files are written. -/
structure Survives (project : Config.Project) (out : Path) (M : Ledger → Tree → Prop) : Prop where
  learn : ∀ {l l' : Ledger} {t : Tree}, Learns project out t l l' → M l t → M l' t
  edit : ∀ {l : Ledger} {t t' : Tree}, t.LeavesAlone t' out → M l t → M l t'
  write : ∀ {l : Ledger} {t : Tree} {q : Path} {c : ByteArray}, q ∈ project.outputs → M l t →
    M (l.write t q c).2.1 (l.write t q c).2.2

/-- What an invariant of a generated file has to survive if it depends on what is written: that the
ledger learns from the sources, that other files are edited, and that a session of the project writes
its generated files. -/
structure Persists (project : Config.Project) (out : Path) (M : Ledger → Tree → Prop) : Prop where
  learn : ∀ {l l' : Ledger} {t : Tree}, Learns project out t l l' → M l t → M l' t
  edit : ∀ {l : Ledger} {t t' : Tree}, t.LeavesAlone t' out → M l t → M l t'
  write : ∀ {s : Session} {l : Ledger} {t : Tree} {o : Path × String}, s.project = project →
    o ∈ s.outputs → M l t →
      M (l.write t o.1 o.2.toUTF8).2.1 (l.write t o.1 o.2.toUTF8).2.2

/-- What survives any content that is written survives that of a session. -/
lemma Survives.persists {project : Config.Project} {out : Path} {M : Ledger → Tree → Prop}
    (h : Survives project out M) : Persists project out M where
  learn := h.learn
  edit := h.edit
  write hs ho := h.write (hs ▸ fst_mem_outputs ho)

/-- A file that is forgotten is a source, so a generated file is as known as before. -/
lemma learns_forgetting (out : Path) (hp : s.project.isGenerated p = false) (change : Change)
    (t : Tree) : Learns s.project out t s.ledger (s.forgetting change p).ledger := by
  unfold forgetting
  split
  · by_cases hout : out.components = p.components
    · refine .inr ⟨(s.project.isGenerated_congr hout).trans hp, .inl ?_⟩
      exact Ledger.get?_forget_of_same _ hout
    · exact .inl (Ledger.get?_forget_of_ne _ hout)
  · exact .inl rfl

/-- A program that has been read teaches what is at the places of its modules. -/
lemma learns_withProgram {project : Config.Project} (hP : P.IsLoaded t project) (s : Session)
    (out : Path) : Learns project out t s.ledger (s.withProgram P).ledger := by
  rcases s.get?_withProgram P out with ⟨m, hm, hc, hget⟩ | ⟨-, hget⟩
  · refine .inr ⟨?_, .inr ⟨m.content, ?_, hget⟩⟩
    · rw [← project.isGenerated_congr hc]
      exact hP.isGenerated m hm
    · rw [← Path.target_congr hc]
      exact (Tree.read_eq_ok_iff.1 (hP.read m hm)).2
  · exact .inl hget

variable {M : Ledger → Tree → Prop} {out : Path}

/-- What persists survives that the sources are read again because of a change. -/
lemma persists_reread (hM : Persists s.project out M) (hp : s.IsFollowed p)
    (hP : Program.load t s.project s.compiler = .ok P) (change : Change) (h : M s.ledger t) :
    M (s.reread change p P).ledger t := by
  have hforget := hM.learn (learns_forgetting out hp.1 change t) h
  exact hM.learn (learns_withProgram (Program.isLoaded_of_load hP) _ out) hforget

/-- What persists survives that the generated files are written. -/
lemma persists_writeFiles (hM : Persists s.project out M) (h : M s.ledger t) :
    M (s.writeFiles t).session.ledger (s.writeFiles t).files :=
  writeFiles_induction (fun _ _ _ ho h => hM.write rfl ho h) h

/-- What persists survives every operation of a session and every edit. -/
lemma persists_move {a b : Session × Tree} (hmove : Move a b)
    (hM : Persists a.1.project out M) (hout : out ∈ a.1.project.outputs)
    (h : M a.1.ledger a.2) : M b.1.ledger b.2 := by
  cases hmove with
  | edit s hedit => exact hM.edit (hedit out hout) h
  | handle s t change path =>
    have hhandled := handled s t change path
    generalize s.handle t change path = step at hhandled ⊢
    -- an event learns what it reads, and then writes if there is something to rebuild
    cases hhandled with
    | ignored _ => exact h
    | unchanged _ _ _ => exact h
    | failed hp _ => exact hM.learn (learns_forgetting out hp.1 change t) h
    | @rebuilt hp _ P hP _ =>
      have hM' : Persists (s.reread change path.normalize P).process.project out M := by
        rw [process_project, reread_project]
        exact hM
      exact persists_writeFiles hM' (persists_reread hM hp hP change h)
    | gone hp hP _ _ => exact persists_reread hM hp hP change h
    | found hp _ hP _ _ => exact persists_reread hM hp hP change h
  | reload hreload =>
    obtain ⟨P, hP, rfl⟩ := reload_eq_ok_iff.1 hreload
    exact hM.learn (learns_withProgram (Program.isLoaded_of_load hP) _ out) h
  | process s t => exact h
  | writeFiles s t => exact persists_writeFiles hM h
  | takeDiagnostics s t => exact h

/-- What persists through the three kinds of changes holds of a generated file throughout a run. -/
lemma persists_reaches {a b : Session × Tree} (hrun : Reaches a b)
    (hM : Persists a.1.project out M) (hout : out ∈ a.1.project.outputs)
    (h : M a.1.ledger a.2) : M b.1.ledger b.2 := by
  induction hrun with
  | refl => exact h
  | tail hrun hmove ih =>
    -- the outputs are those of the project that the run began with
    have hsame := (sameProject_of_reaches hrun).project
    exact persists_move hmove (hsame ▸ hM) (hsame ▸ hout) ih

/-- What survives the three kinds of changes holds of a generated file throughout a run. -/
theorem reaches_induction {a b : Session × Tree} (hrun : Reaches a b)
    (hM : Survives a.1.project out M) (hout : out ∈ a.1.project.outputs)
    (h : M a.1.ledger a.2) : M b.1.ledger b.2 := persists_reaches hrun hM.persists hout h

/-- A ledger that tracks a generated file tracks it throughout a run. -/
lemma survives_tracks {project : Config.Project} (hgen : project.isGenerated out = true)
    (hapart : ∀ q ∈ project.outputs, out = q ∨ out.target ≠ q.target) :
    Survives project out fun l t => l.Tracks t out where
  learn hl h := by
    rcases hl with hget | ⟨hnot, -⟩
    · exact h.congr hget fun _ => id
    · rw [hgen] at hnot
      cases hnot
  edit ht h := h.congr rfl ht.2
  write hq h := Ledger.tracks_write h (hapart _ hq)

/-- Following a change teaches nothing about generated files. -/
lemma get?_reread (hp : s.IsFollowed p) (hout : s.project.isGenerated out = true)
    (hP : Program.load t s.project s.compiler = .ok P) (change : Change) :
    (s.reread change p P).ledger.get? out = s.ledger.get? out := by
  rcases learns_withProgram (Program.isLoaded_of_load hP) (s.forgetting change p) out with
    hget | ⟨hnot, -⟩
  · rcases learns_forgetting out hp.1 change t with hget' | ⟨hnot, -⟩
    · exact hget.trans hget'
    · rw [hout] at hnot
      cases hnot
  · rw [hout] at hnot
    cases hnot

end Session

end StoreBindings
