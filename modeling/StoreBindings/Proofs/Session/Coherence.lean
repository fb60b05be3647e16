import StoreBindings.Proofs.Session.Order

/-!
# What a session holds of its own program

A session holds a program, the stores that were found in it, and in its ledger the contents of its
modules. Reading the sources renews the first and the last, finding stores the second; whatever follows
a change does both, except where a file is removed that declared no store. That removal reads the
sources, and with them all that has happened to other files, but looks for no stores in them.

* `KnowsModules` — the contents of all modules are known; every change that is followed to its end
  keeps it: `knowsModules_handle`.
* `Lagging` — of a series of changes, the last one that had the sources read was such a removal.
* `coherent_of_follows` — the contents are known after every series of changes, and the stores are those
  of the program unless the series lags.
-/

namespace StoreBindings.Session

open Files (Tree)
open Config (Project)

variable {project : Project} {handed : Ledger} {s s₀ : Session} {t t₀ : Tree} {change : Change}
  {path p : Path} {outcome : Outcome} {es : List (Change × Outcome)}

/-! ## The contents of the modules -/

/-- The contents of all modules are known, those aside at whose path a generated file is written. -/
def KnowsModules (s : Session) : Prop :=
  ∀ m ∈ s.program.modules, (∀ out ∈ s.project.outputs, m.path.components ≠ out.components) →
    s.ledger.get? m.path = some (Ledger.digest m.content)

/-- Of all other files nothing is learned when the generated files are written. -/
lemma get?_writeFiles_of_ne (h : ∀ out ∈ s.project.outputs, p.components ≠ out.components)
    (t : Tree) : (s.writeFiles t).session.ledger.get? p = s.ledger.get? p := by
  refine writeFiles_induction (M := fun l _ => l.get? p = s.ledger.get? p) ?_ rfl
  intro l t o ho hget
  have hne : p.components ≠ o.1.components := h o.1 (fst_mem_outputs ho)
  rw [Ledger.get?_write_of_ne hne]
  exact hget

lemma knowsModules_writeFiles (h : KnowsModules s) (t : Tree) :
    KnowsModules (s.writeFiles t).session := by
  have hget := fun p hp => get?_writeFiles_of_ne (s := s) (p := p) hp t
  rw [writeFiles_session]
  intro m hm hout
  exact (hget m.path hout).trans (h m hm hout)

/-- Whoever has read the sources knows them. -/
lemma knowsModules_withProgram {P : Program} (hP : P.IsLoaded t project) (s : Session) :
    KnowsModules (s.withProgram P) := fun m hm _ => (caughtUp_process hP s).known m hm

lemma knowsModules_of_start (h : start project handed t = .ok s) : KnowsModules s := by
  have hbegan := began_of_start h
  intro m hm hout
  rw [hbegan.known m.path (hbegan.project_eq ▸ hout)]
  exact (caughtUp_process (Program.isLoaded_of_load hbegan.program) _).known m hm

/-- Following a change to its end leaves the contents of the modules known, whatever else has happened
to the files. -/
theorem knowsModules_handle (h : KnowsModules s)
    (hok : (s.handle t change path).result.isOk = true) :
    KnowsModules (s.handle t change path).session := by
  have hhandled := handled s t change path
  generalize s.handle t change path = step at hhandled hok ⊢
  cases hhandled with
  | ignored _ => exact h
  | unchanged _ _ _ => exact h
  | failed _ _ => cases hok
  | @rebuilt _ _ P hP _ =>
    have hread := knowsModules_withProgram (Program.isLoaded_of_load hP)
      (s.forgetting change path.normalize)
    exact knowsModules_writeFiles (s := (s.reread change path.normalize P).process) hread t
  | @gone _ P hP _ _ => exact knowsModules_withProgram (Program.isLoaded_of_load hP) _
  | @found _ _ P hP _ _ =>
    show KnowsModules (s.reread change path.normalize P)
    exact knowsModules_withProgram (Program.isLoaded_of_load hP) _

/-! ## The stores -/

/-- The stores are those that the program declares. -/
def HasStores (s : Session) : Prop :=
  s.stores = Program.stores (s.program.extractions s.project.directories)

lemma hasStores_of_start (h : start project handed t = .ok s) : HasStores s := by
  have hbegan := began_of_start h
  unfold HasStores
  rw [hbegan.stores, hbegan.project_eq]

lemma hasStores_process (s : Session) : HasStores s.process := rfl

lemma hasStores_writeFiles (h : HasStores s) (t : Tree) : HasStores (s.writeFiles t).session := by
  rw [writeFiles_session]
  exact h

lemma rebuiltStep_eq_ok_iff {written : Step WriteReport} :
    (rebuiltStep written).result = .ok outcome ↔
      ∃ r, written.result = .ok r ∧ outcome = .rebuilt r := by
  unfold rebuiltStep
  cases written.result with
  | error e => simp [Except.map]
  | ok r => simp [Except.map, eq_comm]

/-- A change that is ignored, or is none, leaves everything as it was. -/
lemma handle_eq_of_kept (hresult : (s.handle t change path).result = .ok outcome)
    (hkept : outcome = .ignored ∨ outcome = .unchanged) :
    (s.handle t change path).session = s ∧ (s.handle t change path).files = t := by
  have hhandled := handled s t change path
  generalize s.handle t change path = step at hhandled hresult ⊢
  cases hhandled with
  | ignored _ => exact ⟨rfl, rfl⟩
  | unchanged _ _ _ => exact ⟨rfl, rfl⟩
  | failed _ _ => cases hresult
  | rebuilt _ _ _ _ =>
    obtain ⟨r, -, rfl⟩ := rebuiltStep_eq_ok_iff.1 hresult
    rcases hkept with h | h <;> cases h
  | gone _ _ _ _ =>
    cases hresult
    rcases hkept with h | h <;> cases h
  | found _ _ _ _ _ =>
    cases hresult
    rcases hkept with h | h <;> cases h

/-- A change that leads to a rebuild has the stores found again, and so has one that does not, unless
it is a removal. -/
lemma hasStores_handle (hresult : (s.handle t change path).result = .ok outcome)
    (hread : (∃ r, outcome = .rebuilt r) ∨ outcome = .notAStore ∧ change ≠ .removed) :
    HasStores (s.handle t change path).session := by
  have hhandled := handled s t change path
  generalize s.handle t change path = step at hhandled hresult ⊢
  -- the sources are read again exactly where the outcome is one of those two
  cases hhandled with
  | ignored _ =>
    cases hresult
    rcases hread with ⟨r, h⟩ | ⟨h, -⟩ <;> cases h
  | unchanged _ _ _ =>
    cases hresult
    rcases hread with ⟨r, h⟩ | ⟨h, -⟩ <;> cases h
  | failed _ _ => cases hresult
  | rebuilt _ _ _ _ => exact hasStores_writeFiles (hasStores_process _) t
  | gone _ _ hchange _ =>
    cases hresult
    rcases hread with ⟨r, h⟩ | ⟨-, h⟩
    · cases h
    · exact absurd hchange h
  | found _ _ _ _ _ => exact hasStores_process _

/-- The removal of a file without a store has the sources read, and leaves the stores as they were. -/
lemma handle_of_gone (hresult : (s.handle t .removed path).result = .ok .notAStore) :
    ∃ P, Program.load t s.project s.compiler = .ok P ∧
      (s.handle t .removed path).session = s.reread .removed path.normalize P := by
  have hhandled := handled s t .removed path
  generalize s.handle t .removed path = step at hhandled hresult ⊢
  cases hhandled with
  | ignored _ => cases hresult
  | unchanged _ _ _ => cases hresult
  | failed _ _ => cases hresult
  | rebuilt _ _ _ _ =>
    obtain ⟨r, -, h⟩ := rebuiltStep_eq_ok_iff.1 hresult
    cases h
  | @gone _ P hP _ _ => exact ⟨P, hP, rfl⟩
  | found _ _ _ hchange _ => exact absurd rfl hchange

/-! ## Series of changes -/

/-- A session after changes that were all followed to an end, with what came of them, the last one
first. What the files are may be different for each of them. -/
inductive Follows (s₀ : Session) : List (Change × Outcome) → Session → Prop
  | nil : Follows s₀ [] s₀
  | cons {es : List (Change × Outcome)} {s : Session} (h : Follows s₀ es s) (t : Tree)
      {change : Change} {path : Path} {outcome : Outcome}
      (hresult : (s.handle t change path).result = .ok outcome) :
      Follows s₀ ((change, outcome) :: es) (s.handle t change path).session

/-- The last of the changes that had the sources read was the removal of a file without a store. -/
def Lagging : List (Change × Outcome) → Prop
  | [] => False
  | (change, .notAStore) :: _ => change = .removed
  | (_, .rebuilt _) :: _ => False
  | (_, .ignored) :: es => Lagging es
  | (_, .unchanged) :: es => Lagging es

/-- After every series of changes the contents of all modules are known, and unless the series lags, the
stores are those of the program. One more removal of a file without a store leaves the stores as they
were, so they are those of the program then only if they are those of the sources that it has read. -/
theorem coherent_of_follows (hstart : start project handed t₀ = .ok s₀) (hrun : Follows s₀ es s) :
    KnowsModules s ∧ (¬Lagging es → HasStores s) ∧
      ∀ t path P, (s.handle t .removed path).result = .ok .notAStore →
        Program.load t s.project s.compiler = .ok P →
        (HasStores (s.handle t .removed path).session ↔
          s.stores = Program.stores (P.extractions s.project.directories)) := by
  refine ⟨?_, ?_, ?_⟩
  · induction hrun with
    | nil => exact knowsModules_of_start hstart
    | cons _ t hresult ih => exact knowsModules_handle ih (by rw [hresult]; rfl)
  · induction hrun with
    | nil => exact fun _ => hasStores_of_start hstart
    | @cons es s _ t change path outcome hresult ih =>
      intro hlag
      -- what was read last decides, and a change that read nothing is passed over
      cases outcome with
      | ignored =>
        rw [(handle_eq_of_kept hresult (.inl rfl)).1]
        exact ih hlag
      | unchanged =>
        rw [(handle_eq_of_kept hresult (.inr rfl)).1]
        exact ih hlag
      | notAStore => exact hasStores_handle hresult (.inr ⟨rfl, hlag⟩)
      | rebuilt r => exact hasStores_handle hresult (.inl ⟨r, rfl⟩)
  · intro t path P hresult hP
    obtain ⟨P', hP', hsession⟩ := handle_of_gone hresult
    have hsame : P' = P := Except.ok.inj (hP'.symm.trans hP)
    unfold HasStores
    rw [hsession, hsame, reread_stores, reread_program, reread_project]

/-- A store is emptied, and that is told of as its removal. -/
theorem coherent_of_emptied : ∃ s₀ s,
    start Sample.project .empty (Sample.tree Sample.store) = .ok s₀ ∧ s₀.stores ≠ [] ∧
    Follows s₀ [(.removed, .rebuilt .skip)] s ∧ KnowsModules s ∧ HasStores s := by
  have heval : ((start Sample.project .empty (Sample.tree Sample.store)).toOption.any fun s₀ =>
      !s₀.stores.isEmpty && decide ((s₀.handle (Sample.tree "") .removed Sample.path).result =
        .ok (.rebuilt .skip))) = true := by decide +kernel
  obtain ⟨s₀, hstart, h⟩ := exists_of_toOption_any heval
  rw [Bool.and_eq_true, decide_eq_true_eq] at h
  have hrun : Follows s₀ _ _ := Follows.nil.cons (Sample.tree "") h.2
  obtain ⟨hknows, hstores, -⟩ := coherent_of_follows hstart hrun
  exact ⟨s₀, _, hstart, by simpa using h.1, hrun, hknows, hstores id⟩

/-- A store is emptied, and what is told of is the removal of another file: the session keeps the
store, which its program does not declare any more. -/
theorem incoherent_of_removed : ∃ s₀ t s,
    start Sample.project .empty (Sample.tree Sample.store) = .ok s₀ ∧
    (Sample.tree "").remove Sample.otherPath = .ok t ∧
    (s₀.handle t .removed Sample.otherPath).result = .ok .notAStore ∧
    (s₀.handle t .removed Sample.otherPath).session = s ∧
    Follows s₀ [(.removed, .notAStore)] s ∧ ¬HasStores s := by
  have heval : ((start Sample.project .empty (Sample.tree Sample.store)).toOption.any fun s₀ =>
      ((Sample.tree "").remove Sample.otherPath).toOption.any fun t =>
        let step := s₀.handle t .removed Sample.otherPath
        decide (step.result = .ok .notAStore) && !step.session.stores.isEmpty &&
          (Program.stores (step.session.program.extractions
            step.session.project.directories)).isEmpty) = true := by decide +kernel
  obtain ⟨s₀, hstart, h⟩ := exists_of_toOption_any heval
  obtain ⟨t, ht, h⟩ := exists_of_toOption_any h
  simp only [Bool.and_eq_true, decide_eq_true_eq, Bool.not_eq_true'] at h
  obtain ⟨⟨hresult, hkept⟩, hnone⟩ := h
  refine ⟨s₀, t, _, hstart, ht, hresult, rfl, Follows.nil.cons t hresult, ?_⟩
  intro hstores
  rw [hstores, hnone] at hkept
  cases hkept

end StoreBindings.Session
