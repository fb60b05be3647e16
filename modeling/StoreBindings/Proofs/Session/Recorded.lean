import StoreBindings.Proofs.Path.Resolution
import StoreBindings.Proofs.Session.Indexing

/-!
# Paths that are recorded

A path is compared by its components, and resolving it twice is resolving it once. So recorded paths
with one normal form are one path if each of them is resolved when it is recorded. Sources are, and so
are the files of stores and the paths of changes. The ledger is asked by the paths that it is given: for
sources these are resolved, and for the generated files they are as the options spell them.

`recorded_cases` says where a recorded path comes from that is not resolved, and `comparable_iff` that
these are the paths that spoil the comparison. What one operation adds to a ledger is said by
`AddsOnly`, for all that follows.
-/

namespace StoreBindings

open Files (Tree)
open Config (Options Project Compiler)

/-- A path that its normal form is the same path as. -/
def Path.IsResolved (p : Path) : Prop := p.normalize.same p = true

instance (p : Path) : Decidable p.IsResolved := inferInstanceAs (Decidable (_ = true))

/-- Something is known of a file. -/
def Ledger.Knows (l : Ledger) (p : Path) : Prop := (l.get? p).isSome = true

instance (l : Ledger) (p : Path) : Decidable (l.Knows p) := inferInstanceAs (Decidable (_ = true))

/-- A path is that of a generated file, as the file is spelled. -/
def Config.Project.IsOutput (project : Project) (p : Path) : Prop :=
  ∃ out ∈ project.outputs, out.same p = true

namespace Path

variable {p q : Path}

lemma same_iff : p.same q = true ↔ p.components = q.components := beq_iff_eq

/-- A path is resolved if its components are those of its normal form. -/
lemma isResolved_iff : p.IsResolved ↔ p.normalize.components = p.components := same_iff

/-- A normal form is resolved. -/
lemma isResolved_normalize (p : Path) : p.normalize.IsResolved := by
  rw [isResolved_iff, normalize_normalize]

/-- A path that is its normal form is resolved. -/
lemma isResolved_of_normalize_eq (h : p.normalize = p) : p.IsResolved := h ▸ isResolved_normalize p

/-- Two spellings of one path are both resolved or both not. -/
lemma isResolved_congr (h : p.components = q.components) : p.IsResolved ↔ q.IsResolved := by
  rw [isResolved_iff, isResolved_iff, normalize_congr_components h, h]

/-- Resolved paths are the same path if their normal forms are. -/
lemma IsResolved.same (hp : p.IsResolved) (hq : q.IsResolved)
    (h : p.normalize.same q.normalize = true) : p.same q = true := by
  rw [same_iff] at h ⊢
  rw [← isResolved_iff.1 hp, ← isResolved_iff.1 hq, h]

end Path

/-! ## What is added to a ledger -/

namespace Ledger

variable {project : Project} {l l' l'' : Ledger} {t : Tree} {p q : Path}

lemma knows_congr {m : Ledger} (h : m.get? p = l.get? p) : m.Knows p ↔ l.Knows p := by
  unfold Knows
  rw [h]

/-- What a ledger knows and another one did not are resolved paths and those of generated files. -/
def AddsOnly (project : Project) (l l' : Ledger) : Prop :=
  ∀ p, l'.Knows p → l.Knows p ∨ p.IsResolved ∨ project.IsOutput p

lemma AddsOnly.refl (project : Project) (l : Ledger) : AddsOnly project l l :=
  fun _ hp => .inl hp

/-- What two steps add is added by one of them. -/
lemma AddsOnly.trans (h : AddsOnly project l l') (h' : AddsOnly project l' l'') :
    AddsOnly project l l'' := fun p hp => (h' p hp).elim (h p) .inr

/-- A resolved path may be recorded, and so may that of a generated file. -/
lemma addsOnly_record (hp : p.IsResolved ∨ project.IsOutput p) (c : ByteArray) :
    AddsOnly project l (l.record p c) := by
  intro q hq
  by_cases hsame : q.components = p.components
  · refine .inr (hp.imp (Path.isResolved_congr hsame).2 ?_)
    rintro ⟨out, hout, h⟩
    exact ⟨out, hout, Path.same_iff.2 ((Path.same_iff.1 h).trans hsame.symm)⟩
  · exact .inl ((knows_congr (get?_record_of_ne l hsame c)).1 hq)

/-- Forgetting adds nothing. -/
lemma addsOnly_forget (p : Path) : AddsOnly project l (l.forget p) := by
  intro q hq
  by_cases hsame : q.components = p.components
  · rw [Knows, get?_forget_of_same l hsame] at hq
    cases hq
  · exact .inl ((knows_congr (get?_forget_of_ne l hsame)).1 hq)

/-- Writing a generated file adds its path at most. -/
lemma addsOnly_write (hp : p ∈ project.outputs) (t : Tree) (c : ByteArray) :
    AddsOnly project l (l.write t p c).2.1 := by
  have hrecord := addsOnly_record (l := l) (.inr ⟨p, hp, Path.same_iff.2 rfl⟩) c
  rcases write_cases l t p c with ⟨-, hw⟩ | ⟨-, ⟨-, hw⟩ | ⟨e, -, hw⟩⟩
  · rw [hw]
    exact .refl project l
  · rw [hw]
    exact hrecord
  · rw [hw]
    exact .refl project l

end Ledger

namespace Program

variable {t : Tree} {project : Project} {c : Compiler} {P : Program}

/-- The modules of a program are at resolved paths. -/
def IsResolved (P : Program) : Prop := ∀ m ∈ P.modules, m.path.IsResolved

/-- The sources of a project are found at resolved paths. -/
lemma isResolved_of_load (h : load t project c = .ok P) : P.IsResolved := by
  obtain ⟨paths, hpaths, rfl⟩ := load_eq_ok_iff.1 h
  intro m hm
  exact Path.isResolved_of_normalize_eq (normalize_of_mem_sources hpaths (mem_read hm).1)

/-- A store is in a file that has been read, at its resolved path. -/
lemma IsResolved.file_of_mem_stores (hP : P.IsResolved) {dirs : Store.Directories}
    {m : Store.Metadata} (hm : m ∈ stores (P.extractions dirs)) : m.file.IsResolved := by
  obtain ⟨module, hmodule, hof⟩ := exists_module_of_mem_stores hm
  rw [hof.file]
  exact hP module hmodule

end Program

namespace Session

open Ledger (AddsOnly)

variable {s s' s₀ : Session} {t : Tree} {project : Project} {l l' handed : Ledger} {p q : Path}
  {P : Program}

/-- A program that has been read adds the paths of its modules. -/
lemma addsOnly_withProgram (hP : P.IsResolved) (s : Session) :
    AddsOnly project s.ledger (s.withProgram P).ledger := by
  intro p hp
  rcases s.get?_withProgram P p with ⟨m, hm, hpath, -⟩ | ⟨-, hget⟩
  · exact .inr (.inl ((Path.isResolved_congr hpath).1 (hP m hm)))
  · exact .inl ((Ledger.knows_congr hget).1 hp)

/-- A removed file adds nothing. -/
lemma addsOnly_forgetting (s : Session) (change : Change) (p : Path) :
    AddsOnly project s.ledger (s.forgetting change p).ledger := by
  unfold forgetting
  split
  · exact Ledger.addsOnly_forget p
  · exact .refl project s.ledger

/-- Reading the sources again because of a change adds resolved paths. -/
lemma addsOnly_reread (hP : P.IsResolved) (s : Session) (change : Change) (p : Path) :
    AddsOnly project s.ledger (s.reread change p P).ledger :=
  (addsOnly_forgetting s change p).trans (addsOnly_withProgram hP _)

/-- Writing the generated files adds their paths. -/
lemma addsOnly_writeFiles (h : s.project = project) (t : Tree) :
    AddsOnly project s.ledger (s.writeFiles t).session.ledger := by
  refine writeFiles_induction (M := fun l _ => AddsOnly project s.ledger l) ?_ (.refl _ _)
  intro l t o ho hl
  exact hl.trans (Ledger.addsOnly_write (h ▸ fst_mem_outputs ho) t _)

/-- A rebuild adds resolved paths and those of the generated files. -/
lemma addsOnly_rebuild (hP : P.IsResolved) (s : Session) (change : Change) (p : Path) (t : Tree) :
    AddsOnly s.project s.ledger ((s.reread change p P).process.writeFiles t).session.ledger := by
  have hproject : (s.reread change p P).process.project = s.project := reread_project s change p P
  exact (addsOnly_reread hP s change p).trans (addsOnly_writeFiles hproject t)

/-- A file that has been generated before is added by its path. -/
lemma addsOnly_recordGenerated (hp : p ∈ project.outputs) (h : recordGenerated t l p = .ok l') :
    AddsOnly project l l' := by
  rcases recordGenerated_eq_ok_iff.1 h with ⟨c, -, rfl⟩ | ⟨-, rfl⟩
  · exact Ledger.addsOnly_record (.inr ⟨p, hp, Path.same_iff.2 rfl⟩) c
  · exact .refl project l'

/-- No operation makes a path known but resolved ones and those of the generated files. -/
lemma addsOnly_operation (hop : Operation s s') : AddsOnly s.project s.ledger s'.ledger := by
  cases hop with
  | reload hreload =>
    obtain ⟨P, hP, rfl⟩ := reload_eq_ok_iff.1 hreload
    exact addsOnly_withProgram (Program.isResolved_of_load hP) s
  | process => exact .refl s.project s.ledger
  | writeFiles t => exact addsOnly_writeFiles rfl t
  | takeDiagnostics => exact .refl s.project s.ledger
  | handle t change path =>
    have hhandled := handled s t change path
    generalize s.handle t change path = step at hhandled ⊢
    cases hhandled with
    | ignored _ => exact .refl s.project s.ledger
    | unchanged _ _ _ => exact .refl s.project s.ledger
    | failed _ _ => exact addsOnly_forgetting s change path.normalize
    | rebuilt _ _ hP _ =>
      exact addsOnly_rebuild (Program.isResolved_of_load hP) s change path.normalize t
    | gone _ hP _ _ => exact addsOnly_reread (Program.isResolved_of_load hP) s change path.normalize
    | found _ _ hP _ _ =>
      exact addsOnly_reread (Program.isResolved_of_load hP) s change path.normalize

/-- A session that starts adds nothing else to the ledger that it is handed. -/
lemma addsOnly_start (h : start project handed t = .ok s₀) :
    AddsOnly project handed s₀.ledger := by
  obtain ⟨c, P, l₁, l₂, -, hP, h₁, h₂, rfl⟩ := start_eq_ok_iff.1 h
  have hopened : AddsOnly project handed (opened project c P handed).ledger :=
    addsOnly_withProgram (Program.isResolved_of_load hP) ⟨project, c, .empty, [], [], handed⟩
  exact (hopened.trans (addsOnly_recordGenerated (by simp [Project.outputs]) h₁)).trans
    (addsOnly_recordGenerated (by simp [Project.outputs]) h₂)

/-! ## What is recorded -/

/-- The session is one of a project, and its modules and the files of its stores are resolved. -/
structure IsResolved (project : Project) (s : Session) : Prop where
  project_eq : s.project = project
  program : s.program.IsResolved
  stores : ∀ m ∈ s.stores, m.file.IsResolved

/-- Whatever a session does, its modules and its stores stay at resolved paths. -/
lemma isKept_isResolved (project : Project) : IsKept (IsResolved project) where
  read _ _ _ hs hP := ⟨hs.project_eq, Program.isResolved_of_load hP, hs.stores⟩
  process _ hs := ⟨hs.project_eq, hs.program, fun _ hm => hs.program.file_of_mem_stores hm⟩
  ledger _ _ hs := ⟨hs.project_eq, hs.program, hs.stores⟩
  diagnostics _ _ hs := ⟨hs.project_eq, hs.program, hs.stores⟩

/-- They are when it starts. -/
lemma isResolved_of_start (h : start project handed t = .ok s₀) : IsResolved project s₀ := by
  have hbegan := began_of_start h
  have hP := Program.isResolved_of_load hbegan.program
  refine ⟨hbegan.project_eq, hP, fun m hm => ?_⟩
  rw [hbegan.stores] at hm
  exact hP.file_of_mem_stores hm

/-- Whatever happens, a session only adds resolved paths and those of the generated files to the ledger
that it has been handed. -/
lemma addsOnly_runs (hstart : start project handed t = .ok s₀) (hruns : Runs s₀ s) :
    AddsOnly project handed s.ledger := by
  induction hruns with
  | refl => exact addsOnly_start hstart
  | tail hruns hop ih =>
    have hproject := ((isKept_isResolved project).runs hruns (isResolved_of_start hstart)).project_eq
    have hstep := addsOnly_operation hop
    rw [hproject] at hstep
    exact ih.trans hstep

/-- The paths that a session records: those of the sources that are found for it, at any time, of its
modules and its stores, of the files that are known to it, and of the changes that it is told of. -/
inductive Records (s : Session) : Path → Prop
  | source {t : Tree} {found : List Path} {p : Path}
      (h : s.project.sources t s.compiler = .ok found) (hp : p ∈ found) : Records s p
  | module {m : Syntax.Module} (h : m ∈ s.program.modules) : Records s m.path
  | store {m : Store.Metadata} (h : m ∈ s.stores) : Records s m.file
  | known {p : Path} (h : s.ledger.Knows p) : Records s p
  | change (p : Path) : Records s p.normalize

/-- Recorded paths are the same path if their normal forms are. -/
def IsComparable (s : Session) : Prop :=
  ∀ p q, s.Records p → s.Records q → p.normalize.same q.normalize = true → p.same q = true

/-- A change is taken for none only if the file has the content that is known of its resolved path. -/
lemma isKnown_of_unchanged {change : Change} (h : (s.handle t change q).result = .ok .unchanged) :
    s.isKnown t q.normalize = true := by
  have hhandled := handled s t change q
  generalize s.handle t change q = step at hhandled h
  cases hhandled with
  | unchanged _ _ hknown => exact hknown
  | rebuilt =>
    obtain ⟨r, hr⟩ := exists_of_rebuiltStep_isOk (by rw [h]; rfl)
    rw [rebuiltStep, hr] at h
    cases h
  | ignored | failed | gone | found => cases h

/-- Paths can be compared exactly if they are recorded resolved. -/
lemma isComparable_iff : s.IsComparable ↔ ∀ p, s.Records p → p.IsResolved := by
  constructor
  · intro h p hp
    -- a change of the file is told by the normal form
    refine h p.normalize p (.change p) hp ?_
    rw [Path.normalize_normalize, Path.same_iff]
  · intro h p q hp hq hsame
    exact (h p hp).same (h q hq) hsame

/-- A recorded path is resolved, unless it is known as that of a generated file or from before. -/
theorem recorded_cases (hstart : start project handed t = .ok s₀) (hruns : Runs s₀ s)
    (hp : s.Records p) : p.IsResolved ∨ s.ledger.Knows p ∧ (project.IsOutput p ∨ handed.Knows p) := by
  have hs := (isKept_isResolved project).runs hruns (isResolved_of_start hstart)
  cases hp with
  | source hfound hp =>
    exact .inl (Path.isResolved_of_normalize_eq (normalize_of_mem_sources hfound hp))
  | module hm => exact .inl (hs.program _ hm)
  | store hm => exact .inl (hs.stores _ hm)
  | change p => exact .inl (Path.isResolved_normalize p)
  | known hknown =>
    rcases addsOnly_runs hstart hruns p hknown with hhanded | hresolved | hout
    · exact .inr ⟨hknown, .inr hhanded⟩
    · exact .inl hresolved
    · exact .inr ⟨hknown, .inl hout⟩

/-- So what is known by the spelling of a generated file or from before decides it. -/
lemma isComparable_iff_of_runs (hstart : start project handed t = .ok s₀) (hruns : Runs s₀ s) :
    s.IsComparable ↔
      ∀ p, s.ledger.Knows p → project.IsOutput p ∨ handed.Knows p → p.IsResolved := by
  rw [isComparable_iff]
  constructor
  · intro h p hknown _
    exact h p (.known hknown)
  · intro h p hp
    exact (recorded_cases hstart hruns hp).elim id fun hp => h p hp.1 hp.2

/-- Where the options stay below, the generated files are resolved as well. -/
lemma isResolved_of_isOutput {o : Options} {root : Path} (hroot : root.isAbsolute = true)
    (ho : o.StaysBelow root) (hp : (o.resolve root).IsOutput p) : p.IsResolved := by
  obtain ⟨out, hout, hsame⟩ := hp
  have hnormal := ((Options.staysBelow_iff hroot).2 ho).1 out (List.mem_cons_of_mem _ hout)
  exact (Path.isResolved_congr (Path.same_iff.1 hsame)).1 hnormal.2

/-- Resolving a path twice is resolving it once, and a path is spelled from the root as its normal form
is. Two paths with one normal form are one in all that a session answers. Of what a session records,
all is resolved but what is known by the spelling of a generated file or from before, and two recorded
paths with one normal form are the same exactly if that is resolved too; so they are if the options
stay below the directory of the generated files, and the ledger knew nothing else before. -/
theorem comparable_iff (hstart : start project handed t = .ok s₀) (hruns : Runs s₀ s) :
    (∀ p : Path, p.normalize.normalize = p.normalize ∧ p.normalize.isAbsolute = p.isAbsolute) ∧
    (∀ u change (p q : Path), p.normalize.same q.normalize = true →
      s.project.isGenerated p = s.project.isGenerated q ∧
      s.project.isInStores p = s.project.isInStores q ∧
      s.storeAt? p = s.storeAt? q ∧ s.handle u change p = s.handle u change q) ∧
    (∀ p, s.Records p →
      p.IsResolved ∨ s.ledger.Knows p ∧ (project.IsOutput p ∨ handed.Knows p)) ∧
    (s.IsComparable ↔
      ∀ p, s.ledger.Knows p → project.IsOutput p ∨ handed.Knows p → p.IsResolved) ∧
    ∀ (o : Options) (root : Path), root.isAbsolute = true → project = o.resolve root →
      o.StaysBelow root → (∀ p, handed.Knows p → p.IsResolved) → s.IsComparable := by
  have hiff := isComparable_iff_of_runs hstart hruns
  refine ⟨fun p => ⟨Path.normalize_normalize p, Path.isAbsolute_normalize p⟩,
    fun u change p q hsame => ?_, fun p hp => recorded_cases hstart hruns hp, hiff, ?_⟩
  · have hnormal : p.normalize = q.normalize := Path.normalize_eq_iff.2 (Path.same_iff.1 hsame)
    unfold Project.isGenerated Project.isInStores storeAt? handle
    rw [hnormal]
    exact ⟨rfl, rfl, rfl, rfl⟩
  · rintro o root hroot rfl ho hhanded
    refine hiff.2 fun p _ hp => ?_
    exact hp.elim (isResolved_of_isOutput hroot ho) (hhanded p)

end Session

namespace Sample

/-- Options without patterns for stores; else they are the default ones. -/
def unsearched : Options := { Options.default with filePatterns := [] }

/-- The same options with a loader above the directory of the generated files. -/
def escaping : Options := { unsearched with loaderName := "../Loader.ts" }

end Sample

namespace Session

/-- With the generated files in their directory all that is recorded can be compared, and a change is
followed under each spelling of its path. -/
theorem comparable_of_unsearched : ∃ s₀,
    start (Sample.unsearched.resolve (.ofString "/app")) .empty (Sample.tree Sample.store) = .ok s₀ ∧
    let s := (s₀.handle (Sample.tree Sample.store) .added Sample.path).session
    s.IsComparable ∧
    (∀ out ∈ (Sample.unsearched.resolve (.ofString "/app")).outputs,
      s.Records out ∧ out.IsResolved) ∧
    s.handle (Sample.tree Sample.store) .added (.ofString "/app/src/../src//Stores/./S.ts") =
      s.handle (Sample.tree Sample.store) .added Sample.path := by
  have heval : (start (Sample.unsearched.resolve (.ofString "/app")) .empty
      (Sample.tree Sample.store)).toOption.any (fun s₀ =>
        let s := (s₀.handle (Sample.tree Sample.store) .added Sample.path).session
        decide (∀ out ∈ (Sample.unsearched.resolve (.ofString "/app")).outputs,
          s.ledger.Knows out)) = true := by
    decide +kernel
  obtain ⟨s₀, hstart, hknown⟩ := exists_of_toOption_any heval
  rw [decide_eq_true_eq] at hknown
  have hruns : Runs s₀ (s₀.handle (Sample.tree Sample.store) .added Sample.path).session :=
    .single (.handle ..)
  obtain ⟨-, hone, -, hiff, hbelow⟩ := comparable_iff hstart hruns
  have hroot : Path.isAbsolute (.ofString "/app") = true := by decide
  have hcomparable := hbelow Sample.unsearched (.ofString "/app") hroot rfl
    (Options.staysBelow_of_forall hroot (by decide +kernel)) fun p hp => by cases hp
  refine ⟨s₀, hstart, hcomparable, fun out hout => ?_, ?_⟩
  · refine ⟨.known (hknown out hout), hiff.1 hcomparable out (hknown out hout) (.inl ?_)⟩
    exact ⟨out, hout, Path.same_iff.2 rfl⟩
  · exact (hone (Sample.tree Sample.store) .added _ _ (by decide +kernel)).2.2.2

/-- A loader above the directory of the generated files is known as it is spelled. A change of it is
told by its normal form, which is another path; so it is followed although the file is as the session
has just written it. -/
theorem not_comparable_of_escaping : ∃ s₀,
    start (Sample.escaping.resolve (.ofString "/app")) .empty (Sample.tree Sample.store) = .ok s₀ ∧
    let step := s₀.handle (Sample.tree Sample.store) .added Sample.path
    let s := step.session
    let loader := s.project.loader
    Runs s₀ s ∧ s.Records loader ∧ s.Records loader.normalize ∧
      loader.normalize.same loader.normalize.normalize = true ∧
      loader.same loader.normalize = false ∧ ¬s.IsComparable ∧
      (∃ r, step.result = .ok (.rebuilt r) ∧ loader ∈ r.written) ∧
      s.IsFollowed loader.normalize ∧
      (s.handle step.files .changed loader).result ≠ .ok .unchanged := by
  -- the path of the loader keeps the `..` of its name, which its normal form does not have
  have heval : (start (Sample.escaping.resolve (.ofString "/app")) .empty
      (Sample.tree Sample.store)).toOption.any (fun s₀ =>
        let step := s₀.handle (Sample.tree Sample.store) .added Sample.path
        let s := step.session
        let loader := s.project.loader
        decide (s.ledger.Knows loader ∧ loader.same loader.normalize = false ∧
          (s.project.isGenerated loader.normalize = false ∧
            s.project.isInStores loader.normalize = true) ∧
          s.isKnown step.files loader.normalize = false ∧
          (reportOf step.result).any (fun r => r.written.contains loader) = true)) = true := by
    decide +kernel
  obtain ⟨s₀, hstart, h⟩ := exists_of_toOption_any heval
  obtain ⟨hknown, hsame, hfollowed, hunknown, hreport⟩ := of_decide_eq_true h
  obtain ⟨r, hr, hwritten⟩ := exists_of_reportOf_any hreport
  refine ⟨s₀, hstart, .single (.handle ..), .known hknown, .change _, ?_, hsame, fun h => ?_,
    ⟨r, hr, List.contains_iff_mem.1 hwritten⟩, hfollowed, fun h => ?_⟩
  · rw [Path.normalize_normalize, Path.same_iff]
  · have htrue := h _ _ (.known hknown) (.change _) (by rw [Path.normalize_normalize, Path.same_iff])
    rw [hsame] at htrue
    cases htrue
  · have hread := isKnown_of_unchanged h
    rw [hunknown] at hread
    cases hread

end Session

end StoreBindings
