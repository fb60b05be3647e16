import Mathlib.Control.Monad.Basic
import StoreBindings.Proofs.Ledger.Tracking
import StoreBindings.Proofs.Program.Loading
import StoreBindings.Session

/-!
# What a session knows when it begins

Reading a program teaches the ledger the contents of the modules and nothing else, so what is known
of the generated files is left alone: `get?_withProgram`. At the beginning of a session the generated
files that are there are recorded too: `start_eq_ok_iff` says when a session can begin and with what,
and `Seen` is what holds of a generated file from then on if there was one to record.
-/

namespace StoreBindings

namespace Config.Project

/-- The two generated files. -/
def outputs (project : Config.Project) : List Path := [project.loader, project.declarations]

/-- The generated files are one path, or they lead to different places. -/
def OutputsApart (project : Config.Project) : Prop :=
  project.loader = project.declarations ∨ project.loader.target ≠ project.declarations.target

instance (project : Config.Project) : Decidable project.OutputsApart :=
  inferInstanceAs (Decidable (_ ∨ _))

/-- The generated files are one path, or they have different entries in a ledger. -/
def OutputsDiffer (project : Config.Project) : Prop :=
  project.loader = project.declarations ∨
    project.loader.components ≠ project.declarations.components

/-- What leads to different places has different entries in a ledger. -/
lemma OutputsApart.differ {project : Config.Project} (h : project.OutputsApart) :
    project.OutputsDiffer := h.imp id fun hne heq => hne (Path.target_congr heq)

/-- Two generated files are one path, or they lead to different places. -/
lemma OutputsApart.eq_or_ne {project : Config.Project} (h : project.OutputsApart) {p q : Path}
    (hp : p ∈ project.outputs) (hq : q ∈ project.outputs) : p = q ∨ p.target ≠ q.target := by
  simp only [outputs, List.mem_cons, List.not_mem_nil, or_false] at hp hq
  rcases hp with rfl | rfl
  · rcases hq with rfl | rfl
    · exact .inl rfl
    · exact h
  · rcases hq with rfl | rfl
    · exact h.imp Eq.symm Ne.symm
    · exact .inl rfl

end Config.Project

namespace Ledger

open Files (Tree)

/-- What is known of a file is what it reads. -/
def Seen (l : Ledger) (t : Tree) (p : Path) : Prop :=
  ∃ c, t.read p = .ok c ∧ l.get? p = some (digest c)

variable {l l' : Ledger} {t t' : Tree} {p : Path}

/-- A file of which the content is known is tracked. -/
lemma Seen.tracks (h : l.Seen t p) : l.Tracks t p := by
  obtain ⟨c, hc, hl⟩ := h
  intro d hd
  rw [hl] at hd
  exact ⟨c, hc, Option.some.inj hd⟩

/-- What is known stays right while the ledger and the file do. -/
lemma Seen.congr (h : l.Seen t p) (hl : l'.get? p = l.get? p)
    (ht : ∀ c, t.read p = .ok c → t'.read p = .ok c) : l'.Seen t' p := by
  obtain ⟨c, hc, hd⟩ := h
  exact ⟨c, ht c hc, hl.trans hd⟩

end Ledger

namespace Session

open Files (Tree)
open Config (Project Compiler)

variable {s : Session} {t : Tree} {project : Project} {l l' : Ledger} {p q : Path}

/-! ## Reading a program -/

@[simp] lemma withProgram_project (s : Session) (P : Program) :
    (s.withProgram P).project = s.project := rfl

@[simp] lemma withProgram_compiler (s : Session) (P : Program) :
    (s.withProgram P).compiler = s.compiler := rfl

@[simp] lemma withProgram_program (s : Session) (P : Program) :
    (s.withProgram P).program = P := rfl

@[simp] lemma withProgram_stores (s : Session) (P : Program) :
    (s.withProgram P).stores = s.stores := rfl

@[simp] lemma process_project (s : Session) : s.process.project = s.project := rfl

@[simp] lemma process_compiler (s : Session) : s.process.compiler = s.compiler := rfl

@[simp] lemma process_program (s : Session) : s.process.program = s.program := rfl

@[simp] lemma process_ledger (s : Session) : s.process.ledger = s.ledger := rfl

/-- Of a path that is recorded several times one of the contents is known. -/
lemma get?_foldl_record (ms : List Syntax.Module) (l : Ledger) (p : Path) :
    (∃ m ∈ ms, m.path.components = p.components ∧
        (ms.foldl (fun l m => l.record m.path m.content) l).get? p =
          some (Ledger.digest m.content)) ∨
      (∀ m ∈ ms, m.path.components ≠ p.components) ∧
        (ms.foldl (fun l m => l.record m.path m.content) l).get? p = l.get? p := by
  induction ms generalizing l with
  | nil => exact .inr ⟨by simp, rfl⟩
  | cons m ms ih =>
    rw [List.foldl_cons]
    -- a later module at the same path would have been recorded over this one
    rcases ih (l.record m.path m.content) with ⟨m', hm', hp, hget⟩ | ⟨hne, hget⟩
    · exact .inl ⟨m', List.mem_cons_of_mem _ hm', hp, hget⟩
    · by_cases hp : m.path.components = p.components
      · refine .inl ⟨m, List.mem_cons_self, hp, ?_⟩
        rw [hget, Ledger.get?_record_of_same l hp.symm]
      · refine .inr ⟨fun m' hm' => ?_, ?_⟩
        · rcases List.mem_cons.1 hm' with rfl | hm'
          · exact hp
          · exact hne m' hm'
        · rw [hget, Ledger.get?_record_of_ne l (Ne.symm hp)]

/-- Of a module its content is known once the program has been read; of any other file, what was
known before. -/
theorem get?_withProgram (s : Session) (P : Program) (p : Path) :
    (∃ m ∈ P.modules, m.path.components = p.components ∧
        (s.withProgram P).ledger.get? p = some (Ledger.digest m.content)) ∨
      (∀ m ∈ P.modules, m.path.components ≠ p.components) ∧
        (s.withProgram P).ledger.get? p = s.ledger.get? p :=
  get?_foldl_record P.modules s.ledger p

/-- Reading a program teaches nothing about generated files. -/
lemma get?_withProgram_of_isGenerated {P : Program} (hP : P.IsLoaded t project)
    (hp : project.isGenerated p = true) (s : Session) :
    (s.withProgram P).ledger.get? p = s.ledger.get? p := by
  rcases s.get?_withProgram P p with ⟨m, hm, hc, -⟩ | ⟨-, hget⟩
  · exact absurd hc (Project.components_ne_of_isGenerated (hP.isGenerated m hm) hp)
  · exact hget

/-- A session has read its sources again if the program can be loaded. -/
lemma reload_eq_ok_iff {s' : Session} : s.reload t = .ok s' ↔
    ∃ P, Program.load t s.project s.compiler = .ok P ∧ s' = s.withProgram P := by
  unfold reload
  rw [bind_eq_ok_iff]
  simp only [pure, Except.pure, Except.ok.injEq, @eq_comm _ s']

/-! ## Recording generated files -/

/-- A generated file is recorded if it is there, and left alone if it is not; a path that is blocked
is an error. -/
lemma recordGenerated_eq_ok_iff : recordGenerated t l p = .ok l' ↔
    (∃ c, t.read p = .ok c ∧ l' = l.record p c) ∨ t.read p = .error .missing ∧ l' = l := by
  unfold recordGenerated Ledger.recordExisting
  cases t.read p with
  | ok c => simp [eq_comm]
  | error e => cases e <;> simp [eq_comm]

/-- A generated file that is not blocked can be recorded, be it there or not. -/
lemma exists_recordGenerated (h : t.IsOpen p) (l : Ledger) :
    ∃ l', recordGenerated t l p = .ok l' := by
  rcases h with ⟨c, hc⟩ | hm
  · exact ⟨_, recordGenerated_eq_ok_iff.2 (.inl ⟨c, hc, rfl⟩)⟩
  · exact ⟨_, recordGenerated_eq_ok_iff.2 (.inr ⟨hm, rfl⟩)⟩

/-- One that has been recorded is not blocked. -/
lemma isOpen_of_recordGenerated (h : recordGenerated t l p = .ok l') : t.IsOpen p := by
  rcases recordGenerated_eq_ok_iff.1 h with ⟨c, hc, -⟩ | ⟨hm, -⟩
  · exact .inl ⟨c, hc⟩
  · exact .inr hm

/-- Nothing else is learned of other files. -/
lemma get?_recordGenerated_of_ne (h : recordGenerated t l p = .ok l')
    (hq : q.components ≠ p.components) : l'.get? q = l.get? q := by
  rcases recordGenerated_eq_ok_iff.1 h with ⟨c, -, rfl⟩ | ⟨-, rfl⟩
  · exact Ledger.get?_record_of_ne l hq c
  · rfl

/-- What is known of a generated file that has been recorded: what it reads if it is there, else what
was known before. -/
lemma seen_or_missing_of_recordGenerated (h : recordGenerated t l p = .ok l') :
    l'.Seen t p ∨ t.read p = .error .missing ∧ l'.get? p = l.get? p := by
  rcases recordGenerated_eq_ok_iff.1 h with ⟨c, hc, rfl⟩ | ⟨hm, rfl⟩
  · exact .inl ⟨c, hc, Ledger.get?_record_self l p c⟩
  · exact .inr ⟨hm, rfl⟩

/-- What is known of either of two files that have been recorded one after the other. -/
lemma seen_or_missing_of_records {l₁ l₂ : Ledger} (h₁ : recordGenerated t l p = .ok l₁)
    (h₂ : recordGenerated t l₁ q = .ok l₂) (hdiffer : p = q ∨ p.components ≠ q.components)
    {out : Path} (hout : out = p ∨ out = q) :
    l₂.Seen t out ∨ t.read out = .error .missing ∧ l₂.get? out = l.get? out := by
  rcases hdiffer with rfl | hne
  · -- one file is recorded twice, and what it reads is recorded either time
    obtain rfl := or_self_iff.1 hout
    rcases seen_or_missing_of_recordGenerated h₂ with hs | ⟨hm, hl₂⟩
    · exact .inl hs
    · rw [hl₂]
      exact (seen_or_missing_of_recordGenerated h₁).imp (fun hs => hs.congr hl₂ fun _ => id) id
  · rcases hout with rfl | rfl
    · have hkeep := get?_recordGenerated_of_ne h₂ hne
      rw [hkeep]
      exact (seen_or_missing_of_recordGenerated h₁).imp (fun hs => hs.congr hkeep fun _ => id) id
    · rw [← get?_recordGenerated_of_ne h₁ (Ne.symm hne)]
      exact seen_or_missing_of_recordGenerated h₂

/-! ## The beginning -/

/-- What a session is when its program has been read and its stores have been found. -/
def opened (project : Project) (c : Compiler) (P : Program) (l : Ledger) : Session :=
  ((⟨project, c, .empty, [], [], l⟩ : Session).withProgram P).process

/-- A session begins when the project has been read and both generated files are recorded. -/
theorem start_eq_ok_iff : start project l t = .ok s ↔
    ∃ c P l₁ l₂, Compiler.load t project.root = .ok c ∧ Program.load t project c = .ok P ∧
      recordGenerated t (opened project c P l).ledger project.loader = .ok l₁ ∧
      recordGenerated t l₁ project.declarations = .ok l₂ ∧
      s = { opened project c P l with ledger := l₂ } := by
  unfold start
  simp only [bind_eq_ok_iff, reload_eq_ok_iff, List.foldlM_cons, List.foldlM_nil, pure,
    Except.pure, Except.ok.injEq]
  constructor
  · rintro ⟨c, hc, s₁, ⟨P, hP, rfl⟩, l₂, ⟨l₁, h₁, l₂', h₂, rfl⟩, rfl⟩
    exact ⟨c, P, l₁, l₂', hc, hP, h₁, h₂, rfl⟩
  · rintro ⟨c, P, l₁, l₂, hc, hP, h₁, h₂, rfl⟩
    exact ⟨c, hc, _, ⟨P, hP, rfl⟩, l₂, ⟨l₁, h₁, l₂, h₂, rfl⟩, rfl⟩

/-- What holds of a session that has just begun with a ledger. -/
structure Began (project : Project) (l : Ledger) (t : Tree) (s : Session) : Prop where
  project_eq : s.project = project
  compiler : Compiler.load t project.root = .ok s.compiler
  program : Program.load t project s.compiler = .ok s.program
  stores : s.stores = Program.stores (s.program.extractions project.directories)
  isOpen : ∀ out ∈ project.outputs, t.IsOpen out
  known : ∀ p, (∀ out ∈ project.outputs, p.components ≠ out.components) →
    s.ledger.get? p = (opened project s.compiler s.program l).ledger.get? p
  recorded : project.OutputsDiffer → ∀ out ∈ project.outputs, s.ledger.Seen t out ∨
    t.read out = .error .missing ∧
      s.ledger.get? out = (opened project s.compiler s.program l).ledger.get? out

/-- A session that starts has begun, with all that its ledger has learned on the way. -/
lemma began_of_start (h : start project l t = .ok s) : Began project l t s := by
  obtain ⟨c, P, l₁, l₂, hc, hP, h₁, h₂, rfl⟩ := start_eq_ok_iff.1 h
  have hmem : ∀ out ∈ project.outputs, out = project.loader ∨ out = project.declarations := by
    intro out hout
    simpa [Project.outputs] using hout
  refine ⟨rfl, hc, hP, rfl, ?_, ?_, ?_⟩
  · intro out hout
    rcases hmem out hout with rfl | rfl
    · exact isOpen_of_recordGenerated h₁
    · exact isOpen_of_recordGenerated h₂
  · intro p hp
    show l₂.get? p = _
    rw [get?_recordGenerated_of_ne h₂ (hp _ (by simp [Project.outputs])),
      get?_recordGenerated_of_ne h₁ (hp _ (by simp [Project.outputs]))]
    rfl
  · exact fun hdiffer out hout => seen_or_missing_of_records h₁ h₂ hdiffer (hmem out hout)

/-- Of a generated file that is not there, a session that begins knows what it has been handed. -/
lemma Began.seen_or_handed (h : Began project l t s) (hdiffer : project.OutputsDiffer)
    (hp : p ∈ project.outputs) (hgen : project.isGenerated p = true) :
    s.ledger.Seen t p ∨ t.read p = .error .missing ∧ s.ledger.get? p = l.get? p := by
  have hopened := get?_withProgram_of_isGenerated (Program.isLoaded_of_load h.program) hgen
    ⟨project, s.compiler, .empty, [], [], l⟩
  have hrecorded := h.recorded hdiffer p hp
  exact hrecorded.imp id fun hm => ⟨hm.1, hm.2.trans hopened⟩

/-- The stores that a session begins with are those of the program that is loaded then. -/
lemma Began.stores_eq {c : Compiler} {P : Program} (h : Began project l t s)
    (hc : Compiler.load t project.root = .ok c) (hP : Program.load t project c = .ok P) :
    s.stores = Program.stores (P.extractions project.directories) := by
  have hcompiler : s.compiler = c := Except.ok.inj (h.compiler.symm.trans hc)
  have hprogram : s.program = P := by
    have hload := h.program
    rw [hcompiler, hP] at hload
    exact (Except.ok.inj hload).symm
  rw [h.stores, hprogram]

/-- What a session begins with does not depend on the ledger that it is handed. -/
lemma Began.unique {s' : Session} (h : Began project l t s) (h' : Began project l' t s') :
    s.project = s'.project ∧ s.compiler = s'.compiler ∧ s.program = s'.program ∧
      s.stores = s'.stores := by
  have hcompiler : s.compiler = s'.compiler :=
    Except.ok.inj (h.compiler.symm.trans h'.compiler)
  have hprogram : s.program = s'.program := by
    have hload := h.program
    rw [hcompiler, h'.program] at hload
    exact (Except.ok.inj hload).symm
  exact ⟨h.project_eq.trans h'.project_eq.symm, hcompiler, hprogram,
    by rw [h.stores, h'.stores, hprogram]⟩

/-- A session can begin where the project can be read and no generated file is blocked. -/
lemma exists_start {c : Compiler} {P : Program} (hc : Compiler.load t project.root = .ok c)
    (hP : Program.load t project c = .ok P) (hopen : ∀ out ∈ project.outputs, t.IsOpen out)
    (l : Ledger) : ∃ s, start project l t = .ok s := by
  obtain ⟨l₁, h₁⟩ := exists_recordGenerated (hopen project.loader (by simp [Project.outputs]))
    (opened project c P l).ledger
  obtain ⟨l₂, h₂⟩ := exists_recordGenerated (hopen project.declarations
    (by simp [Project.outputs])) l₁
  exact ⟨_, start_eq_ok_iff.2 ⟨c, P, l₁, l₂, hc, hP, h₁, h₂, rfl⟩⟩

end Session

/-! ## A small project

What is said of all projects is tried on one with two sources.
-/

namespace Sample

open Files (Tree)

/-- A project with everything at its default place. -/
def project : Config.Project :=
  { Config.Options.default.resolve (.ofString "/app") with filePatterns := [], runtimePackage := "" }

/-- The places of the two sources of the project. -/
def source : Files.Place := ["app", "src", "Stores", "S.ts"].map String.toList

def otherSource : Files.Place := ["app", "src", "Stores", "T.ts"].map String.toList

/-- The place of a file that is none of the sources. -/
def noteFile : Files.Place := ["app", "src", "Stores", "N.ts"].map String.toList

/-- The files of the project, with texts for the two sources. -/
def treeOf (text other : String) : Tree :=
  ⟨.ofList [
    (["app".toList], .directory),
    (["app", "tsconfig.json"].map String.toList,
      .file "\x7b\"files\":[\"src/Stores/S.ts\",\"src/Stores/T.ts\"]\x7d".toUTF8),
    (["app", "src"].map String.toList, .directory),
    (["app", "src", "Stores"].map String.toList, .directory),
    (source, .file text.toUTF8),
    (otherSource, .file other.toUTF8),
    (noteFile, .file "".toUTF8)]⟩

/-- The files of the project, with nothing in the second source. -/
def tree (text : String) : Tree := treeOf text ""

/-- A source that declares a store. -/
def store : String :=
  "export class S extends Store()\x7bget state()\x7breturn\x7b\x7d\x7d\x7dexport const s=new S()"

/-- The paths of the files. -/
def path : Path := Tree.pathOf source

def otherPath : Path := Tree.pathOf otherSource

def notePath : Path := Tree.pathOf noteFile

/-- The generated files of the project are not there. -/
lemma missing : ∀ out ∈ project.outputs,
    ((tree store).read out).isOk = false ∧ (tree store).hasFile out.target = false := by
  decide +kernel

end Sample

end StoreBindings
