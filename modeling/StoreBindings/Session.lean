import StoreBindings.Files.Change
import StoreBindings.Generate.Modules
import StoreBindings.Ledger
import StoreBindings.Program

/-!
# Sessions

A session holds a project between one change of its files and the next: the program as it was read
last, its stores, the messages that nobody has taken yet, and the ledger.

* `start` — read the project and find its stores.
* `writeFiles` — write the two generated files, each only if its content changes.
* `handle` — follow one change of one file, up to the generated files if the change concerns a
  store.

What an operation has done before it fails stays done, so a step returns the session and the files
together with its result: `Step`.
-/

namespace StoreBindings

/-- What came of writing the generated files. -/
structure WriteReport where
  /-- There was no store, and nothing was written. -/
  skipped : Bool
  written : List Path
  unchanged : List Path
deriving DecidableEq, Repr

namespace WriteReport

def skip : WriteReport := ⟨true, [], []⟩

def empty : WriteReport := ⟨false, [], []⟩

/-- The report with one more file. -/
def add (r : WriteReport) (p : Path) : Ledger.Written → WriteReport
  | .written => { r with written := r.written ++ [p] }
  | .unchanged => { r with unchanged := r.unchanged ++ [p] }

end WriteReport

/-- What came of a change. -/
inductive Outcome
  /-- The file is generated, or no file of the stores' directory. -/
  | ignored
  /-- The file has the content that it had before. -/
  | unchanged
  | notAStore
  | rebuilt (report : WriteReport)
deriving DecidableEq, Repr

/-- A project between two changes of its files. -/
structure Session where
  project : Config.Project
  compiler : Config.Compiler
  program : Program
  stores : List Store.Metadata
  diagnostics : Report.Diagnostics
  ledger : Ledger

/-- What a step results in, and the session and the files after it. -/
structure Step (α : Type) where
  result : Except Failure α
  session : Session
  files : Files.Tree

namespace Session

/-! ## Reading -/

/-- The session with another program, all sources of which are taken for known. -/
def withProgram (s : Session) (p : Program) : Session :=
  { s with
    program := p
    ledger := p.modules.foldl
      (fun l m => l.record m.path (String.ofList m.text).toUTF8) s.ledger }

/-- Read all sources again. -/
def reload (s : Session) (t : Files.Tree) : Except Failure Session := do
  return s.withProgram (← Program.load t s.project s.compiler)

/-- Find the stores of the program. -/
def process (s : Session) : Session :=
  let found := s.program.extractions s.project.directories
  { s with
    stores := Program.stores found
    diagnostics := s.diagnostics ++ Program.diagnostics found }

/-- The ledger with the content that a generated file has on disk. -/
def recordGenerated (t : Files.Tree) (l : Ledger) (p : Path) : Except Failure Ledger :=
  match l.recordExisting t p with
  | .ok (some l) => .ok l
  | .ok none => .ok l
  | .error _ => .error .inaccessible

/-- Begin a session with a ledger. Generated files that are there already are taken for known, so
that they are not written again without need. -/
def start (project : Config.Project) (ledger : Ledger) (t : Files.Tree) :
    Except Failure Session := do
  let compiler ← Config.Compiler.load t project.root
  let s : Session := ⟨project, compiler, .empty, [], [], ledger⟩
  let s ← s.reload t
  let s := s.process
  let ledger ← [project.loader, project.declarations].foldlM (recordGenerated t) s.ledger
  return { s with ledger }

/-! ## Writing -/

/-- The loader for the stores. -/
def loader (s : Session) : String := Generate.loader s.stores s.project.runtimePackage

/-- The type declarations for the stores. -/
def declarations (s : Session) : String := Generate.declarations s.stores

/-- The generated files and what is to be in them. -/
def outputs (s : Session) : List (Path × String) :=
  [(s.project.loader, s.loader), (s.project.declarations, s.declarations)]

/-- Write files one after the other; the first that fails ends it. -/
def writeAll (report : WriteReport) (s : Session) (t : Files.Tree) :
    List (Path × String) → Step WriteReport
  | [] => ⟨.ok report, s, t⟩
  | (path, content) :: rest =>
    match s.ledger.write t path content.toUTF8 with
    | (.ok done, ledger, t) => writeAll (report.add path done) { s with ledger } t rest
    | (.error _, ledger, t) => ⟨.error .inaccessible, { s with ledger }, t⟩

/-- Write the generated files, if there are stores. -/
def writeFiles (s : Session) (t : Files.Tree) : Step WriteReport :=
  if s.stores.isEmpty then ⟨.ok .skip, s, t⟩ else writeAll .empty s t s.outputs

/-- Find the stores again, and write the generated files. -/
def rebuild (s : Session) (t : Files.Tree) : Step WriteReport := s.process.writeFiles t

/-! ## Following changes -/

/-- The store that a file declares. -/
def storeAt? (s : Session) (p : Path) : Option Store.Metadata :=
  s.stores.find? fun store => store.file.same p.normalize

/-- Whether a file declares a store. -/
def isStoreFile (s : Session) (p : Path) : Bool := (s.storeAt? p).isSome

/-- Whether a changed file still has the content that is known of it. -/
def isKnown (s : Session) (t : Files.Tree) (p : Path) : Bool :=
  match t.read p with
  | .ok content => !s.ledger.isChanged p content
  | .error _ => false

/-- A report as the outcome of a change. -/
def rebuiltStep (step : Step WriteReport) : Step Outcome :=
  ⟨step.result.map .rebuilt, step.session, step.files⟩

/-- Follow a change of a file of the stores' directory, after all sources have been read again. -/
def follow (s : Session) (t : Files.Tree) (change : Change) (p : Path) : Step Outcome :=
  if change ≠ .added ∧ s.isStoreFile p then rebuiltStep (s.rebuild t)
  else if change = .removed then ⟨.ok .notAStore, s, t⟩
  else
    let s := s.process
    if s.isStoreFile p then rebuiltStep (s.writeFiles t) else ⟨.ok .notAStore, s, t⟩

/-- Follow a change of a file. -/
def handle (s : Session) (t : Files.Tree) (change : Change) (path : Path) : Step Outcome :=
  let p := path.normalize
  if s.project.isGenerated p || !s.project.isInStores p then ⟨.ok .ignored, s, t⟩
  else if change = .changed ∧ s.isKnown t p then ⟨.ok .unchanged, s, t⟩
  else
    let s := if change = .removed then { s with ledger := s.ledger.forget p } else s
    match s.reload t with
    | .error e => ⟨.error e, s, t⟩
    | .ok s => s.follow t change p

/-- The messages that nobody has taken yet; afterwards there are none. -/
def takeDiagnostics (s : Session) : Report.Diagnostics × Session :=
  (s.diagnostics, { s with diagnostics := [] })

end Session

end StoreBindings
