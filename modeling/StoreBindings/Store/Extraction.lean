import StoreBindings.Report.Recorder
import StoreBindings.Store.ClassBody

/-!
# The stores of a module

Every class of a module that extends the store factory is read, together with the constants that
export instances, and what is wrong is recorded as messages about the module. A store is returned
whether it is complete or not; what it lacks is among the messages.
-/

namespace StoreBindings.Store

open Report (Problem Recorder Diagnostics)
open Syntax (Span TopLevel ClassDeclaration Instance)

/-- Record a finding at its place. -/
def Finding.record (r : Recorder) (f : Finding) : Recorder :=
  match f.place with
  | .member span => r.record f.problem.severity f.problem.parts (some span)
  | .action name span => r.inAction name span fun r => r.actionError f.problem.parts

/-- What a store lacks. A state getter that was refused is no longer missed. -/
def Metadata.lacks (m : Metadata) (className : String) : List Problem :=
  (if m.exportName.isNone then [.exportMissing className] else []) ++
    if m.stateGetter.isNone && !m.stateRejected then [.stateMissing className] else []

/-- Record what a store lacks, at its class. -/
def Metadata.validate (m : Metadata) (r : Recorder) : Recorder :=
  match m.className, m.classSpan with
  | some name, some span =>
    (m.lacks name).foldl (fun r problem => r.record problem.severity problem.parts (some span)) r
  | _, _ => r

/-- The stores of a module and the messages about it. -/
structure Extraction where
  stores : List Metadata
  diagnostics : Diagnostics
deriving DecidableEq, Repr

namespace Extraction

/-- The exported constants of a module that hold a new instance of a class. -/
def instances (ds : List TopLevel) : List Instance :=
  ds.filterMap fun d =>
    match d.exported, d.declaration with
    | true, .group g => g.instance?
    | _, _ => none

/-- The store classes of a module. -/
def storeClasses (ds : List TopLevel) : List ClassDeclaration :=
  ds.filterMap fun d =>
    match d.declaration with
    | .classes c => if c.isStore then some c else none
    | _ => none

/-- Read one store class. -/
def readClass (ix : DecoratorIndex) (dirs : Directories) (file : Path) (is : List Instance)
    (r : Recorder) (c : ClassDeclaration) : Metadata × Recorder :=
  let (m, findings) := (Metadata.ofFile dirs file).addClass ix c
  let r := r.inClass c.name c.span fun r => findings.foldl Finding.record r
  let m := m.resolveExport is
  (m, m.validate r)

/-- Read store classes one after the other. -/
def readClasses (ix : DecoratorIndex) (dirs : Directories) (file : Path) (is : List Instance)
    (r : Recorder) : List ClassDeclaration → List Metadata × Recorder
  | [] => ([], r)
  | c :: cs =>
    let (m, r) := readClass ix dirs file is r c
    let (ms, r) := readClasses ix dirs file is r cs
    (m :: ms, r)

/-- The source of a module, as the subject of messages. -/
def subjectOf (module : Syntax.Module) : Report.Subject := ⟨module.path, module.text⟩

/-- Read all store classes of a module. -/
def ofModule (ix : DecoratorIndex) (dirs : Directories) (module : Syntax.Module) : Extraction :=
  let ds := TopLevel.ofRoot module.root
  let (stores, r) := readClasses ix dirs module.path (instances ds)
    (Recorder.ofSubject (subjectOf module)) (storeClasses ds)
  ⟨stores, r.messages⟩

end Extraction

end StoreBindings.Store
