import StoreBindings.Boot
import StoreBindings.Command.Arguments
import StoreBindings.Report.Render
import StoreBindings.Watch

/-!
# Running the command

What a call of the command does to the files, what it prints, and how it ends: with status zero if
all went well, with one if something failed, and with two if its arguments were refused.
-/

namespace StoreBindings.Command

/-- Where and how a command is called. -/
structure Setting where
  /-- The directory in which it is called. -/
  directory : Path
  layout : Report.Layout

/-- What is wrong when a command fails. -/
inductive Fault
  | noRoot (root : String)
  | noModule (file : String)
  | unreadable (file : Path)
  | failure (f : Failure)
deriving DecidableEq, Repr

/-- The wording of a fault, where it is the program's own. -/
def Fault.message? : Fault → Option String
  | noRoot root => some s!"Project root '{root}' does not exist"
  | noModule file => some s!"Module '{file}' does not exist"
  | unreadable file => some s!"Failed to read {file.toString}"
  | failure f => f.message?

/-- How a call of the command ended. -/
structure Ending where
  status : Nat
  output : String
  fault : Option Fault
  files : Files.Tree

namespace Ending

/-- A call that went well. -/
def good (output : String) (files : Files.Tree) : Ending := ⟨0, output, none, files⟩

/-- A call in which something failed. -/
def bad (fault : Fault) (files : Files.Tree) : Ending := ⟨1, "", some fault, files⟩

end Ending

/-- What the command says of its version. -/
def versionText : String := "class-stores 0.1.0\n"

/-- Write the generated files of a project, and report on its stores. -/
def build (setting : Setting) (t : Files.Tree) (project : Config.Project) : Ending :=
  match Session.start project .empty t with
  | .error f => .bad (.failure f) t
  | .ok s =>
    let step := s.writeFiles t
    match step.result with
    | .error f => .bad (.failure f) step.files
    | .ok _ => .good (Report.render setting.layout step.session.diagnostics) step.files

/-- Print a module with its boot call addressing the loader. -/
def transform (setting : Setting) (t : Files.Tree) (project : Config.Project) (file : String) :
    Ending :=
  match t.canonical (setting.directory.joinText file) with
  | .error _ => .bad (.noModule file) t
  | .ok path =>
    match t.readText path with
    | .error _ => .bad (.unreadable path) t
    | .ok code =>
      match Boot.addressLoader code.toList path.text project.loader with
      | some output => .good (String.ofList output) t
      | none => .good code t

/-- The layout of the project that a call is about. -/
def projectOf (setting : Setting) (t : Files.Tree) (o : Options) : Except Fault Config.Project := do
  let given := o.root.getD setting.directory.toString
  match t.canonical (setting.directory.joinText given) with
  | .error _ => .error (.noRoot given)
  | .ok root =>
    match Config.Options.load t root with
    | .error f => .error (.failure f)
    | .ok options =>
      let options := { options with
        storesPath := (o.storesPath.map Path.ofString).or options.storesPath
        declarationsName := o.declarationsName.getD options.declarationsName }
      return options.resolve root

/-- Perform a task. Watching begins with a build. -/
def perform (setting : Setting) (t : Files.Tree) (task : Task) (o : Options) : Ending :=
  match projectOf setting t o with
  | .error fault => .bad fault t
  | .ok project =>
    match task with
    | .build | .watch => build setting t project
    | .transform file => transform setting t project file

/-- Run the command. -/
def run (setting : Setting) (t : Files.Tree) (args : List String) : Ending :=
  match Request.ofArguments args with
  | .perform task options => perform setting t task options
  | .version => .good versionText t
  | .help => .good "" t
  | .refused => ⟨2, "", none, t⟩

end StoreBindings.Command
