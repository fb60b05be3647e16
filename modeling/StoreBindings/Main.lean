import StoreBindings.Command.Run

/-!
# The command line

The outermost layer. It reads the files that a call is about into a tree, lets the command run on
that tree, and writes back what has changed. What to do is decided elsewhere.

Files are read below the directory of the call, below what its arguments name, and below the root
and the stores of the project; of the directories above, only the configuration counts. Installed
packages are not read unless they are named.
-/

namespace StoreBindings.CommandLine

open Files (Tree)

/-- Put what is on disk at a path into a tree. -/
partial def load (t : Tree) (path : String) : IO Tree := do
  let place := Path.ofString path
  if ← (← IO.FS.realPath path).isDir then
    let t := (t.makeDirectories place).2
    (← (← IO.FS.realPath path).readDir).foldlM (fun t e => do
      if e.fileName == "node_modules" then return t
      load t e.path.toString) t
  else
    let t := (t.makeDirectories (place.parent?.getD place)).2
    return (t.write place (← IO.FS.readBinFile path)).toOption.getD t

/-- `load` for a path at which there may be nothing, or nothing that can be read. -/
def loadIfThere (t : Tree) (path : String) : IO Tree := do
  match ← (load t path).toBaseIO with
  | .ok t => return t
  | .error _ => return t

/-- A path and the directories above it. -/
def withAncestors : Nat → Path → List Path
  | 0, p => [p]
  | n + 1, p => p :: ((p.parent?.map (withAncestors n)).getD [])

/-- Read the configuration files in a directory and above it. -/
def loadConfiguration (t : Tree) (directory : Path) : IO Tree :=
  (withAncestors directory.components.length directory).foldlM (fun t dir =>
    loadIfThere t (dir.joinText Config.Compiler.fileName).toString) t

/-- Read all files that a call is about. -/
def loadAll (setting : Command.Setting) (args : List String) : IO Tree := do
  let named := args.map fun arg =>
    setting.directory.joinText (if arg.contains '=' then
      String.ofList ((arg.toList.dropWhile (· != '=')).drop 1) else arg)
  let t ← (setting.directory :: named).foldlM (fun t p => do
    loadConfiguration (← loadIfThere t p.normalize.toString) p.normalize) Tree.empty
  match Command.Request.ofArguments args with
  | .perform _ options =>
    match Command.projectOf setting t options with
    | .ok project =>
      [project.root, project.storesDirectory, project.generatedDirectory].foldlM
        (fun t p => loadIfThere t p.normalize.toString) t
    | .error _ => return t
  | _ => return t

/-- Write to disk what has changed from one tree to another. -/
def store (before after : Tree) : IO Unit :=
  (before.changes after).forM fun (_, path) => do
    if let .ok content := after.read path then
      IO.FS.createDirAll (path.parent?.getD path).toString
      IO.FS.writeBinFile path.toString content

/-- Follow the changes on disk from a state of the files on, again and again. -/
partial def follow (setting : Command.Setting) (s : Session) (t : Tree) : IO Unit := do
  IO.sleep 200
  let now ← loadIfThere Tree.empty s.project.root.toString
  let now ← loadIfThere now s.project.storesDirectory.toString
  let changes := (PendingChanges.empty.pushAll now (t.changes now)).drain.1
  let (_, s, after) := s.handleAll now changes
  store now after
  let (messages, s) := s.takeDiagnostics
  IO.print (Report.render setting.layout messages)
  follow setting s after

/-- Begin to follow the changes of a project that has been built. -/
def watch (setting : Command.Setting) (t : Tree) (options : Command.Options) : IO Unit := do
  if let .ok project := Command.projectOf setting t options then
    if let .ok s := Session.start project .empty t then
      if let .ok () := s.beginWatching t then
        follow setting s.takeDiagnostics.2 t

end StoreBindings.CommandLine

open StoreBindings in
/-- Run the command in the current directory. -/
def main (args : List String) : IO UInt32 := do
  let output ← IO.getStdout
  let columns := (← IO.getEnv "COLUMNS").bind fun c => Report.width? c.toList
  let setting : Command.Setting :=
    ⟨.ofString (← IO.currentDir).toString,
      columns.getD Report.defaultWidth, ← output.isTty⟩
  let t ← CommandLine.loadAll setting args
  let ending := Command.run setting t args
  CommandLine.store t ending.files
  output.putStr ending.output
  output.flush
  if let some fault := ending.fault then
    IO.eprintln ("Error: " ++ fault.message?.getD "a file cannot be read or written")
  match ending.status, Command.Request.ofArguments args with
  | 0, .perform .watch options => CommandLine.watch setting ending.files options
  | _, _ => pure ()
  return ending.status.toUInt32
