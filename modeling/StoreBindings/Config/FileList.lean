import StoreBindings.Config.Compiler
import StoreBindings.Config.Project
import StoreBindings.Glob.Walk
import StoreBindings.Syntax.Dialect

/-!
# The files of a project

Which sources the compiler configuration lists, and which of them together with the stores make up
the program. Every file is listed once, in its normal spelling, at the place where it is first met.
-/

namespace StoreBindings.Config

open Files (Tree)

namespace Compiler

/-- Look for a compiler configuration in a directory and then in those above it; `bound` limits
how far up. -/
def findWithin? (t : Tree) : Nat → Path → Option Path
  | 0, _ => none
  | bound + 1, dir =>
    let candidate := dir.joinText fileName
    if t.isFile candidate then some candidate else dir.parent?.bind (findWithin? t bound)

/-- The compiler configuration that holds for a directory. -/
def find (t : Tree) (start : Path) : Except Failure Path :=
  match findWithin? t (start.components.length + 1) start with
  | some file => .ok file
  | none => .error (.noCompilerConfig start)

/-- Read the compiler configuration that holds for a directory. -/
def load (t : Tree) (start : Path) : Except Failure Compiler := do
  let file ← find t start
  match t.readText file with
  | .ok text => ofText file text.toList
  | .error _ => .error .inaccessible

/-- The pattern that an entry stands for: a directory stands for everything in it. -/
def expand (t : Tree) (dir : Path) (pattern : String) : List Char :=
  let whole := dir.joinText pattern
  let isPlain := !pattern.toList.any fun c => c == '*' || c == '?' || c == '['
  if isPlain && t.isDirectory whole then ((whole.joinText "**").joinText "*").text else whole.text

/-- The patterns of the entries that are left out. -/
def exclusions (t : Tree) (c : Compiler) : Except Failure (List Glob.Pattern) :=
  (c.excludes.getD []).mapM fun pattern =>
    match Glob.compile? (expand t c.directory pattern) with
    | some compiled => .ok compiled
    | none => .error (.badPattern pattern)

/-- Whether a path leads through the directory of installed packages. -/
def isInPackages (p : Path) : Bool := p.components.contains (.name "node_modules".toList)

/-- The sources that an entry adds. -/
def included (t : Tree) (c : Compiler) (excluded : List Glob.Pattern) (pattern : String) :
    Except Failure (List Path) :=
  match Glob.find? t (expand t c.directory pattern) with
  | none => .error (.badPattern pattern)
  | some found => .ok <| (found.map Path.normalize).filter fun p =>
      t.isFile p && Syntax.isSourceFile p && !isInPackages p &&
        !excluded.any fun x => Glob.matchesText x p.text

/-- The files that are named one by one and exist. -/
def named (t : Tree) (c : Compiler) : List Path :=
  ((c.files.getD []).map fun file => (c.directory.joinText file).normalize).filter t.isFile

/-- All files that a compiler configuration lists. Files that are named come first; patterns are
only looked at if there are some, or if nothing is named. -/
def fileList (t : Tree) (c : Compiler) : Except Failure (List Path) :=
  match c.includes, c.files with
  | none, some _ => .ok (named t c).eraseDups
  | includes, _ => do
    let excluded ← exclusions t c
    let found ← (includes.getD ["**/*"]).mapM (included t c excluded)
    return (named t c ++ found.flatten).eraseDups

end Compiler

namespace Options

/-- The options of a project at a given place, if there are any, else the defaults. -/
def load (t : Tree) (root : Path) : Except Failure Options :=
  let file := root.joinText fileName
  if t.isFile file then
    match t.readText file with
    | .ok text => ofText file text.toList
    | .error _ => .error .inaccessible
  else .ok default

end Options

namespace Project

/-- The files that match a pattern for stores. -/
def storeFiles (t : Tree) (p : Project) (pattern : String) : Except Failure (List Path) :=
  match Glob.find? t ((p.storesDirectory.joinText "**").joinText pattern).text with
  | none => .error (.badPattern pattern)
  | some found => .ok ((found.filter t.isFile).map Path.normalize)

/-- All sources of a project: the stores, and what the compiler configuration lists. Generated
files are none of them. -/
def sources (t : Tree) (p : Project) (c : Compiler) : Except Failure (List Path) := do
  let stores ← p.filePatterns.mapM (storeFiles t p)
  let listed ← c.fileList t
  return (stores.flatten ++ listed).eraseDups.filter fun path => !p.isGenerated path

end Project

end StoreBindings.Config
