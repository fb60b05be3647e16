import StoreBindings.Session

/-!
# Watching for changes

The file system gives notice of what happens to files; a notice means changes of some of them, or
none. Changes are collected for a while, so that several changes of one file become one, and then
followed in the order in which the files were first met.
-/

namespace StoreBindings

/-- What a file system gives notice of. -/
inductive Notice
  /-- Something that is not said, or that is no change. -/
  | nothing
  | created
  | deleted
  /-- A change of content, or a renaming of which no side is told. -/
  | modified
  /-- A change of something else than the content. -/
  | metadata
  | renamedFrom
  | renamedTo
  /-- A renaming from the first path to the second. -/
  | renamed
deriving DecidableEq, Repr

/-- The changes that a notice about some paths means. -/
def Notice.changes : Notice → List Path → List (Change × Path)
  | nothing, _ | metadata, _ => []
  | created, ps | renamedTo, ps => ps.map (.added, ·)
  | deleted, ps | renamedFrom, ps => ps.map (.removed, ·)
  | modified, ps => ps.map (.changed, ·)
  | renamed, ps =>
    ((ps.take 1).map (.removed, ·)) ++ (((ps.drop 1).take 1).map (.added, ·))

/-- Changes that have been collected, at most one of each file. A file keeps the spelling in which
it was first met. -/
structure PendingChanges where
  changes : OrderedMap (List Component) (Path × Change)

namespace PendingChanges

def empty : PendingChanges := ⟨∅⟩

def size (p : PendingChanges) : Nat := p.changes.size

def isEmpty (p : PendingChanges) : Bool := p.changes.isEmpty

/-- The change that two changes of one file amount to: the later one, except that a file which was
added and then changed is still a file which was added. -/
def merge : Option Change → Change → Change
  | some .added, .changed => .added
  | _, later => later

/-- Collect a change; only sources count. -/
def push (p : PendingChanges) (t : Files.Tree) (change : Change) (path : Path) : PendingChanges :=
  if t.isDirectory path || !Syntax.isSourceFile path then p
  else
    let earlier := p.changes.get? path.components
    ⟨p.changes.insert path.components
      ((earlier.map Prod.fst).getD path, merge (earlier.map Prod.snd) change)⟩

/-- Collect several changes. -/
def pushAll (p : PendingChanges) (t : Files.Tree) (changes : List (Change × Path)) :
    PendingChanges :=
  changes.foldl (fun p c => p.push t c.1 c.2) p

/-- The changes that have been collected; afterwards there are none. -/
def drain (p : PendingChanges) : List (Change × Path) × PendingChanges :=
  (p.changes.values.map fun (path, change) => (change, path), empty)

end PendingChanges

namespace Session

/-- Follow several changes one after the other; one that fails does not keep the others from being
followed. -/
def handleAll (s : Session) (t : Files.Tree) :
    List (Change × Path) → List (Except Failure Outcome) × Session × Files.Tree
  | [] => ([], s, t)
  | (change, path) :: rest =>
    let step := s.handle t change path
    let (results, s, t) := handleAll step.session step.files rest
    (step.result :: results, s, t)

/-- Watching can begin if there is a directory of stores. -/
def beginWatching (s : Session) (t : Files.Tree) : Except Failure Unit :=
  if t.reaches s.project.storesDirectory then .ok () else .error .notWatchable

end Session

end StoreBindings
