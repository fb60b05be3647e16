import StoreBindings.OrderedMap
import StoreBindings.Path.Relative

/-!
# Files and directories

The state of a file system as a value: every file with its content and every directory, each at
the list of names that leads to it from the root. There are no links, so a path leads to at most
one place.

A path is followed name by name, and every step but the last has to lead to a directory: the root
is one, `..` leads back, and `.` and an empty name stay where they are.

* `locate` — the place that a path leads to, whether something is there or not.
* `entry` — what is there.
* `write`, `makeDirectory`, `makeDirectories`, `remove` — the changes.
-/

namespace StoreBindings.Files

/-- The names that lead from the root to a place. -/
abbrev Place := List (List Char)

/-- What is at a place. -/
inductive Entry
  | file (content : ByteArray)
  | directory

/-- Why a path does not lead to what is wanted. -/
inductive Trouble
  /-- There is nothing at the end of the path or on the way. -/
  | missing
  /-- A file stands where a directory is needed. -/
  | notDirectory
  /-- A directory stands where a file is needed. -/
  | isDirectory
  /-- There is something where nothing may be. -/
  | occupied
  /-- The content of a file is no text. -/
  | notText
deriving DecidableEq, Repr

/-- Files and directories below the root. -/
structure Tree where
  entries : OrderedMap Place Entry
deriving Inhabited

namespace Tree

/-- The tree that has nothing but a root. -/
def empty : Tree := ⟨∅⟩

/-- What is at a place. -/
def at? (t : Tree) (place : Place) : Option Entry :=
  if place.isEmpty then some .directory else t.entries.get? place

/-- Follow the names of a path from a place. -/
def follow (t : Tree) (place : Place) : List (List Char) → Except Trouble Place
  | [] => .ok place
  | name :: names =>
    match t.at? place with
    | none => .error .missing
    | some (.file _) => .error .notDirectory
    | some .directory =>
      if name = [] ∨ name = ['.'] then follow t place names
      else if name = ['.', '.'] then follow t place.dropLast names
      else follow t (place ++ [name]) names

/-- The place that a path leads to from the root. An empty path leads nowhere. -/
def locate (t : Tree) (p : Path) : Except Trouble Place :=
  if p.text.isEmpty then .error .missing else t.follow [] (Path.pieces p.text)

/-- What is at the end of a path. -/
def entry (t : Tree) (p : Path) : Except Trouble Entry := do
  match t.at? (← t.locate p) with
  | some e => .ok e
  | none => .error .missing

def isFile (t : Tree) (p : Path) : Bool :=
  match t.entry p with
  | .ok (.file _) => true
  | _ => false

def isDirectory (t : Tree) (p : Path) : Bool :=
  match t.entry p with
  | .ok .directory => true
  | _ => false

/-- Whether there is anything at the end of a path. -/
def reaches (t : Tree) (p : Path) : Bool := (t.entry p).isOk

/-- The content of a file. -/
def read (t : Tree) (p : Path) : Except Trouble ByteArray := do
  match ← t.entry p with
  | .file content => .ok content
  | .directory => .error .isDirectory

/-- The content of a file as a text. -/
def readText (t : Tree) (p : Path) : Except Trouble String := do
  match String.fromUTF8? (← t.read p) with
  | some s => .ok s
  | none => .error .notText

/-- The path of a place. -/
def pathOf (place : Place) : Path := ⟨'/' :: Path.joined place⟩

/-- The shortest path to where a path leads, if something is there. -/
def canonical (t : Tree) (p : Path) : Except Trouble Path := do
  let place ← t.locate p
  match t.at? place with
  | some _ => .ok (pathOf place)
  | none => .error .missing

/-- The names of what is in a directory, in the order of their bytes. -/
def namesIn (t : Tree) (place : Place) : List (List Char) :=
  let inside := t.entries.keys.filterMap fun key =>
    match key.getLast? with
    | some name => if key.dropLast = place then some name else none
    | none => none
  inside.mergeSort fun a b => !List.lex (b.map Char.toNat) (a.map Char.toNat)

/-- Put a content into a file, which need not be there; its directory must. -/
def write (t : Tree) (p : Path) (content : ByteArray) : Except Trouble Tree := do
  let place ← t.locate p
  match t.at? place with
  | some .directory => .error .isDirectory
  | _ => .ok ⟨t.entries.insert place (.file content)⟩

/-- Where a path leads as that of a directory, which may end in slashes before it is there. -/
def locateDirectory (t : Tree) (p : Path) : Except Trouble Place :=
  if p.text.isEmpty then .error .missing
  else t.follow [] ((Path.pieces p.text).reverse.dropWhile List.isEmpty).reverse

/-- Make a directory where nothing is yet. -/
def makeDirectory (t : Tree) (p : Path) : Except Trouble Tree := do
  let place ← t.locateDirectory p
  match t.at? place with
  | some _ => .error .occupied
  | none => .ok ⟨t.entries.insert place .directory⟩

/-- Make a directory, unless there is one already. -/
def ensureDirectory (t : Tree) (p : Path) : Except Trouble Tree :=
  match t.makeDirectory p with
  | .ok t => .ok t
  | .error e => if t.isDirectory p then .ok t else .error e

/-- `makeDirectories` with a bound on the number of directories above the one that is wanted. -/
def makeDirectoriesWithin : Nat → Tree → Path → Except Trouble Unit × Tree
  | 0, t, _ => (.error .missing, t)
  | depth + 1, t, p =>
    if p.text.isEmpty then (.ok (), t)
    else
      match t.ensureDirectory p with
      | .ok t => (.ok (), t)
      | .error .missing =>
        match p.parent? with
        | none => (.error .missing, t)
        | some above =>
          match makeDirectoriesWithin depth t above with
          | (.error e, t) => (.error e, t)
          | (.ok _, t) =>
            match t.ensureDirectory p with
            | .ok t => (.ok (), t)
            | .error e => (.error e, t)
      | .error e => (.error e, t)

/-- Make a directory and all directories above it that are not there yet. If that fails, those
that were made stay. -/
def makeDirectories (t : Tree) (p : Path) : Except Trouble Unit × Tree :=
  makeDirectoriesWithin (p.components.length + 1) t p

/-- Remove a file, or a directory with everything in it. -/
def remove (t : Tree) (p : Path) : Except Trouble Tree := do
  let place ← t.locate p
  match t.at? place with
  | some _ => .ok ⟨⟨t.entries.entries.filter fun e => !place.isPrefixOf e.1,
      (List.filter_sublist.map Prod.fst).nodup t.entries.distinct⟩⟩
  | none => .error .missing

end Tree

end StoreBindings.Files
