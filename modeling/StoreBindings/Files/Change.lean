import StoreBindings.Files.Tree

/-!
# Changes of files

What can happen to a file, and what has happened to the files of a tree between two of its states.
-/

namespace StoreBindings

/-- What can happen to a file. -/
inductive Change
  | added | changed | removed
deriving DecidableEq, Repr

/-- The name of a change. -/
def Change.name : Change → String
  | added => "add"
  | changed => "change"
  | removed => "unlink"

namespace Files.Tree

/-- The files of a tree with their contents. -/
def contents (t : Tree) : List (Place × ByteArray) :=
  t.entries.entries.filterMap fun
    | (place, .file content) => some (place, content)
    | (_, .directory) => none

/-- What happened to a file that has a content now. -/
def changeAt? (before : Tree) (place : Place) (content : ByteArray) : Option Change :=
  match before.at? place with
  | some (.file old) => if old.data.toList = content.data.toList then none else some .changed
  | _ => some .added

/-- Whether there is a file at a place. -/
def hasFile (t : Tree) (place : Place) : Bool :=
  match t.at? place with
  | some (.file _) => true
  | _ => false

/-- What happened to the files of a tree from one state to another. -/
def changes (before after : Tree) : List (Change × Path) :=
  ((before.contents.filter fun f => !after.hasFile f.1).map fun f => (.removed, pathOf f.1)) ++
    after.contents.filterMap fun (place, content) =>
      (before.changeAt? place content).map (·, pathOf place)

end Files.Tree

end StoreBindings
