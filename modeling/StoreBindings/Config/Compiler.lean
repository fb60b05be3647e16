import StoreBindings.Failure
import StoreBindings.Json.Comments
import StoreBindings.Json.Reader

/-!
# The compiler configuration

The file `tsconfig.json`, of which three entries count: the files that it names, and the patterns
of those that it includes and excludes. Each may be missing or null. The entries may also be given
as an array of all three. A document that is blank once its comments are gone says nothing.
-/

namespace StoreBindings.Config

/-- The compiler configuration and the file that it is read from. -/
structure Compiler where
  file : Path
  files : Option (List String)
  includes : Option (List String)
  excludes : Option (List String)
deriving DecidableEq, Repr

namespace Compiler

/-- The name of the file. -/
def fileName : String := "tsconfig.json"

/-- The entries that count, in the order of an array of them. -/
def keys : List String := ["files", "include", "exclude"]

/-- The value of an entry, which may be missing. -/
def entry? : Option Json → Option (Option (List String))
  | none => some none
  | some v => v.optional? Json.texts?

/-- The configuration that a JSON value gives. -/
def ofJson? (file : Path) (v : Json) : Option Compiler := do
  if let .array items := v then guard (items.length = keys.length)
  match ← v.fields? keys with
  | [files, includes, excludes] => return ⟨file, ← entry? files, ← entry? includes, ← entry? excludes⟩
  | _ => none

/-- The configuration that the text of a file gives. -/
def ofText (file : Path) (text : List Char) : Except Failure Compiler :=
  let plain := Json.plain text
  if (Text.trim plain).isEmpty then .ok ⟨file, none, none, none⟩
  else
    match (Json.parse? plain).bind (ofJson? file) with
    | some c => .ok c
    | none => .error (.badCompilerConfig file)

/-- The directory that the entries are relative to. -/
def directory (c : Compiler) : Path := c.file.parent?.getD (.ofString ".")

end Compiler

end StoreBindings.Config
