import StoreBindings.Failure
import StoreBindings.Json.Comments
import StoreBindings.Json.Reader

/-!
# The options of a project

The file `class-stores.json` says where the stores of a project are and how the generated files are
called. Every option has a default. The options may be an object or an array in a fixed order, the
end of which may be missing.
-/

namespace StoreBindings.Config

/-- The options of a project. -/
structure Options where
  projectRoot : Option Path
  storesPath : Option Path
  declarationsName : String
  loaderName : String
  generatedName : String
  filePatterns : List String
  runtimePackage : String
deriving DecidableEq, Repr

namespace Options

/-- The name of the file. -/
def fileName : String := "class-stores.json"

/-- The directory of the stores, where none is given. -/
def defaultStoresPath : Path := .ofString "src/Stores"

def default : Options where
  projectRoot := none
  storesPath := none
  declarationsName := "stores.d.ts"
  loaderName := "StoreLoader.ts"
  generatedName := "Generated"
  filePatterns := ["*Store.ts", "*store.ts"]
  runtimePackage := "@idevelopthings/vue-class-stores/vue"

/-- The names of the options, in the order of an array of them. -/
def keys : List String :=
  ["projectRoot", "storesPath", "storesFileName", "storeLoaderFile", "generatedDirName",
    "filePatterns", "runtimePackage"]

/-- The value of an option that may be missing. -/
def option? {α : Type} (read : Json → Option α) (fallback : α) : Option Json → Option α
  | none => some fallback
  | some v => read v

def path? (v : Json) : Option Path := v.text?.map Path.ofString

/-- The options that a JSON value gives. -/
def ofJson? (v : Json) : Option Options := do
  match ← v.fields? keys with
  | [root, stores, declarations, loader, generated, patterns, package] =>
    return {
      projectRoot := ← option? (Json.optional? path?) default.projectRoot root
      storesPath := ← option? (Json.optional? path?) default.storesPath stores
      declarationsName := ← option? Json.text? default.declarationsName declarations
      loaderName := ← option? Json.text? default.loaderName loader
      generatedName := ← option? Json.text? default.generatedName generated
      filePatterns := ← option? Json.texts? default.filePatterns patterns
      runtimePackage := ← option? Json.text? default.runtimePackage package }
  | _ => none

/-- The options that the text of a file gives. -/
def ofText (file : Path) (text : List Char) : Except Failure Options :=
  match (Json.parse? (Json.plain text)).bind ofJson? with
  | some o => .ok o
  | none => .error (.badOptions file)

end Options

end StoreBindings.Config
