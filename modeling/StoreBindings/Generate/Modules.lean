import StoreBindings.Path.Relative
import StoreBindings.Store.Metadata

/-!
# The generated modules

The loader lists all stores with everything that is known of them. It imports what it needs from the
runtime package, and each store only when it is asked for.

The type declarations tell the type checker which stores components can reach, and under which names.
They hold no code that is run.
-/

namespace StoreBindings.Generate

/-! ## Import statements -/

/-- An import of names from a module with a given specifier. -/
def namedImport (names : List String) (specifier : String) : String :=
  "import \x7b " ++ String.intercalate ", " names ++ " \x7d from " ++ Text.quote specifier ++ ";"

/-- An import of names from a module at a relative path. -/
def relativeImport (names : List String) (path : String) : String :=
  namedImport names (String.ofList (Path.importSpecifier path.toList))

/-! ## The loader -/

/-- What the loader needs from the runtime package. -/
def runtimeNames : List String :=
  ["StoreManager", "StoreMetaData", "StoreMetaActionData", "StoreMetaGetterSetterData"]

/-- The list of all valid stores. -/
def storeList (stores : List Store.Metadata) : Value :=
  .array ((stores.filter Store.Metadata.isValid).map fun s =>
    .construct "StoreMetaData" [s.toValue])

/-- The loader for stores, in the given order. -/
def loader (stores : List Store.Metadata) (runtimePackage : String) : String :=
  namedImport runtimeNames runtimePackage ++ "\nexport const stores = " ++
    (storeList stores).render ++ ";\n"

/-! ## The type declarations -/

/-- The exported instance of a store and the name that it is bound to. -/
structure Binding where
  exportName : String
  name : String
  /-- The way to the file of the store. -/
  path : String
deriving DecidableEq, Repr

namespace Binding

/-- The binding of a store that has one. -/
def ofStore? (s : Store.Metadata) : Option Binding := do
  return ⟨← s.exportName, ← s.binding, s.fromGenerated⟩

/-- The line that imports the instance. -/
def importLine (b : Binding) : String :=
  "    " ++ relativeImport [b.exportName] b.path ++ "\n"

/-- The line that declares the name. -/
def propertyLine (b : Binding) : String :=
  "        " ++ b.name ++ ": typeof " ++ b.exportName ++ ";\n"

end Binding

/-- The bindings of all valid stores. -/
def bindings (stores : List Store.Metadata) : List Binding :=
  (stores.filter Store.Metadata.isValid).filterMap Binding.ofStore?

/-- The type declarations for stores, in the given order. -/
def declarations (stores : List Store.Metadata) : String :=
  let bs := bindings stores
  "declare module \"@vue/runtime-core\" \x7b\n" ++
    String.join (bs.map Binding.importLine) ++
    "    interface ComponentCustomProperties \x7b\n" ++
    String.join (bs.map Binding.propertyLine) ++
    "    \x7d\n\x7d\nexport \x7b\x7d;\n"

end StoreBindings.Generate
