import StoreBindings.Config.Options
import StoreBindings.Path.Relative
import StoreBindings.Store.Metadata

/-!
# The layout of a project

Where everything is in a project: its root, the directory of its stores, the directory of the
generated files inside it, and those two files.
-/

namespace StoreBindings.Config

/-- The layout of a project. -/
structure Project where
  root : Path
  storesDirectory : Path
  generatedDirectory : Path
  loader : Path
  declarations : Path
  filePatterns : List String
  runtimePackage : String
deriving DecidableEq, Repr

namespace Options

/-- The layout that options give to a project at a given place. -/
def resolve (o : Options) (root : Path) : Project :=
  let projectRoot := ((o.projectRoot.map root.join).getD root).normalize
  let stores := (projectRoot.join (o.storesPath.getD defaultStoresPath)).normalize
  let generated := stores.joinText o.generatedName
  { root := projectRoot
    storesDirectory := stores
    generatedDirectory := generated
    loader := generated.joinText o.loaderName
    declarations := generated.joinText o.declarationsName
    filePatterns := o.filePatterns
    runtimePackage := o.runtimePackage }

end Options

namespace Project

/-- Whether a path is that of a generated file. -/
def isGenerated (p : Project) (path : Path) : Bool :=
  path.normalize.startsWith p.generatedDirectory

/-- Whether a path lies in the directory of the stores. -/
def isInStores (p : Project) (path : Path) : Bool := path.normalize.startsWith p.storesDirectory

/-- The directories that paths in generated code are relative to. -/
def directories (p : Project) : Store.Directories := ⟨p.storesDirectory, p.generatedDirectory⟩

end Project

end StoreBindings.Config
