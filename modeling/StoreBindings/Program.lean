import StoreBindings.Config.FileList
import StoreBindings.DecoratorIndex
import StoreBindings.Store.Extraction

/-!
# The program

All sources of a project, parsed, with the decorators that they declare.
-/

namespace StoreBindings

/-- The sources of a project. -/
structure Program where
  modules : List Syntax.Module

namespace Program

/-- The program without sources. -/
def empty : Program := ⟨[]⟩

/-- The decorators that the sources declare. -/
def decorators (p : Program) : DecoratorIndex := DecoratorIndex.ofModules p.modules

/-- Read sources; those that cannot be read as text are left out. -/
def read (t : Files.Tree) (paths : List Path) : Program :=
  ⟨paths.filterMap fun path =>
    match t.readText path with
    | .ok text => some (.read path text.toList)
    | .error _ => none⟩

/-- Read all sources of a project. -/
def load (t : Files.Tree) (project : Config.Project) (c : Config.Compiler) :
    Except Failure Program := do
  return read t (← project.sources t c)

/-- The source at a path. -/
def module? (p : Program) (path : Path) : Option Syntax.Module :=
  p.modules.find? fun m => m.path.same path.normalize

/-- What the store classes of each source give. -/
def extractions (p : Program) (dirs : Store.Directories) : List Store.Extraction :=
  let ix := p.decorators
  p.modules.map (Store.Extraction.ofModule ix dirs)

/-- The valid stores of a program, settled. -/
def stores (found : List Store.Extraction) : List Store.Metadata :=
  ((found.flatMap (·.stores)).filter Store.Metadata.isValid).map Store.Metadata.settle

/-- The messages about a program. -/
def diagnostics (found : List Store.Extraction) : Report.Diagnostics :=
  found.flatMap (·.diagnostics)

end Program

end StoreBindings
