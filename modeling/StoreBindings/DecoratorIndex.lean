import StoreBindings.Path.Basic
import StoreBindings.Syntax.Dialect
import StoreBindings.Syntax.Outline

/-!
# Where decorators are declared

A decorator is a function, and its arguments are known by the names of the parameters of that
function. The index lists the functions of all modules in the order in which they were met. A name
is looked up by a module: its own declaration comes first, else the earliest one counts.
-/

namespace StoreBindings

/-- A function that can be used as a decorator. -/
structure DeclaredDecorator where
  name : String
  /-- The module that declares it. -/
  file : Path
  parameters : List String
deriving DecidableEq, Repr

/-- The functions that can be used as decorators, in the order in which they were declared. -/
structure DecoratorIndex where
  declared : List DeclaredDecorator
deriving DecidableEq, Repr, Inhabited

namespace DecoratorIndex

/-- The index that knows no decorator. -/
def empty : DecoratorIndex := ⟨[]⟩

/-- The index with one more declaration. -/
def add (ix : DecoratorIndex) (name : String) (file : Path) (parameters : List String) :
    DecoratorIndex :=
  ⟨ix.declared ++ [⟨name, file, parameters⟩]⟩

/-- The functions that a module declares. -/
def ofModule (m : Syntax.Module) : List DeclaredDecorator :=
  ((Syntax.TopLevel.ofRoot m.root).flatMap Syntax.TopLevel.functions).map fun (name, parameters) =>
    ⟨name, m.path, parameters⟩

/-- The index with the functions of one more module. -/
def collect (ix : DecoratorIndex) (m : Syntax.Module) : DecoratorIndex :=
  ⟨ix.declared ++ ofModule m⟩

/-- The functions of several modules. -/
def ofModules (ms : List Syntax.Module) : DecoratorIndex := ms.foldl collect empty

/-- The parameters of a decorator that is used in a module. -/
def lookup (ix : DecoratorIndex) (name : String) (file : Path) : Option (List String) :=
  let named := ix.declared.filter fun d => d.name == name
  ((named.find? fun d => d.file.same file).or named.head?).map DeclaredDecorator.parameters

/-- How many different names are known. -/
def size (ix : DecoratorIndex) : Nat := (ix.declared.map DeclaredDecorator.name).eraseDups.length

def isEmpty (ix : DecoratorIndex) : Bool := ix.declared.isEmpty

/-- The functions of several modules stand in the order of the modules. -/
theorem declared_ofModules (ms : List Syntax.Module) :
    (ofModules ms).declared = ms.flatMap ofModule := by
  suffices h : ∀ ix : DecoratorIndex,
      (ms.foldl collect ix).declared = ix.declared ++ ms.flatMap ofModule by
    simpa [ofModules, empty] using h empty
  induction ms with
  | nil => simp
  | cons m ms ih => intro ix; simp [ih, collect]

end DecoratorIndex

end StoreBindings
