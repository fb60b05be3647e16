import StoreBindings.DecoratorIndex
import StoreBindings.OrderedMap
import StoreBindings.Syntax.Outline
import StoreBindings.Text.Basic

/-!
# Signatures

What is recorded of a method from its head: its parameters with their types and defaults, and its
decorators with their arguments.

A parameter has the type that is written for it. Without one, the type of a literal default is
taken, and without that `any`. The arguments of a decorator are known by the names of the
parameters of the function behind it; an argument for which no parameter is known goes by the
number of its place.
-/

namespace StoreBindings.Store

/-- A parameter of a method. -/
structure Parameter where
  name : String
  type : String
  /-- The default, as it is written. -/
  fallback : Option String
deriving DecidableEq, Repr

/-- A decorator with its arguments by name. -/
structure Decoration where
  name : String
  arguments : OrderedMap String String
deriving DecidableEq, Repr

/-- The name and the parameters of a method. -/
structure Signature where
  name : String
  parameters : List Parameter
deriving DecidableEq, Repr

/-- The type of a default, if it can be seen from its form. -/
def literalType? (t : Syntax.Tree) : Option String :=
  match t.kind with
  | .number => some (if t.chars.getLast? = some 'n' then "bigint" else "number")
  | .string | .template => some "string"
  | .trueLiteral | .falseLiteral => some "boolean"
  | _ => if Text.isNumeral t.chars then some "number" else none

namespace Parameter

/-- The type of a parameter. -/
def typeOf (p : Syntax.Parameter) : String :=
  (p.type.or (p.fallback.bind literalType?)).getD (if p.isRest then "any[]" else "any")

/-- The parameter at a given place. -/
def ofSyntax (place : Nat) (p : Syntax.Parameter) : Parameter :=
  ⟨p.nameAt place, typeOf p, p.fallback.map Syntax.Tree.text⟩

end Parameter

namespace Signature

/-- The signature of a member, if it has a name that is an identifier. -/
def ofMember? (m : Syntax.Member) : Option Signature :=
  m.identifier?.map fun name => ⟨name, m.parameters.mapIdx Parameter.ofSyntax⟩

end Signature

namespace Decoration

/-- The name of the argument at a given place. -/
def keyAt (declared : List String) (place : Nat) : String :=
  (declared[place]?).getD (toString place)

/-- Arguments by name. -/
def argumentsOf (declared arguments : List String) : OrderedMap String String :=
  OrderedMap.ofList (arguments.mapIdx fun place a => (keyAt declared place, a))

/-- What is recorded of a decorator that is used in a file; without a name it is passed over. -/
def ofSyntax? (ix : DecoratorIndex) (file : Path) (d : Syntax.Decorator) : Option Decoration :=
  d.name.map fun name =>
    let declared := (ix.lookup (Syntax.Decorator.shortName name) file).getD []
    ⟨name, argumentsOf declared (d.arguments.getD [])⟩

/-- The decorators of a member that is declared in a file. -/
def ofMember (ix : DecoratorIndex) (file : Path) (m : Syntax.Member) : List Decoration :=
  m.decorators.filterMap (ofSyntax? ix file)

end Decoration

end StoreBindings.Store
