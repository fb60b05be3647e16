import StoreBindings.Generate.Value
import StoreBindings.Store.Signature

/-!
# Lifecycle events and actions

There are four moments in the life of a store at which a method of it can be run.

A method of a store is an action that components can call, unless it is bound to a lifecycle
event. It can be bound once; the first event stays.
-/

namespace StoreBindings.Store

/-! ## Lifecycle events -/

/-- A moment that a method can be bound to. -/
inductive Lifecycle
  | beforeAll | onInit | onDispose | afterAll
deriving DecidableEq, Repr, Inhabited

namespace Lifecycle

def all : List Lifecycle := [.beforeAll, .onInit, .onDispose, .afterAll]

/-- The name of an event, as decorators and generated code spell it. -/
def name : Lifecycle → String
  | .beforeAll => "BeforeAll"
  | .onInit => "OnInit"
  | .onDispose => "OnDispose"
  | .afterAll => "AfterAll"

/-- The event that a decorator names, in letters of either case. -/
def ofName? (s : String) : Option Lifecycle := all.find? fun e => Text.sameLetters e.name s

/-- Every event is found by its name. -/
theorem ofName?_name (e : Lifecycle) : ofName? e.name = some e := by cases e <;> decide +kernel

end Lifecycle

/-! ## Actions -/

open Generate (Value)

/-- A method of a store. -/
structure Action where
  name : String
  parameters : List Parameter
  /-- The decorators by their full names. -/
  decorators : OrderedMap String Decoration
  span : Syntax.Span
  /-- The event that the method is bound to. -/
  event : Option Lifecycle
deriving DecidableEq, Repr

/-- A method that is bound already is bound to this event. -/
structure AlreadyBound where
  held : Lifecycle
deriving DecidableEq, Repr

namespace Action

/-- A method that is not bound to any event. -/
def make (name : String) (parameters : List Parameter) (decorators : List Decoration)
    (span : Syntax.Span) : Action :=
  ⟨name, parameters, OrderedMap.ofList (decorators.map fun d => (d.name, d)), span, none⟩

/-- Bind a method to an event. -/
def bindTo (a : Action) (event : Lifecycle) : Except AlreadyBound Action :=
  match a.event with
  | some held => .error ⟨held⟩
  | none => .ok { a with event := some event }

/-- Whether a method is there to be called, and not bound to an event. -/
def isCallable (a : Action) : Bool := a.event.isNone

end Action

namespace Parameter

/-- A parameter in generated code. -/
def toValue (p : Parameter) : Value :=
  .record [("n", .text p.name), ("t", .text p.type), ("dv", .optional p.fallback)]

end Parameter

namespace Decoration

/-- A decorator in generated code. -/
def toValue (d : Decoration) : Value :=
  .record [
    ("n", .text d.name),
    ("p", .record (d.arguments.entries.map fun (k, v) => (k, .text v)))]

end Decoration

/-- An action in generated code. -/
def Action.toValue (a : Action) : Value :=
  .record [
    ("n", .text a.name),
    ("p", .array (a.parameters.map Parameter.toValue)),
    ("d", .record (a.decorators.entries.map fun (k, d) => (k, d.toValue))),
    ("h", .optional (a.event.map Lifecycle.name))]

end StoreBindings.Store
