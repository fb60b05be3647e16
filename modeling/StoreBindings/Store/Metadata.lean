import StoreBindings.Naming
import StoreBindings.Path.Relative
import StoreBindings.Store.Action

/-!
# What is known of a store

The record that a store class is turned into, and the small steps by which it is filled: the class
is begun, handlers are claimed, the export is resolved, and in the end the binding is settled.

* `addHandler` is refused, and so changes nothing, if the event has its handler already.
* `settle` can be repeated without effect.
-/

namespace StoreBindings.Store

open Generate (Value)

/-- A getter or a setter, and whether it belongs to a computed property. -/
structure Property where
  name : String
  computed : Bool
deriving DecidableEq, Repr

/-- The directories that the paths in generated code are relative to. -/
structure Directories where
  stores : Path
  generated : Path
deriving DecidableEq, Repr

/-- An event that is claimed is handled by this method already. -/
structure AlreadyHandled where
  handler : String
deriving DecidableEq, Repr

/-- What is known of a store. -/
structure Metadata where
  /-- The file that declares the store. -/
  file : Path
  /-- The way to the file from the directory of all stores. -/
  fromStores : String
  /-- The way to the file from the directory of generated code. -/
  fromGenerated : String
  className : Option String
  exportName : Option String
  /-- The name under which components reach the store. -/
  binding : Option String
  stateKeys : List String
  getters : OrderedMap String Property
  setters : OrderedMap String Property
  actions : OrderedMap String Action
  /-- The methods that are bound to an event. -/
  handlers : OrderedMap String Lifecycle
  /-- The place of the state getter. -/
  stateGetter : Option Syntax.Span
  /-- Whether a member was named as the state getter without being fit for it. -/
  stateRejected : Bool
  classSpan : Option Syntax.Span
  settled : Bool
deriving DecidableEq, Repr

namespace Metadata

/-- What is known of a store before its class is looked at. -/
def ofFile (dirs : Directories) (file : Path) : Metadata where
  file := file
  fromStores := String.ofList (Path.relativePath dirs.stores file)
  fromGenerated := String.ofList (Path.relativePath dirs.generated file)
  className := none
  exportName := none
  binding := none
  stateKeys := []
  getters := ∅
  setters := ∅
  actions := ∅
  handlers := ∅
  stateGetter := none
  stateRejected := false
  classSpan := none
  settled := false

/-- Begin a class. -/
def beginClass (m : Metadata) (name : String) (span : Syntax.Span) : Metadata :=
  { m with className := some name, classSpan := some span }

/-- Only a store with a class, an export and a state getter is generated code for. -/
def isValid (m : Metadata) : Bool :=
  m.className.isSome && m.exportName.isSome && m.stateGetter.isSome

/-- A binding with its sign. -/
def signed (binding : String) : String :=
  if binding.toList.head? = some '$' then binding else "$" ++ binding

/-- Settle the binding: one that the class chose gets its sign, else it follows from the name of
the class. -/
def settle (m : Metadata) : Metadata :=
  { m with
    binding := (m.binding.map signed).or (m.className.map Naming.binding)
    settled := true }

/-- The method that handles an event. -/
def handlerOf? (m : Metadata) (event : Lifecycle) : Option String :=
  (m.handlers.entries.find? fun e => e.2 == event).map Prod.fst

/-- Claim an event for a method, if it is free. -/
def addHandler (m : Metadata) (method : String) (event : Lifecycle) :
    Except AlreadyHandled Metadata :=
  match m.handlerOf? event with
  | some handler => .error ⟨handler⟩
  | none => .ok { m with handlers := m.handlers.insert method event }

/-- Find the exported constant that holds an instance of the class. -/
def resolveExport (m : Metadata) (instances : List Syntax.Instance) : Metadata :=
  match m.className with
  | none => m
  | some name =>
    { m with
      exportName := (instances.find? fun i => i.className == some name).map Syntax.Instance.name }

/-! ## Generated code -/

/-- Getters or setters in generated code. -/
def accessorsValue (kind : String) (ps : OrderedMap String Property) : Value :=
  .record (ps.entries.map fun (name, p) =>
    (name, .construct "StoreMetaGetterSetterData"
      [.text kind, .record [("n", .text p.name), ("c", .bool p.computed)]]))

/-- A store in generated code. -/
def toValue (m : Metadata) : Value :=
  .record [
    ("store", .record [
      ("className", .optional m.className),
      ("exportName", .optional m.exportName),
      ("vueBinding", .optional m.binding),
      ("module", .lazyImport m.fromGenerated)]),
    ("actions", .record (m.actions.entries.map fun (name, a) =>
      (name, .construct "StoreMetaActionData" [a.toValue]))),
    ("lifeCycleHandlers", .record (m.handlers.entries.map fun (method, event) =>
      (method, .text event.name))),
    ("stateKeys", .array (m.stateKeys.map .text)),
    ("getters", accessorsValue "getter" m.getters),
    ("setters", accessorsValue "setter" m.setters)]

/-! ## Laws -/

/-- A settled binding stays as it is. -/
theorem signed_signed (b : String) : signed (signed b) = signed b := by
  unfold signed
  split
  all_goals simp_all

@[simp] theorem settle_settle (m : Metadata) : m.settle.settle = m.settle := by
  cases hb : m.binding with
  | some b => simp [settle, hb, signed_signed]
  | none =>
    cases hc : m.className with
    | none => simp [settle, hb, hc]
    | some c =>
      have hs : signed (Naming.binding c) = Naming.binding c := by
        simp [signed, Naming.binding_head]
      simp [settle, hb, hc, hs]

/-- A claim is refused exactly if the event has its handler, and the refusal names it. -/
theorem addHandler_eq_error_iff (m : Metadata) (method : String) (event : Lifecycle)
    (e : AlreadyHandled) :
    m.addHandler method event = .error e ↔ m.handlerOf? event = some e.handler := by
  cases e
  unfold addHandler
  split <;> simp_all

end Metadata

end StoreBindings.Store
