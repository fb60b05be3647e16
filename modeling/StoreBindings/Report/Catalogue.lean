import StoreBindings.Naming
import StoreBindings.Report.Message
import StoreBindings.Store.Action

/-!
# The problems that a store class can have

One constructor for each cause, with what its wording needs; `parts` has all of the wording.
-/

namespace StoreBindings.Report

/-- What can be wrong with a store class. -/
inductive Problem
  /-- The state getter is protected. -/
  | stateIsProtected
  | stateIsStatic
  /-- The body of the state getter is something else than the return of an object. -/
  | stateBody
  | stateIsNoGetter
  | stateMissing (className : String)
  | stateRepeated (className : String)
  | exportMissing (className : String)
  /-- A method asks for a second event. -/
  | secondEvent (method className : String) (held : Store.Lifecycle)
  /-- A method asks for an event that another method has. -/
  | eventTaken (method : String) (event : Store.Lifecycle) (handler : String)
  | setterName (text className : String)
deriving DecidableEq, Repr

namespace Problem

/-- The state getter as it should be written. -/
def stateExample : Part :=
  .sample (.alone "get state(): IMyStoreType \x7b\n\treturn \x7b ... \x7d\n\x7d")

/-- The wording of a problem. -/
def parts : Problem → List Part
  | stateIsProtected =>
    [.text "The 'state' property must be public or private.", stateExample]
  | stateIsStatic => [.text "The 'state' property must not be static.", stateExample]
  | stateBody =>
    [.text "The 'state' getter must have a body with a single return object statement.",
      stateExample]
  | stateIsNoGetter => [.text "The 'state' property must be a JS/TS getter.", stateExample]
  | stateMissing className =>
    [.text s!"Could not find state getter object for store: {className}",
      .text "Ensure you have a state object for your store",
      .sample (.alone "get state() : IMyStateType \x7b\n\treturn \x7b ... \x7d;\n\x7d")]
  | stateRepeated className =>
    [.text s!"Store {className} defines more than one 'state' getter; only the first one is used."]
  | exportMissing className =>
    [.text s!"Could not find export for your store: {className}",
      .text "You need to define an export for your store class so it can be used",
      .sample (Example.placed
        ⟨s!"export const {Naming.exportName className} = new {className}();",
          "For example, add this to the end of your module:", false, none⟩ .before)]
  | secondEvent method className held =>
    [.text s!"Method '{method}' on store {className} is already the {held.name} handler.",
      .text "A method can only handle one lifecycle event."]
  | eventTaken method event handler =>
    [.text (s!"Cannot register '{method}' as the {event.name} handler, " ++
        s!"'{handler}' already handles this event."),
      .text "Each lifecycle event can only have one handler per store."]
  | setterName text className =>
    [.text s!"Could not resolve the accessor name for setter '{text}' in {className}.",
      .text "Setters need a plain identifier name so they can be paired with their getter."]

/-- How grave a problem is. -/
def severity : Problem → Severity
  | stateRepeated _ => .warning
  | _ => .error

end Problem

end StoreBindings.Report
