import StoreBindings.Report.Catalogue
import StoreBindings.Store.Metadata

/-!
# Reading a store class

The members of a class body are taken one after the other, in the order in which they are written,
and each adds to what is known of the store. What is wrong with a member is not reported here but
returned as findings: a problem, and the place that it belongs to.

* `bindingOf?` — a static field that names the binding.
* `StateMatch.of` — whether a member is the state getter, or should have been.
* `claim` — the events that the decorators of a method ask for, first come, first served.
-/

namespace StoreBindings.Store

open Report (Problem)
open Syntax (Member Span)

/-- The place that a finding belongs to: a member of the class, or a method as an action. -/
inductive Place
  | member (span : Span)
  | action (name : String) (span : Span)
deriving DecidableEq, Repr

/-- The stretch of source that a place covers. -/
def Place.span : Place → Span
  | member s | action _ s => s

/-- Something that is wrong with a member. -/
structure Finding where
  problem : Problem
  place : Place
deriving DecidableEq, Repr

/-! ## The binding -/

/-- The binding that a static field names, unless the field is hidden from the outside. -/
def bindingOf? (m : Member) : Option String :=
  if m.kind = .field ∧ m.isStatic ∧ m.access ≠ some .onlyClass ∧ m.access ≠ some .heirs ∧
      m.identifier? = some "vueBinding" then m.literal
  else none

/-! ## The state getter -/

/-- What a member is with regard to the state of the store. -/
inductive StateMatch
  | unrelated
  | rejected (problem : Problem)
  | accepted (keys : List String)
deriving DecidableEq, Repr

/-- Whether a member is the state getter. -/
def StateMatch.of (m : Member) : StateMatch :=
  if m.identifier? ≠ some "state" then .unrelated
  else
    match m.kind, m.accessor with
    | .field, _ => .rejected .stateIsNoGetter
    | .method, some .setter => .unrelated
    | .method, none => .rejected .stateIsNoGetter
    | .method, some .getter =>
      if m.access = some .heirs then .rejected .stateIsProtected
      else if m.isStatic then .rejected .stateIsStatic
      else
        match m.returned with
        | some keys => .accepted keys
        | none => .rejected .stateBody

/-! ## Methods -/

/-- The name of a method that can become an action: no accessor, and not the constructor. -/
def actionName? (m : Member) : Option String :=
  match m.kind, m.accessor, m.name with
  | .method, none, .plain name => if name = "constructor" then none else some name
  | _, _, _ => none

/-- The event that a decorator asks for. -/
def Decoration.event? (d : Decoration) : Option Lifecycle :=
  Lifecycle.ofName? (Syntax.Decorator.shortName d.name)

/-- Claim an event for a method. The method keeps the first event that it gets, and an event the
first method that gets it. -/
def claim (className : String) (s : Metadata × Action) (event : Lifecycle) :
    (Metadata × Action) × List Finding :=
  let (m, a) := s
  let place := Place.action a.name a.span
  match a.bindTo event with
  | .error bound => (s, [⟨.secondEvent a.name className bound.held, place⟩])
  | .ok a' =>
    match m.addHandler a.name event with
    | .error taken => (s, [⟨.eventTaken a.name event taken.handler, place⟩])
    | .ok m' => ((m', a'), [])

/-- Claim several events one after the other. -/
def claimAll (className : String) (s : Metadata × Action) :
    List Lifecycle → (Metadata × Action) × List Finding
  | [] => (s, [])
  | e :: es =>
    let (s, found) := claim className s e
    let (s, more) := claimAll className s es
    (s, found ++ more)

/-- Add a method. It becomes an action unless it has got an event. -/
def addMethod (ix : DecoratorIndex) (className : String) (m : Metadata) (name : String)
    (method : Member) : Metadata × List Finding :=
  let decorations := Decoration.ofMember ix m.file method
  let parameters := method.parameters.mapIdx Parameter.ofSyntax
  let action := Action.make name parameters decorations method.span
  let ((m, action), found) := claimAll className (m, action) (decorations.filterMap (·.event?))
  (if action.isCallable then { m with actions := m.actions.insert name action } else m, found)

/-! ## Accessors -/

/-- The decorator of computed properties. -/
def computedDecorator : String := "Computed"

/-- Add a getter; that of the state is none of the store's properties. -/
def addGetter (m : Metadata) (getter : Member) : Metadata :=
  match getter.identifier? with
  | some name =>
    if name = "state" then m
    else { m with
      getters := m.getters.insert name ⟨name, getter.hasDecorator computedDecorator⟩ }
  | none => m

/-- Whether the getter of a given name is that of a computed property. -/
def isComputed (members : List Member) (name : String) : Bool :=
  match members.find? fun g => g.accessor == some .getter && g.identifier? == some name with
  | some getter => getter.hasDecorator computedDecorator
  | none => false

/-- Add a setter. It belongs to a computed property if its getter does. -/
def addSetter (className : String) (members : List Member) (m : Metadata) (setter : Member) :
    Metadata × List Finding :=
  match setter.name with
  | .plain name =>
    ({ m with setters := m.setters.insert name ⟨name, isComputed members name⟩ }, [])
  | other =>
    (if other.text.isEmpty then m
      else { m with setters := m.setters.insert other.text ⟨other.text, false⟩ },
      [⟨.setterName other.text className, .member setter.span⟩])

/-! ## Whole classes -/

/-- Add the state getter. -/
def addState (className : String) (m : Metadata) (span : Span) (keys : List String) :
    Metadata × List Finding :=
  if m.stateGetter.isSome then (m, [⟨.stateRepeated className, .member span⟩])
  else ({ m with stateKeys := keys, stateGetter := some span }, [])

/-- Add a member, given all members of the class. -/
def addMember (ix : DecoratorIndex) (className : String) (members : List Member) (m : Metadata)
    (member : Member) : Metadata × List Finding :=
  match bindingOf? member with
  | some binding => ({ m with binding := some binding }, [])
  | none =>
    match actionName? member with
    | some name => addMethod ix className m name member
    | none =>
      match StateMatch.of member with
      | .accepted keys => addState className m member.span keys
      | .rejected problem => ({ m with stateRejected := true }, [⟨problem, .member member.span⟩])
      | .unrelated =>
        match member.accessor with
        | some .getter => (addGetter m member, [])
        | some .setter => addSetter className members m member
        | none => (m, [])

/-- Add members one after the other, given all members of the class. -/
def addMembers (ix : DecoratorIndex) (className : String) (members : List Member) (m : Metadata) :
    List Member → Metadata × List Finding
  | [] => (m, [])
  | member :: rest =>
    let (m, found) := addMember ix className members m member
    let (m, more) := addMembers ix className members m rest
    (m, found ++ more)

/-- Add a whole class. -/
def Metadata.addClass (ix : DecoratorIndex) (m : Metadata) (c : Syntax.ClassDeclaration) :
    Metadata × List Finding :=
  addMembers ix c.name c.members (m.beginClass c.name c.span) c.members

end StoreBindings.Store
