import StoreBindings.Proofs.Store.Findings
import StoreBindings.Proofs.Store.Members
import StoreBindings.Proofs.Syntax.Interface

/-!
# A store is made of interfaces

The store of a class is determined by the interface of the class, but for the places that it holds:
`storeOf_interface`. Forgetting all places goes along with everything that is done to a store, member
by member (`addMember_interface`), so it can be done first, in the members, or last, in the store.
None of it is seen in generated code: `toValue_unplaced`.
-/

namespace StoreBindings

/-! ## Maps whose values are changed -/

namespace OrderedMap

variable {κ α β : Type} [DecidableEq κ]

/-- A map with each value changed in the same way. -/
def mapValues (f : α → β) (m : OrderedMap κ α) : OrderedMap κ β :=
  ⟨m.entries.map fun e => (e.1, f e.2), by simpa [Function.comp_def] using m.distinct⟩

/-- Putting a value and changing all values can be done in either order. -/
lemma put_map (f : α → β) (k : κ) (v : α) (es : List (κ × α)) :
    put k (f v) (es.map fun e => (e.1, f e.2)) = (put k v es).map fun e => (e.1, f e.2) := by
  induction es with
  | nil => rfl
  | cons e es ih =>
    rw [List.map_cons, put, put]
    split
    · rfl
    · rw [ih, List.map_cons]

/-- So can inserting one into a map. -/
lemma mapValues_insert (f : α → β) (m : OrderedMap κ α) (k : κ) (v : α) :
    (m.insert k v).mapValues f = (m.mapValues f).insert k (f v) := by
  simp only [mapValues, insert, put_map]

end OrderedMap

namespace Store

open Syntax (ClassDeclaration Member)

/-! ## Places in stores -/

/-- An action without its place. -/
def Action.unplaced (a : Action) : Action := { a with span := default }

namespace Metadata

/-- A store that has the same places as any other. -/
def unplaced (m : Metadata) : Metadata :=
  { m with
    actions := m.actions.mapValues Action.unplaced
    stateGetter := m.stateGetter.map fun _ => default
    classSpan := m.classSpan.map fun _ => default }

/-- No place is shown in generated code. -/
@[simp] theorem toValue_unplaced (m : Metadata) : m.unplaced.toValue = m.toValue := by
  have hactions : m.unplaced.actions.entries =
      m.actions.entries.map fun e => (e.1, e.2.unplaced) := rfl
  -- the value of an action does not hold the place of the action
  have hvalue (a : Action) : a.unplaced.toValue = a.toValue := rfl
  unfold toValue
  simp only [hactions, List.map_map, Function.comp_def, hvalue]
  rfl

/-- A store is valid or not wherever it stands. -/
@[simp] lemma isValid_unplaced (m : Metadata) : m.unplaced.isValid = m.isValid := by
  simp [isValid, unplaced]

/-- The binding of a store is settled by names. -/
lemma settle_unplaced (m : Metadata) : m.unplaced.settle = m.settle.unplaced := rfl

/-- Whether an event is free is no matter of places. -/
lemma firstFree?_unplaced (m : Metadata) (events : List Lifecycle) :
    m.unplaced.firstFree? events = m.firstFree? events := rfl

/-- An event is given to a method by its name. -/
lemma offer_unplaced (m : Metadata) (c : Claim) : m.unplaced.offer c = (m.offer c).unplaced := by
  rw [offer_eq, offer_eq]
  show (if m.handlerOf? c.2 = none then _ else _) = _
  split <;> rfl

end Metadata

/-! ## What a member adds -/

section

variable (ix : DecoratorIndex) (className : String) (m : Metadata)

variable (member : Member)

/-- The binding of a store is in the interface of its member. -/
lemma bindingOf?_interface : bindingOf? member.interface = bindingOf? member := by
  simp only [bindingOf?, Member.kind_interface, Member.isStatic_interface, Member.access_interface,
    Member.identifier?_interface]
  split
  -- this is the one field whose value is kept
  · next h => exact if_pos h.2.2.2.2
  · rfl

/-- So is the name of an action. -/
lemma actionName?_interface : actionName? member.interface = actionName? member := by
  unfold actionName?
  rw [Member.kind_interface, Member.accessor_interface]
  match member.kind, haccessor : member.accessor, hname : member.name with
  | .field, _, _ => rfl
  | .method, some accessor, _ => rfl
  | .method, none, name =>
    have hinterface : member.interface.name = name.outward := by
      rw [← hname]
      exact if_neg (by simp [haccessor])
    rw [hinterface]
    cases name <;> rfl

/-- So is whether a member is the getter of the state. -/
lemma stateMatch_interface : StateMatch.of member.interface = StateMatch.of member := by
  unfold StateMatch.of
  simp only [Member.kind_interface, Member.isStatic_interface, Member.access_interface,
    Member.accessor_interface, Member.identifier?_interface]
  by_cases hid : member.identifier? = some "state"
  · rw [if_neg (not_not_intro hid), if_neg (not_not_intro hid)]
    match member.kind, haccessor : member.accessor with
    | .field, _ | .method, none | .method, some .setter => rfl
    | .method, some .getter =>
      have hreturned : member.interface.returned = member.returned := if_pos ⟨hid, haccessor⟩
      rw [hreturned]
      rfl
  · rw [if_pos hid, if_pos hid]

/-- The state is added by its keys. -/
lemma addState_unplaced (span : Syntax.Span) (keys : List String) :
    (addState className m.unplaced default keys).1 = (addState className m span keys).1.unplaced := by
  have hgetter : m.unplaced.stateGetter.isSome = m.stateGetter.isSome := by
    simp [Metadata.unplaced]
  unfold addState
  rw [hgetter]
  split <;> rfl

/-- A getter is added by its interface. -/
lemma addGetter_interface : addGetter m.unplaced member.interface = (addGetter m member).unplaced := by
  unfold addGetter
  rw [Member.identifier?_interface]
  split
  · split <;> rfl
  · rfl

/-- Whether a getter is computed is told by its decorators. -/
lemma isComputed_interface (all : List Member) (name : String) :
    isComputed (all.map Member.interface) name = isComputed all name := by
  have hfind : (all.map Member.interface).find? (fun g =>
      g.accessor == some .getter && g.identifier? == some name) =
      (all.find? fun g => g.accessor == some .getter && g.identifier? == some name).map
        Member.interface := by
    rw [List.find?_map]
    congr 2
    funext g
    simp
  unfold isComputed
  rw [hfind]
  cases all.find? fun g => g.accessor == some .getter && g.identifier? == some name <;> rfl

/-- A setter is added by its interface, among the interfaces of all members. -/
lemma addSetter_interface (all : List Member) (h : member.accessor = some .setter) :
    (addSetter className (all.map Member.interface) m.unplaced member.interface).1 =
      (addSetter className all m member).1.unplaced := by
  have hname : member.interface.name = member.name := if_pos h
  unfold addSetter
  rw [hname]
  split
  · rw [isComputed_interface]
    rfl
  · split <;> rfl

/-- A method asks for the same events and becomes the same action, wherever it stands. -/
lemma ofMember?_interface (file : Path) : Claimant.ofMember? ix file member.interface =
    (Claimant.ofMember? ix file member).map fun x => ⟨x.action.unplaced, x.events⟩ := by
  unfold Claimant.ofMember?
  rw [actionName?_interface, Option.map_map]
  rfl

/-- A method is added by its interface. -/
lemma addMethod_interface (all : List Member) {x : Claimant}
    (h : Claimant.ofMember? ix m.file member = some x) :
    (addMember ix className (all.map Member.interface) m.unplaced member.interface).1 =
      (addMember ix className all m member).1.unplaced := by
  have hinterface : Claimant.ofMember? ix m.unplaced.file member.interface =
      some ⟨x.action.unplaced, x.events⟩ := by
    rw [ofMember?_interface]
    exact congrArg (Option.map _) h
  rw [(addMember_method className _ hinterface).1, (addMember_method className _ h).1]
  rw [Metadata.firstFree?_unplaced]
  cases m.firstFree? x.events with
  | some event => exact m.offer_unplaced _
  | none =>
    dsimp only
    unfold Metadata.unplaced
    rw [OrderedMap.mapValues_insert]
    rfl

/-- What the interface of a member adds to a store without places is what the member adds to the
store. -/
theorem addMember_interface (all : List Member) :
    (addMember ix className (all.map Member.interface) m.unplaced member.interface).1 =
      (addMember ix className all m member).1.unplaced := by
  cases hname : actionName? member with
  | some name =>
    -- a method counts by the events that it asks for and the action that it can become
    have hclaimant : Claimant.ofMember? ix m.file member = some _ := congrArg (Option.map _) hname
    exact addMethod_interface ix className m member all hclaimant
  | none =>
    unfold addMember
    rw [bindingOf?_interface, actionName?_interface, stateMatch_interface, hname,
      Member.accessor_interface]
    cases bindingOf? member with
    | some binding => rfl
    | none =>
      cases StateMatch.of member with
      | accepted keys => exact addState_unplaced className m member.span keys
      | rejected problem => rfl
      | unrelated =>
        match haccessor : member.accessor with
        | none => rfl
        | some .getter => exact addGetter_interface m member
        | some .setter => exact addSetter_interface className m member all haccessor

/-- So are all members. -/
lemma addMembers_interface (all members : List Member) :
    (addMembers ix className (all.map Member.interface) m.unplaced
        (members.map Member.interface)).1 =
      (addMembers ix className all m members).1.unplaced := by
  induction members generalizing m with
  | nil => rfl
  | cons member rest ih =>
    rw [List.map_cons, addMembers, addMembers]
    dsimp only
    rw [addMember_interface, ih]

end

/-! ## Whole classes and modules -/

namespace Extraction

open Syntax (TopLevel)

variable (ix : DecoratorIndex) (dirs : Directories) (file : Path) (is : List Syntax.Instance)

/-- The store of the interface of a class is the store of the class without its places. -/
theorem storeOf_interface (c : ClassDeclaration) :
    storeOf ix dirs file is c.interface = (storeOf ix dirs file is c).unplaced := by
  have hclass : ((Metadata.ofFile dirs file).addClass ix c.interface).1 =
      ((Metadata.ofFile dirs file).addClass ix c).1.unplaced := by
    unfold Metadata.addClass
    rw [c.members_interface]
    exact addMembers_interface ix c.name ((Metadata.ofFile dirs file).beginClass c.name c.span) _ _
  rw [storeOf_eq, storeOf_eq, hclass]
  rfl

/-- The classes that are stores are told by what they extend. -/
lemma storeClasses_interface (ds : List TopLevel) :
    storeClasses (ds.map TopLevel.interface) = (storeClasses ds).map ClassDeclaration.interface := by
  unfold storeClasses
  rw [List.filterMap_map, List.map_filterMap]
  refine List.filterMap_congr fun ⟨exported, declaration⟩ _ => ?_
  cases declaration with
  | classes c =>
    show (if c.isStore then some c.interface else none) = Option.map _ (if c.isStore then some c else none)
    split <;> rfl
  | group g | function f => rfl

/-- What is constructed in a module is in the interfaces of its variables. -/
lemma instances_interface (ds : List TopLevel) :
    instances (ds.map TopLevel.interface) = instances ds := by
  unfold instances
  rw [List.filterMap_map]
  refine List.filterMap_congr fun ⟨exported, declaration⟩ _ => ?_
  cases exported <;> cases declaration <;> rfl

/-- The stores of a module, without their places, are those of the interfaces of its declarations. -/
lemma stores_ofModule_unplaced (module : Syntax.Module) :
    (ofModule ix dirs module).stores.map Metadata.unplaced =
      let ds := (TopLevel.ofRoot module.root).map TopLevel.interface
      (storeClasses ds).map (storeOf ix dirs module.path (instances ds)) := by
  dsimp only
  rw [stores_ofModule, instances_interface, storeClasses_interface, List.map_map, List.map_map]
  exact List.map_congr_left fun c _ => (storeOf_interface ix dirs module.path _ c).symm

end Extraction

end Store

end StoreBindings
