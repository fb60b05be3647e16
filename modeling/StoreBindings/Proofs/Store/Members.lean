import Mathlib.Data.List.Basic
import StoreBindings.Proofs.Store.Handlers
import StoreBindings.Store.ClassBody

/-!
# What a member adds to a store

A method that can become an action gets the first event that its decorators name and that is free;
each of its other decorators that name an event is refused with one finding (`claimAll_eq`). If it
gets none it becomes an action: `addMethod_eq`. All that any member can do is one of the steps of
`Step` (`step_addMember`): members that become no action leave the handlers and the actions as they
are (`addMember_other`), and no member changes what is known of the class as a whole
(`sameHead_addMembers`).
-/

namespace StoreBindings.Store

open Syntax (Member)

/-! ## The events of one method -/

/-- The first of several events that no method handles. -/
def Metadata.firstFree? (m : Metadata) (events : List Lifecycle) : Option Lifecycle :=
  events.find? fun e => (m.handlerOf? e).isNone

/-- The events of a method but for the one that it has got. -/
def othersThan (won : Option Lifecycle) (events : List Lifecycle) : List Lifecycle :=
  match won with
  | some e => events.erase e
  | none => events

/-- A method that is bound is refused every further event. -/
lemma claimAll_of_bound (className : String) (m : Metadata) {a : Action} {held : Lifecycle}
    (h : a.event = some held) (events : List Lifecycle) :
    claimAll className (m, a) events = ((m, a), events.map fun _ =>
      ⟨.secondEvent a.name className held, .action a.name a.span⟩) := by
  induction events with
  | nil => rfl
  | cons e es ih =>
    have hclaim : claim className (m, a) e =
        ((m, a), [⟨.secondEvent a.name className held, .action a.name a.span⟩]) := by
      simp [claim, Action.bindTo, h]
    rw [claimAll, hclaim]
    dsimp only
    rw [ih]
    rfl

/-- A method without an event gets one that is free. -/
lemma claim_of_free {m : Metadata} {a : Action} (className : String) (ha : a.event = none)
    {event : Lifecycle} (h : m.handlerOf? event = none) :
    claim className (m, a) event =
      ((m.offer (a.name, event), { a with event := some event }), []) := by
  simp [claim, Action.bindTo, ha, Metadata.addHandler_of_free h a.name]

/-- A method without an event is refused one that another method handles. -/
lemma claim_of_taken {m : Metadata} {a : Action} (className : String) (ha : a.event = none)
    {event : Lifecycle} {handler : String} (h : m.handlerOf? event = some handler) :
    claim className (m, a) event =
      ((m, a), [⟨.eventTaken a.name event handler, .action a.name a.span⟩]) := by
  have hadd := (Metadata.addHandler_eq_error_iff m a.name event ⟨handler⟩).2 h
  simp [claim, Action.bindTo, ha, hadd]

/-- A method gets the first event that is free, and is refused all others one by one. -/
theorem claimAll_eq (className : String) (m : Metadata) {a : Action} (ha : a.event = none)
    (events : List Lifecycle) :
    (claimAll className (m, a) events).1 =
        (m.offerAll ((m.firstFree? events).toList.map (a.name, ·)),
          { a with event := m.firstFree? events }) ∧
      (claimAll className (m, a) events).2.map Finding.place =
        (othersThan (m.firstFree? events) events).map fun _ => .action a.name a.span := by
  induction events with
  | nil =>
    obtain ⟨name, parameters, decorators, span, event⟩ := a
    cases ha
    exact ⟨rfl, rfl⟩
  | cons e es ih =>
    rw [claimAll]
    cases he : m.handlerOf? e with
    | none =>
      -- the method is bound from here on
      have hfirst : m.firstFree? (e :: es) = some e := by simp [Metadata.firstFree?, he]
      rw [claim_of_free className ha he]
      dsimp only
      rw [claimAll_of_bound className _ rfl, hfirst]
      refine ⟨rfl, ?_⟩
      simp [othersThan]
    | some handler =>
      have hfirst : m.firstFree? (e :: es) = m.firstFree? es := by simp [Metadata.firstFree?, he]
      have hothers : othersThan (m.firstFree? es) (e :: es) =
          e :: othersThan (m.firstFree? es) es := by
        cases hes : m.firstFree? es with
        | none => rfl
        | some e' =>
          have hfree : m.handlerOf? e' = none := by simpa using List.find?_some hes
          have hne : e ≠ e' := by
            rintro rfl
            rw [he] at hfree
            cases hfree
          simp [othersThan, hne]
      rw [claim_of_taken className ha he, hfirst, hothers]
      dsimp only
      refine ⟨ih.1, ?_⟩
      rw [List.map_append, ih.2]
      rfl

/-- A problem of a member, and not of a class that lacks one. -/
def IsOfMember : Report.Problem → Prop
  | .exportMissing _ | .stateMissing _ => False
  | _ => True

/-- A problem of a method that asks for an event in vain. -/
def IsOfMethod : Report.Problem → Prop
  | .secondEvent .. | .eventTaken .. => True
  | _ => False

/-- A method is a member. -/
lemma IsOfMethod.isOfMember {p : Report.Problem} (h : IsOfMethod p) : IsOfMember p := by
  cases p <;> trivial

/-- Whatever events a method asks for, it is only refused some of them. -/
lemma isOfMethod_claimAll (className : String) (s : Metadata × Action) (events : List Lifecycle) :
    ∀ f ∈ (claimAll className s events).2, IsOfMethod f.problem := by
  induction events generalizing s with
  | nil => simp [claimAll]
  | cons e es ih =>
    intro f hf
    rw [claimAll] at hf
    rcases List.mem_append.1 hf with hf | hf
    · -- a claim is refused because the method has an event, or else because the event has a handler
      unfold claim at hf
      dsimp only at hf
      split at hf
      · rw [List.mem_singleton.1 hf]
        trivial
      · split at hf
        · rw [List.mem_singleton.1 hf]
          trivial
        · cases hf
    · exact ih _ f hf

/-! ## Methods -/

/-- A method that can become an action, with the events that its decorators name, in the order in
which they are written. -/
structure Claimant where
  action : Action
  events : List Lifecycle
deriving DecidableEq

/-- The events that decorators name, without regard to what the names are properties of. -/
def eventsNamed (ds : List Syntax.Decorator) : List Lifecycle :=
  ds.filterMap fun d => d.name.bind fun name =>
    Lifecycle.ofName? (Syntax.Decorator.shortName name)

/-- The method that a member is, if it is neither an accessor nor the constructor. -/
def Claimant.ofMember? (ix : DecoratorIndex) (file : Path) (m : Member) : Option Claimant :=
  (actionName? m).map fun name =>
    { action := Action.make name (m.parameters.mapIdx Parameter.ofSyntax)
        (Decoration.ofMember ix file m) m.span
      events := eventsNamed m.decorators }

/-- A method stands where its member does, and begins without an event. -/
lemma action_of_ofMember? {ix : DecoratorIndex} {file : Path} {m : Member} {x : Claimant}
    (h : Claimant.ofMember? ix file m = some x) :
    x.action.span = m.span ∧ x.action.event = none := by
  obtain ⟨name, -, rfl⟩ := Option.map_eq_some_iff.1 h
  exact ⟨rfl, rfl⟩

/-- The decorators that are read of a member name the events that it names. -/
lemma filterMap_event? (ix : DecoratorIndex) (file : Path) (m : Member) :
    (Decoration.ofMember ix file m).filterMap Decoration.event? = eventsNamed m.decorators := by
  rw [Decoration.ofMember, List.filterMap_filterMap, eventsNamed]
  refine List.filterMap_congr fun d _ => ?_
  rw [Decoration.ofSyntax?]
  cases d.name <;> rfl

/-- A method either gets an event or becomes an action. -/
lemma addMember_method {ix : DecoratorIndex} {m : Metadata} {member : Member} {x : Claimant}
    (className : String) (members : List Member) (h : Claimant.ofMember? ix m.file member = some x) :
    (addMember ix className members m member).1 =
        (match m.firstFree? x.events with
        | some e => m.offer (x.action.name, e)
        | none => { m with actions := m.actions.insert x.action.name x.action }) ∧
      (addMember ix className members m member).2.map Finding.place =
        ((othersThan (m.firstFree? x.events) x.events).map fun _ =>
          .action x.action.name x.action.span) ∧
      ∀ f ∈ (addMember ix className members m member).2, IsOfMethod f.problem := by
  obtain ⟨name, hname, rfl⟩ := Option.map_eq_some_iff.1 h
  -- a method is not a field, and only a field can be a binding
  have hbinding : bindingOf? member = none := by
    unfold actionName? at hname
    unfold bindingOf?
    rw [if_neg]
    rintro ⟨hkind, -⟩
    rw [hkind] at hname
    cases hname
  have hadd : addMember ix className members m member = addMethod ix className m name member := by
    rw [addMember, hbinding]
    dsimp only
    rw [hname]
  have hclaims := claimAll_eq className m
    (a := Action.make name (member.parameters.mapIdx Parameter.ofSyntax)
      (Decoration.ofMember ix m.file member) member.span) rfl (eventsNamed member.decorators)
  have hproblems := isOfMethod_claimAll className (m, Action.make name
    (member.parameters.mapIdx Parameter.ofSyntax) (Decoration.ofMember ix m.file member)
    member.span) (eventsNamed member.decorators)
  rw [hadd, addMethod, filterMap_event?]
  generalize claimAll className _ _ = result at hclaims hproblems ⊢
  obtain ⟨s, found⟩ := result
  obtain ⟨hs, hplaces⟩ := hclaims
  dsimp only at hs hplaces ⊢
  subst hs
  refine ⟨?_, hplaces, hproblems⟩
  dsimp only
  cases m.firstFree? (eventsNamed member.decorators) <;> rfl

/-! ## The state -/

/-- The getter of the state: one for everybody or for the class alone, of instances, whose body
returns an object. -/
def IsStateGetter (m : Member) : Prop :=
  m.identifier? = some "state" ∧ m.kind = .method ∧ m.accessor = some .getter ∧
    m.access ≠ some .heirs ∧ m.isStatic = false ∧ m.returned.isSome = true

/-- A member that is named as the getter of the state without being it. A setter may have that name,
and so may a method that becomes an action. -/
def IsStateMisfit (m : Member) : Prop :=
  m.identifier? = some "state" ∧ ¬IsStateGetter m ∧
    ¬(m.kind = .method ∧ m.accessor = some .setter) ∧ actionName? m = none

/-- A member that becomes no action is the getter of the state, or it should have been, or it has
nothing to do with the state. -/
lemma stateMatch_cases {m : Member} (hname : actionName? m = none) :
    (IsStateGetter m ∧ ∃ keys, StateMatch.of m = .accepted keys) ∨
    (IsStateMisfit m ∧ ∃ problem, StateMatch.of m = .rejected problem) ∨
    (¬IsStateGetter m ∧ ¬IsStateMisfit m ∧ StateMatch.of m = .unrelated) := by
  by_cases hstate : m.identifier? = some "state"
  · -- what is wrong is found in the order in which the conditions of a state getter are listed
    unfold IsStateMisfit IsStateGetter StateMatch.of
    rw [if_neg (not_not_intro hstate)]
    cases hkind : m.kind with
    | field => simp [hstate, hname]
    | method =>
      match haccessor : m.accessor with
      | none => simp [hstate, hname]
      | some .setter => simp
      | some .getter =>
        by_cases haccess : m.access = some .heirs
        · simp [hstate, hname, haccess]
        · by_cases hstatic : m.isStatic = true
          · simp [hstate, hname, haccess, hstatic]
          · cases hreturned : m.returned <;> simp [hstate, hname, haccess, hstatic]
  · refine .inr (.inr ⟨fun h => hstate h.1, fun h => hstate h.1, ?_⟩)
    rw [StateMatch.of, if_pos hstate]

/-! ## One member -/

/-- Two stores of one class: they differ at most in what is read off members. -/
structure SameHead (m m' : Metadata) : Prop where
  file : m'.file = m.file
  fromStores : m'.fromStores = m.fromStores
  fromGenerated : m'.fromGenerated = m.fromGenerated
  className : m'.className = m.className
  exportName : m'.exportName = m.exportName
  classSpan : m'.classSpan = m.classSpan

lemma SameHead.refl (m : Metadata) : SameHead m m := ⟨rfl, rfl, rfl, rfl, rfl, rfl⟩

lemma SameHead.trans {m m' m'' : Metadata} (h : SameHead m m') (h' : SameHead m' m'') :
    SameHead m m'' :=
  ⟨h'.file.trans h.file, h'.fromStores.trans h.fromStores, h'.fromGenerated.trans h.fromGenerated,
    h'.className.trans h.className, h'.exportName.trans h.exportName,
    h'.classSpan.trans h.classSpan⟩

/-- What a member of a class adds to a store, as far as handlers and actions are no part of it. -/
structure Adds (member : Member) (m m' : Metadata) (found : List Finding) : Prop where
  head : SameHead m m'
  stateGetter : m'.stateGetter.isSome = true ↔ m.stateGetter.isSome = true ∨ IsStateGetter member
  stateRejected : m'.stateRejected = true ↔ m.stateRejected = true ∨ IsStateMisfit member
  span : ∀ f ∈ found, f.place.span = member.span
  problem : ∀ f ∈ found, IsOfMember f.problem
  /-- A misfit is not passed over. -/
  error : IsStateMisfit member → ∃ f ∈ found, f.place = .member member.span ∧
    f.problem.severity = .error

variable {ix : DecoratorIndex} {className : String} {members : List Member} {m : Metadata}
  {member : Member}

/-- A member that has nothing to do with the state. -/
lemma adds_of_unrelated {m' : Metadata} {found : List Finding} (hgetter : ¬IsStateGetter member)
    (hmisfit : ¬IsStateMisfit member) (hhead : SameHead m m')
    (hstate : m'.stateGetter = m.stateGetter) (hrejected : m'.stateRejected = m.stateRejected)
    (hfound : ∀ f ∈ found, f.place.span = member.span ∧ IsOfMember f.problem) :
    Adds member m m' found where
  head := hhead
  stateGetter := by simp [hstate, hgetter]
  stateRejected := by simp [hrejected, hmisfit]
  span f hf := (hfound f hf).1
  problem f hf := (hfound f hf).2
  error h := absurd h hmisfit

/-- The getter of the state is added, and a second one is reported at its place. -/
lemma adds_addState (hgetter : IsStateGetter member) (keys : List String) :
    Adds member m (addState className m member.span keys).1
      (addState className m member.span keys).2 := by
  have hmisfit : ¬IsStateMisfit member := fun h => h.2.1 hgetter
  unfold addState
  split
  · next h => exact ⟨.refl m, by simp [h], by simp [hmisfit], by simp [Place.span],
      by simp [IsOfMember], fun h => absurd h hmisfit⟩
  · exact ⟨⟨rfl, rfl, rfl, rfl, rfl, rfl⟩, by simp [hgetter], by simp [hmisfit], by simp, by simp,
      fun h => absurd h hmisfit⟩

/-- A getter changes the getters only. -/
lemma exists_addGetter (m : Metadata) (getter : Member) :
    ∃ getters, addGetter m getter = { m with getters := getters } := by
  unfold addGetter
  split
  · split
    · exact ⟨m.getters, rfl⟩
    · exact ⟨_, rfl⟩
  · exact ⟨m.getters, rfl⟩

/-- A setter changes the setters only. -/
lemma exists_addSetter (className : String) (members : List Member) (m : Metadata)
    (setter : Member) : ∃ setters found,
      addSetter className members m setter = ({ m with setters := setters }, found) ∧
        ∀ f ∈ found, f.place = .member setter.span ∧ IsOfMember f.problem := by
  unfold addSetter
  split
  · exact ⟨_, _, rfl, by simp⟩
  · split
    · exact ⟨m.setters, _, rfl, by simp [IsOfMember]⟩
    · exact ⟨_, _, rfl, by simp [IsOfMember]⟩

/-- An event that is given to a method is no matter of the class. -/
lemma sameHead_offer (m : Metadata) (c : Metadata.Claim) : SameHead m (m.offer c) := by
  rw [Metadata.offer_eq]
  split
  · exact ⟨rfl, rfl, rfl, rfl, rfl, rfl⟩
  · exact .refl m

/-- What can become an action is no accessor. -/
lemma accessor_of_actionName? {m : Member} {name : String} (h : actionName? m = some name) :
    m.accessor = none := by
  unfold actionName? at h
  split at h
  · assumption
  · cases h

/-- What is wrong with a member that is named as the getter of the state without being it. -/
def IsStateProblem : Report.Problem → Prop
  | .stateIsProtected | .stateIsStatic | .stateBody | .stateIsNoGetter => True
  | _ => False

/-- A member is turned away as the getter of the state for one of four reasons. -/
lemma isStateProblem_of_rejected {m : Member} {problem : Report.Problem}
    (h : StateMatch.of m = .rejected problem) : IsStateProblem problem := by
  unfold StateMatch.of at h
  repeat' split at h
  all_goals first | contradiction | (cases h; trivial)

/-- What a member does to a store: it is one of a few kinds of members, and each of them has its own
step. -/
inductive Step (ix : DecoratorIndex) (className : String) (all : List Member) (m : Metadata)
    (member : Member) : Metadata × List Finding → Prop
  | binding (binding : String) (hkind : member.kind = .field) (hgetter : ¬IsStateGetter member)
      (hmisfit : ¬IsStateMisfit member) :
      Step ix className all m member ({ m with binding := some binding }, [])
  /-- The method gets an event, or else it becomes an action. -/
  | method {m' : Metadata} {found : List Finding} (x : Claimant)
      (hname : actionName? member = some x.action.name) (hgetter : ¬IsStateGetter member)
      (hmisfit : ¬IsStateMisfit member)
      (hadd : (∃ e, m' = m.offer (x.action.name, e)) ∨
        m' = { m with actions := m.actions.insert x.action.name x.action })
      (hfound : ∀ f ∈ found, IsOfMethod f.problem) : Step ix className all m member (m', found)
  | state (keys : List String) (hgetter : IsStateGetter member)
      (hkeys : member.returned = some keys) :
      Step ix className all m member (addState className m member.span keys)
  | misfit (problem : Report.Problem) (hmisfit : IsStateMisfit member)
      (hproblem : IsStateProblem problem) :
      Step ix className all m member
        ({ m with stateRejected := true }, [⟨problem, .member member.span⟩])
  | getter (haccessor : member.accessor = some .getter) (hgetter : ¬IsStateGetter member)
      (hmisfit : ¬IsStateMisfit member) : Step ix className all m member (addGetter m member, [])
  | setter (haccessor : member.accessor = some .setter) (hgetter : ¬IsStateGetter member)
      (hmisfit : ¬IsStateMisfit member) :
      Step ix className all m member (addSetter className all m member)
  | nothing (haccessor : member.accessor = none) (hgetter : ¬IsStateGetter member)
      (hmisfit : ¬IsStateMisfit member) : Step ix className all m member (m, [])

lemma IsStateProblem.isOfMember {p : Report.Problem} (h : IsStateProblem p) : IsOfMember p := by
  cases p <;> trivial

/-- What is wrong with such a member is an error. -/
lemma IsStateProblem.severity_eq {p : Report.Problem} (h : IsStateProblem p) :
    p.severity = .error := by
  cases p <;> first | rfl | cases h

/-- The keys of the state are those of the object that its getter returns. -/
lemma returned_of_accepted {m : Member} {keys : List String}
    (h : StateMatch.of m = .accepted keys) : m.returned = some keys := by
  unfold StateMatch.of at h
  repeat' split at h
  all_goals first | contradiction | (cases h; assumption)

/-- The step of a method that can become an action. -/
lemma step_of_actionName? (ix : DecoratorIndex) (className : String) (all : List Member)
    (m : Metadata) {member : Member} {name : String} (hname : actionName? member = some name) :
    Step ix className all m member (addMember ix className all m member) := by
  obtain ⟨x, hx⟩ : ∃ x, Claimant.ofMember? ix m.file member = some x := by
    simp [Claimant.ofMember?, hname]
  have hxname : actionName? member = some x.action.name := by
    obtain ⟨name', hname', rfl⟩ := Option.map_eq_some_iff.1 hx
    exact hname'
  obtain ⟨hadd, -, hproblems⟩ := addMember_method className all hx
  have haccessor := accessor_of_actionName? hname
  have hgetter : ¬IsStateGetter member := fun h => by
    rw [h.2.2.1] at haccessor
    cases haccessor
  have hmisfit : ¬IsStateMisfit member := fun h => by
    rw [h.2.2.2] at hname
    cases hname
  generalize addMember ix className all m member = result at hadd hproblems ⊢
  refine .method x hxname hgetter hmisfit ?_ hproblems
  rw [hadd]
  cases m.firstFree? x.events with
  | none => exact .inr rfl
  | some e => exact .inl ⟨e, rfl⟩

/-- Every member takes one of the steps. -/
theorem step_addMember (ix : DecoratorIndex) (className : String) (all : List Member) (m : Metadata)
    (member : Member) : Step ix className all m member (addMember ix className all m member) := by
  cases hname : actionName? member with
  | some name => exact step_of_actionName? ix className all m hname
  | none =>
    unfold addMember
    -- what becomes no action can be a binding, then the state, and then an accessor
    cases hbinding : bindingOf? member with
    | some binding =>
      unfold bindingOf? at hbinding
      split at hbinding
      · next hif =>
        have hstate : member.identifier? ≠ some "state" := by
          rw [hif.2.2.2.2]
          decide
        exact .binding binding hif.1 (fun h => hstate h.1) fun h => hstate h.1
      · cases hbinding
    | none =>
      dsimp only
      rw [hname]
      dsimp only
      rcases stateMatch_cases hname with ⟨hgetter, keys, hmatch⟩ | ⟨hmisfit, problem, hmatch⟩ |
        ⟨hgetter, hmisfit, hmatch⟩
      · rw [hmatch]
        exact .state keys hgetter (returned_of_accepted hmatch)
      · rw [hmatch]
        exact .misfit problem hmisfit (isStateProblem_of_rejected hmatch)
      · rw [hmatch]
        dsimp only
        cases haccessor : member.accessor with
        | none => exact .nothing haccessor hgetter hmisfit
        | some accessor =>
          cases accessor with
          | getter => exact .getter haccessor hgetter hmisfit
          | setter => exact .setter haccessor hgetter hmisfit

/-- What a step adds. A method is refused events at its own place. -/
lemma Step.adds {result : Metadata × List Finding} (h : Step ix className members m member result)
    (hspan : actionName? member ≠ none → ∀ f ∈ result.2, f.place.span = member.span) :
    Adds member m result.1 result.2 := by
  cases h with
  | binding binding hkind hgetter hmisfit =>
    exact adds_of_unrelated hgetter hmisfit ⟨rfl, rfl, rfl, rfl, rfl, rfl⟩ rfl rfl (by simp)
  | @method m' found x hname hgetter hmisfit hadd hfound =>
    have hall : ∀ f ∈ found, f.place.span = member.span ∧ IsOfMember f.problem :=
      fun f hf => ⟨hspan (by simp [hname]) f hf, (hfound f hf).isOfMember⟩
    rcases hadd with ⟨e, rfl⟩ | rfl
    · have hoffer : (m.offer (x.action.name, e)).stateGetter = m.stateGetter ∧
          (m.offer (x.action.name, e)).stateRejected = m.stateRejected := by
        rw [Metadata.offer_eq]
        split <;> simp
      exact adds_of_unrelated hgetter hmisfit (sameHead_offer m _) hoffer.1 hoffer.2 hall
    · exact adds_of_unrelated hgetter hmisfit ⟨rfl, rfl, rfl, rfl, rfl, rfl⟩ rfl rfl hall
  | state keys hgetter hkeys => exact adds_addState hgetter keys
  | misfit problem hmisfit hproblem =>
    have hgetter : ¬IsStateGetter member := hmisfit.2.1
    exact ⟨⟨rfl, rfl, rfl, rfl, rfl, rfl⟩, by simp [hgetter], by simp [hmisfit],
      by simp [Place.span], by simpa using hproblem.isOfMember,
      by simpa using fun _ => hproblem.severity_eq⟩
  | getter haccessor hgetter hmisfit =>
    obtain ⟨getters, hadd⟩ := exists_addGetter m member
    rw [hadd]
    exact adds_of_unrelated hgetter hmisfit ⟨rfl, rfl, rfl, rfl, rfl, rfl⟩ rfl rfl (by simp)
  | setter haccessor hgetter hmisfit =>
    obtain ⟨setters, found, hadd, hfound⟩ := exists_addSetter className members m member
    rw [hadd]
    refine adds_of_unrelated hgetter hmisfit ⟨rfl, rfl, rfl, rfl, rfl, rfl⟩ rfl rfl fun f hf => ?_
    exact ⟨by rw [(hfound f hf).1]; rfl, (hfound f hf).2⟩
  | nothing haccessor hgetter hmisfit =>
    exact adds_of_unrelated hgetter hmisfit (.refl m) rfl rfl (by simp)

/-- A step of a member that becomes no action leaves the handlers and the actions as they are. -/
lemma Step.leaves {result : Metadata × List Finding} (h : Step ix className members m member result)
    (hname : actionName? member = none) : result.1.handlers = m.handlers ∧
      result.1.actions = m.actions ∧ ∀ f ∈ result.2, f.place = .member member.span := by
  cases h with
  | binding binding _ _ _ => exact ⟨rfl, rfl, by simp⟩
  | method x hx _ _ _ _ =>
    rw [hname] at hx
    cases hx
  | state keys _ _ =>
    unfold addState
    split <;> simp
  | misfit problem _ _ => exact ⟨rfl, rfl, by simp⟩
  | getter _ _ _ =>
    obtain ⟨getters, hadd⟩ := exists_addGetter m member
    rw [hadd]
    exact ⟨rfl, rfl, by simp⟩
  | setter _ _ _ =>
    obtain ⟨setters, found, hadd, hfound⟩ := exists_addSetter className members m member
    rw [hadd]
    exact ⟨rfl, rfl, fun f hf => (hfound f hf).1⟩
  | nothing _ _ _ => exact ⟨rfl, rfl, by simp⟩

/-- What a member that becomes no action adds; it is nobody's handler either. -/
theorem addMember_other (ix : DecoratorIndex) (className : String) (members : List Member)
    (m : Metadata) {member : Member} (h : actionName? member = none) :
    Adds member m (addMember ix className members m member).1
        (addMember ix className members m member).2 ∧
      (addMember ix className members m member).1.handlers = m.handlers ∧
      (addMember ix className members m member).1.actions = m.actions ∧
      ∀ f ∈ (addMember ix className members m member).2, f.place = .member member.span := by
  have hstep := step_addMember ix className members m member
  exact ⟨hstep.adds fun hne => absurd h hne, hstep.leaves h⟩

/-- What any member adds. -/
lemma adds_addMember (ix : DecoratorIndex) (className : String) (members : List Member)
    (m : Metadata) (member : Member) :
    Adds member m (addMember ix className members m member).1
      (addMember ix className members m member).2 := by
  refine (step_addMember ix className members m member).adds fun hname f hf => ?_
  obtain ⟨x, hx⟩ : ∃ x, Claimant.ofMember? ix m.file member = some x := by
    simpa [Claimant.ofMember?] using Option.ne_none_iff_exists'.1 hname
  obtain ⟨-, hplaces, -⟩ := addMember_method className members hx
  have hplace := List.mem_map_of_mem (f := Finding.place) hf
  rw [hplaces, List.mem_map] at hplace
  obtain ⟨-, -, hplace⟩ := hplace
  rw [← hplace, ← (action_of_ofMember? hx).1]
  rfl

/-! ## All members -/

variable {all : List Member}

/-- No members change what is known of the class as a whole. -/
theorem sameHead_addMembers (ix : DecoratorIndex) (className : String) (all : List Member)
    (m : Metadata) (members : List Member) :
    SameHead m (addMembers ix className all m members).1 := by
  induction members generalizing m with
  | nil => exact .refl m
  | cons member rest ih =>
    rw [addMembers]
    exact (adds_addMember ix className all m member).head.trans (ih _)

/-- There is a state getter afterwards exactly if there was one or a member is one. -/
lemma stateGetter_addMembers : (addMembers ix className all m members).1.stateGetter.isSome = true ↔
    m.stateGetter.isSome = true ∨ ∃ member ∈ members, IsStateGetter member := by
  induction members generalizing m with
  | nil => simp [addMembers]
  | cons member rest ih =>
    rw [addMembers]
    dsimp only
    rw [ih, (adds_addMember ix className all m member).stateGetter, List.exists_mem_cons_iff,
      or_assoc]

/-- The state is rejected afterwards exactly if it was or a member is a misfit. -/
lemma stateRejected_addMembers :
    (addMembers ix className all m members).1.stateRejected = true ↔
      m.stateRejected = true ∨ ∃ member ∈ members, IsStateMisfit member := by
  induction members generalizing m with
  | nil => simp [addMembers]
  | cons member rest ih =>
    rw [addMembers]
    dsimp only
    rw [ih, (adds_addMember ix className all m member).stateRejected, List.exists_mem_cons_iff,
      or_assoc]

/-- Every finding belongs to a member. -/
lemma exists_member_of_mem_addMembers {f : Finding}
    (h : f ∈ (addMembers ix className all m members).2) :
    IsOfMember f.problem ∧ ∃ member ∈ members, f.place.span = member.span := by
  induction members generalizing m with
  | nil => cases h
  | cons member rest ih =>
    have hadds := adds_addMember ix className all m member
    rw [addMembers] at h
    rcases List.mem_append.1 h with h | h
    · exact ⟨hadds.problem f h, member, List.mem_cons_self, hadds.span f h⟩
    · obtain ⟨hproblem, member', hmember, hspan⟩ := ih h
      exact ⟨hproblem, member', List.mem_cons_of_mem _ hmember, hspan⟩

/-- A misfit is reported as an error at its place. -/
lemma exists_error_of_misfit (ix : DecoratorIndex) (className : String) (all : List Member)
    (m : Metadata) {members : List Member} {member : Member} (hmember : member ∈ members)
    (hmisfit : IsStateMisfit member) :
    ∃ f ∈ (addMembers ix className all m members).2, f.place = .member member.span ∧
      f.problem.severity = .error := by
  induction members generalizing m with
  | nil => cases hmember
  | cons head rest ih =>
    rw [addMembers]
    rcases List.mem_cons.1 hmember with rfl | hrest
    · obtain ⟨f, hf, h⟩ := (adds_addMember ix className all m member).error hmisfit
      exact ⟨f, List.mem_append_left _ hf, h⟩
    · obtain ⟨f, hf, h⟩ := ih _ hrest
      exact ⟨f, List.mem_append_right _ hf, h⟩

end StoreBindings.Store
