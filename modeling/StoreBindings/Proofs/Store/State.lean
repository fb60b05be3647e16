import StoreBindings.Proofs.Store.Findings
import StoreBindings.Proofs.Syntax.Bodies

/-!
# The state of a store

Of the members that are named as the getter of the state the first one that is fit for it becomes the
state, wherever the unfit ones stand. Every other one is reported at its own place: with a warning if
it is fit and comes too late, else with an error. So the findings about the state are the members
named so, in order, without the one that became the state: `state_addClass`.
-/

namespace StoreBindings.Store

open Report (Recorder Severity)
open Syntax (Member ClassDeclaration Node)

/-! ## Members that are named as the state -/

instance : DecidablePred IsStateGetter := fun m =>
  inferInstanceAs (Decidable (m.identifier? = some "state" ∧ m.kind = .method ∧
    m.accessor = some .getter ∧ m.access ≠ some .heirs ∧ m.isStatic = false ∧
    m.returned.isSome = true))

instance : DecidablePred IsStateMisfit := fun m =>
  inferInstanceAs (Decidable (m.identifier? = some "state" ∧ ¬IsStateGetter m ∧
    ¬(m.kind = .method ∧ m.accessor = some .setter) ∧ actionName? m = none))

/-- The members of a class that are the getter of its state or should have been, in the order in
which they are declared. -/
def stateMembers (members : List Member) : List Member :=
  members.filter fun m => IsStateGetter m ∨ IsStateMisfit m

/-- Whether a finding is about the state. -/
def Finding.isOfState (f : Finding) : Bool :=
  match f.problem with
  | .stateIsProtected | .stateIsStatic | .stateBody | .stateIsNoGetter | .stateRepeated _ => true
  | _ => false

/-- What is said about a member that is named as the state without becoming it. -/
def blameOf (m : Member) : Severity × Place :=
  (if IsStateGetter m then .warning else .error, .member m.span)

/-- How grave the findings about the state are, and where they belong. -/
def stateBlames (found : List Finding) : List (Severity × Place) :=
  (found.filter Finding.isOfState).map fun f => (f.severity, f.place)

lemma stateBlames_append (found found' : List Finding) :
    stateBlames (found ++ found') = stateBlames found ++ stateBlames found' := by
  rw [stateBlames, List.filter_append, List.map_append]
  rfl

lemma stateBlames_of_unrelated {found : List Finding} (h : ∀ f ∈ found, f.isOfState = false) :
    stateBlames found = [] := by
  rw [stateBlames, List.filter_eq_nil_iff.2 fun f hf => by simp [h f hf], List.map_nil]

lemma stateBlames_singleton {problem : Report.Problem} {span : Syntax.Span}
    (h : (Finding.mk problem (.member span)).isOfState = true) :
    stateBlames [⟨problem, .member span⟩] = [(problem.severity, .member span)] := by
  rw [stateBlames, List.filter_cons_of_pos h]
  rfl

lemma isOfState_of_isStateProblem {problem : Report.Problem} (h : IsStateProblem problem)
    (place : Place) :
    (Finding.mk problem place).isOfState = true ∧ problem.severity = .error := by
  cases problem <;> first | exact h.elim | exact ⟨rfl, rfl⟩

lemma isOfState_of_isOfMethod {f : Finding} (h : IsOfMethod f.problem) : f.isOfState = false := by
  obtain ⟨problem, place⟩ := f
  cases problem <;> first | exact h.elim | rfl

/-- A method without accessor that is no action is the constructor or has a hidden name, if it has one
that is read. -/
lemma name_eq_hidden {m : Member} {name : String} (hname : m.identifier? = some name)
    (hne : name ≠ "constructor") (hnone : actionName? m = none) (hkind : m.kind = .method)
    (haccessor : m.accessor = none) : m.name = .hidden name := by
  unfold Member.identifier? at hname
  unfold actionName? at hnone
  rw [hkind, haccessor] at hnone
  cases hm : m.name with
  | plain plain =>
    rw [hm] at hname hnone
    cases hname
    simp [hne] at hnone
  | hidden hidden =>
    rw [hm] at hname
    cases hname
    rfl
  | computed text =>
    rw [hm] at hname
    cases hname

/-- Fields and getters that become no action are named as the state; the third kind of member would
be a method with a mark in its name, and no such name reads like that of the state. -/
lemma stateMember_iff {m : Member} : IsStateGetter m ∨ IsStateMisfit m ↔
      actionName? m = none ∧ m.identifier? = some "state" ∧
        (m.kind = .field ∨ m.accessor = some .getter ∨
          m.accessor = none ∧ m.name = .hidden "state") := by
  have haction : m.accessor ≠ none → actionName? m = none := fun h => by
    cases hname : actionName? m with
    | none => rfl
    | some name => exact absurd (accessor_of_actionName? hname) h
  constructor
  · rintro (⟨hname, -, haccessor, -⟩ | ⟨hname, -, hsetter, hnone⟩)
    · exact ⟨haction (by simp [haccessor]), hname, .inr (.inl haccessor)⟩
    · refine ⟨hnone, hname, ?_⟩
      cases hfield : m.kind with
      | field => exact .inl rfl
      | method =>
        match haccessor : m.accessor with
        | some .getter => exact .inr (.inl rfl)
        | some .setter => exact absurd ⟨hfield, haccessor⟩ hsetter
        | none => exact .inr (.inr ⟨rfl, name_eq_hidden hname (by decide) hnone hfield haccessor⟩)
  · rintro ⟨hnone, hname, hsort⟩
    by_cases hgetter : IsStateGetter m
    · exact .inl hgetter
    · refine .inr ⟨hname, hgetter, ?_, hnone⟩
      -- each of the three sorts rules out a setter
      rintro ⟨hmethod, hsetter⟩
      rcases hsort with h | h | ⟨h, -⟩
      · rw [hmethod] at h
        cases h
      all_goals
        rw [hsetter] at h
        cases h

/-! ## One member -/

variable (ix : DecoratorIndex) (className : String) (all : List Member)

/-- A member becomes the state if it is fit for it and there is no state yet. -/
lemma state_of_first {m : Metadata} {member : Member} (hgetter : IsStateGetter member)
    (hnone : m.stateGetter = none) :
    (addMember ix className all m member).1.stateGetter = some member.span ∧
      (addMember ix className all m member).1.stateKeys = member.returned.getD [] ∧
      stateBlames (addMember ix className all m member).2 = [] := by
  have hmisfit : ¬IsStateMisfit member := fun h => h.2.1 hgetter
  have hstep := step_addMember ix className all m member
  generalize addMember ix className all m member = result at hstep ⊢
  cases hstep with
  | state keys _ hkeys => simp [addState, hnone, hkeys, stateBlames]
  | misfit problem h => exact absurd h hmisfit
  | binding _ _ h | method _ _ h | getter _ h | setter _ h | nothing _ h => exact absurd hgetter h

lemma state_addSetter (m : Metadata) (setter : Member) :
    (addSetter className all m setter).1.stateGetter = m.stateGetter ∧
      (addSetter className all m setter).1.stateKeys = m.stateKeys ∧
      stateBlames (addSetter className all m setter).2 = [] := by
  unfold addSetter
  cases setter.name with
  | plain name => exact ⟨rfl, rfl, rfl⟩
  | hidden name | computed name =>
    dsimp only
    split <;> exact ⟨rfl, rfl, rfl⟩

/-- Any other member leaves the state as it is, and what is said about the state is said about that
member, if it is named so. -/
lemma state_of_later (m : Metadata) {member : Member}
    (h : IsStateGetter member → m.stateGetter.isSome = true) :
    (addMember ix className all m member).1.stateGetter = m.stateGetter ∧
      (addMember ix className all m member).1.stateKeys = m.stateKeys ∧
      stateBlames (addMember ix className all m member).2 =
        (stateMembers [member]).map blameOf := by
  have hstep := step_addMember ix className all m member
  generalize addMember ix className all m member = result at hstep ⊢
  have hunrelated : ¬IsStateGetter member → ¬IsStateMisfit member →
      (stateMembers [member]).map blameOf = [] := by
    intro hgetter hmisfit
    simp [stateMembers, hgetter, hmisfit]
  -- a step that reports on the state is that of a member that is listed, and no other step is
  cases hstep with
  | state keys hgetter =>
    have hblame : (stateMembers [member]).map blameOf = [(.warning, .member member.span)] := by
      simp [stateMembers, hgetter, blameOf]
    rw [addState, if_pos (h hgetter), hblame]
    exact ⟨rfl, rfl, stateBlames_singleton rfl⟩
  | misfit problem hmisfit hproblem =>
    have hblame : (stateMembers [member]).map blameOf = [(.error, .member member.span)] := by
      simp [stateMembers, hmisfit, hmisfit.2.1, blameOf]
    obtain ⟨hstate, hseverity⟩ := isOfState_of_isStateProblem hproblem (.member member.span)
    rw [hblame, ← hseverity]
    exact ⟨rfl, rfl, stateBlames_singleton hstate⟩
  | binding _ _ hgetter hmisfit | nothing _ hgetter hmisfit =>
    exact ⟨rfl, rfl, (hunrelated hgetter hmisfit).symm⟩
  | getter _ hgetter hmisfit =>
    obtain ⟨getters, hadd⟩ := exists_addGetter m member
    rw [hadd, hunrelated hgetter hmisfit]
    exact ⟨rfl, rfl, rfl⟩
  | setter _ hgetter hmisfit =>
    rw [hunrelated hgetter hmisfit]
    exact state_addSetter className all m member
  | method x hname hgetter hmisfit hadd hfound =>
    have hblames := stateBlames_of_unrelated fun f hf => isOfState_of_isOfMethod (hfound f hf)
    rw [hunrelated hgetter hmisfit, hblames]
    rcases hadd with ⟨e, rfl⟩ | rfl
    · rw [Metadata.offer_eq]
      split <;> exact ⟨rfl, rfl, rfl⟩
    · exact ⟨rfl, rfl, rfl⟩

/-! ## All members -/

lemma stateMembers_cons (member : Member) (rest : List Member) :
    stateMembers (member :: rest) = stateMembers [member] ++ stateMembers rest :=
  List.filter_append [member] rest

/-- Once there is a state, all members that are named so are reported. -/
lemma state_of_isSome {m : Metadata} (members : List Member) (h : m.stateGetter.isSome = true) :
    (addMembers ix className all m members).1.stateGetter = m.stateGetter ∧
      (addMembers ix className all m members).1.stateKeys = m.stateKeys ∧
      stateBlames (addMembers ix className all m members).2 =
        (stateMembers members).map blameOf := by
  induction members generalizing m with
  | nil => exact ⟨rfl, rfl, rfl⟩
  | cons member rest ih =>
    obtain ⟨hplace, hkeys, hblames⟩ :=
      state_of_later ix className all m fun _ : IsStateGetter member => h
    obtain ⟨hplace', hkeys', hblames'⟩ := ih (hplace ▸ h)
    rw [addMembers]
    dsimp only
    refine ⟨hplace'.trans hplace, hkeys'.trans hkeys, ?_⟩
    rw [stateBlames_append, hblames, hblames', stateMembers_cons member rest, List.map_append]

/-- As long as there is no state, the first member that is fit for it becomes the state, and all
others that are named so are reported. -/
lemma state_of_isNone (m : Metadata) (members : List Member) (h : m.stateGetter = none) :
    (addMembers ix className all m members).1.stateGetter =
        ((stateMembers members).find? fun m => IsStateGetter m).map Member.span ∧
      (addMembers ix className all m members).1.stateKeys =
        ((stateMembers members).find? fun m => IsStateGetter m).elim m.stateKeys
          (fun getter => getter.returned.getD []) ∧
      stateBlames (addMembers ix className all m members).2 =
        ((stateMembers members).eraseP fun m => IsStateGetter m).map blameOf := by
  induction members generalizing m with
  | nil => exact ⟨h, rfl, rfl⟩
  | cons member rest ih =>
    rw [addMembers]
    dsimp only
    rw [stateBlames_append]
    by_cases hgetter : IsStateGetter member
    · -- from here on there is a state
      obtain ⟨hplace, hkeys, hblames⟩ :=
        state_of_first ix className all hgetter h
      obtain ⟨hplace', hkeys', hblames'⟩ :=
        state_of_isSome ix className all rest
          (Option.isSome_iff_exists.2 ⟨_, hplace⟩)
      have hmembers : stateMembers (member :: rest) = member :: stateMembers rest :=
        List.filter_cons_of_pos (by simp [hgetter])
      rw [hplace', hkeys', hblames', hplace, hkeys, hblames, hmembers,
        List.find?_cons_of_pos (by simpa using hgetter),
        List.eraseP_cons_of_pos (by simpa using hgetter)]
      exact ⟨rfl, rfl, rfl⟩
    · obtain ⟨hplace, hkeys, hblames⟩ :=
        state_of_later ix className all m fun h => absurd h hgetter
      obtain ⟨hplace', hkeys', hblames'⟩ := ih _ (hplace.trans h)
      have hnone : ∀ m ∈ stateMembers [member], ¬decide (IsStateGetter m) = true := by
        intro m hm
        rw [List.mem_singleton.1 (List.mem_filter.1 hm).1]
        simpa using hgetter
      rw [hplace', hkeys', hblames', hkeys, hblames, stateMembers_cons member rest,
        List.find?_append, List.find?_eq_none.2 hnone, List.eraseP_append_right _ hnone,
        List.map_append]
      exact ⟨rfl, rfl, rfl⟩

/-! ## Whole classes -/

/-- The state of a class is the first of its members that is fit for it: a getter that is neither
protected nor static and whose body is exactly one return of an object, up to parentheses and casts.
Its keys are the static keys of that object. All other members that are named as the state are
reported in order, each once and at its own place: those that are fit with a warning, all others with
an error. A class has a rejected state exactly if one of its members is unfit. -/
theorem state_addClass (ix : DecoratorIndex) (dirs : Directories) (file : Path) (n : Node)
    (r : Recorder) :
    let c := ClassDeclaration.ofNode n
    let m := ((Metadata.ofFile dirs file).addClass ix c).1
    let found := ((Metadata.ofFile dirs file).addClass ix c).2
    let states := stateMembers c.members
    List.Forall₂ (fun p member => member.IsReadOff p ∧ ∀ keys, member.returned = some keys ↔
        ∃ body, p.tree.part? .body = some body ∧ body.ReturnsKeys keys) n.memberNodes c.members ∧
      (∀ member ∈ c.members, member ∈ states ↔
        actionName? member = none ∧ member.identifier? = some "state" ∧
          (member.kind = .field ∨ member.accessor = some .getter ∨
            member.accessor = none ∧ member.name = .hidden "state")) ∧
      (m.stateGetter.isSome = true ↔ ∃ member ∈ states, IsStateGetter member) ∧
      m.stateGetter = (states.find? fun member => IsStateGetter member).map Member.span ∧
      m.stateKeys = ((states.find? fun member => IsStateGetter member).bind Member.returned).getD [] ∧
      stateBlames found = (states.eraseP fun member => IsStateGetter member).map blameOf ∧
      (m.stateRejected = true ↔ ∃ member ∈ states, ¬IsStateGetter member) ∧
      (r.inClass c.name c.span fun r => found.foldl Finding.record r).messages =
        r.messages ++ found.map (Finding.message r.subject) := by
  intro c m found states
  obtain ⟨hplace, hkeys, hblames⟩ := state_of_isNone ix c.name c.members
    ((Metadata.ofFile dirs file).beginClass c.name c.span) c.members rfl
  refine ⟨?_, fun member hmember => ?_, ?_, hplace, ?_, hblames, ?_, messages_inClass r c found⟩
  · exact (ClassDeclaration.members_ofNode n).imp fun p member h =>
      ⟨h, fun keys => h.returned_eq_some_iff⟩
  · rw [← stateMember_iff]
    simp [states, stateMembers, hmember]
  · rw [show m.stateGetter = _ from hplace]
    simp [states]
  · rw [show m.stateKeys = _ from hkeys]
    cases (stateMembers c.members).find? fun member => IsStateGetter member <;> rfl
  · have hrejected : m.stateRejected = true ↔ ∃ member ∈ c.members, IsStateMisfit member :=
      stateRejected_addMembers.trans (by simp [Metadata.beginClass, Metadata.ofFile])
    rw [hrejected]
    constructor
    · rintro ⟨member, hmember, hmisfit⟩
      exact ⟨member, List.mem_filter.2 ⟨hmember, by simp [hmisfit]⟩, hmisfit.2.1⟩
    · rintro ⟨member, hmember, hgetter⟩
      obtain ⟨hmember, hstate⟩ := List.mem_filter.1 hmember
      exact ⟨member, hmember, (of_decide_eq_true hstate).resolve_left hgetter⟩

end StoreBindings.Store
