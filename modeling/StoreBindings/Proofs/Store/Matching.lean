import Mathlib.Data.List.Nodup
import StoreBindings.Proofs.Store.Findings
import StoreBindings.Proofs.Store.Members

/-!
# Which method gets which event

The methods of a class are matched with events first come, first served: each gets the first event
that its decorators name and that no earlier method has. If no two methods have the same name, the
matching splits the methods into handlers and actions, and every decorator that asked in vain is
reported once: `addClass_matching`.

Methods of one name share a single entry among the handlers. So the claims of a class body are kept
as far as `Handlers` says it of claims in general, and a method that has got an event loses it to a
later method of the same name that gets another one: `event_kept_iff`, `overtaken_by_namesake`.
-/

namespace StoreBindings.Store

open Report (Recorder)
open Syntax (Member ClassDeclaration)

/-- The methods among members that can become actions, in the order in which they are declared. -/
def claimants (ix : DecoratorIndex) (file : Path) (members : List Member) : List Claimant :=
  members.filterMap (Claimant.ofMember? ix file)

/-- The events that methods get one after the other. -/
def outcomes (m : Metadata) : List Claimant → List (Claimant × Option Lifecycle)
  | [] => []
  | x :: xs =>
    let won := m.firstFree? x.events
    (x, won) :: outcomes (m.offerAll (won.toList.map (x.action.name, ·))) xs

/-- The claims that methods are bound by. -/
def bound (met : List (Claimant × Option Lifecycle)) : List Metadata.Claim :=
  met.filterMap fun (x, won) => won.map (x.action.name, ·)

lemma bound_append (as bs : List (Claimant × Option Lifecycle)) :
    bound (as ++ bs) = bound as ++ bound bs := List.filterMap_append

/-- The methods that have got no event, as actions. -/
def callable (met : List (Claimant × Option Lifecycle)) : List (String × Action) :=
  met.filterMap fun (x, won) => if won.isNone then some (x.action.name, x.action) else none

/-- Whether a place is that of a method. -/
def Place.isAction : Place → Bool
  | .action .. => true
  | .member _ => false

/-- One place for each decorator that asked in vain for an event: that of its method. -/
def refused (met : List (Claimant × Option Lifecycle)) : List Place :=
  met.flatMap fun (x, won) =>
    (othersThan won x.events).map fun _ => .action x.action.name x.action.span

lemma map_fst_outcomes (m : Metadata) (xs : List Claimant) :
    (outcomes m xs).map Prod.fst = xs := by
  induction xs generalizing m with
  | nil => rfl
  | cons x xs ih => rw [outcomes, List.map_cons, ih]

/-! ## What the outcome depends on -/

section congr

variable {m m' : Metadata}

lemma handlerOf?_congr (h : m.handlers = m'.handlers) (e : Lifecycle) :
    m.handlerOf? e = m'.handlerOf? e := by
  rw [Metadata.handlerOf?, Metadata.handlerOf?, h]

lemma offerAll_congr (h : m.handlers = m'.handlers) (cs : List Metadata.Claim) :
    (m.offerAll cs).handlers = (m'.offerAll cs).handlers := by
  induction cs generalizing m m' with
  | nil => exact h
  | cons c cs ih =>
    refine ih ?_
    rw [Metadata.offer_eq, Metadata.offer_eq, handlerOf?_congr h]
    split <;> simp [h]

lemma outcomes_congr (h : m.handlers = m'.handlers) (xs : List Claimant) :
    outcomes m xs = outcomes m' xs := by
  induction xs generalizing m m' with
  | nil => rfl
  | cons x xs ih =>
    have hfree : m.firstFree? x.events = m'.firstFree? x.events := by
      simp only [Metadata.firstFree?, handlerOf?_congr h]
    simp only [outcomes, hfree]
    rw [ih (offerAll_congr h _)]

end congr

lemma outcomes_append (m : Metadata) (xs ys : List Claimant) :
    outcomes m (xs ++ ys) = outcomes m xs ++ outcomes (m.offerAll (bound (outcomes m xs))) ys := by
  induction xs generalizing m with
  | nil => rfl
  | cons x xs ih =>
    rw [List.cons_append, outcomes, outcomes, ih, ← Metadata.offerAll_append, List.cons_append]
    cases m.firstFree? x.events <;> rfl

/-! ## The run of a class body -/

/-- Some members have made one store of another and found something, and the methods among them have
got events in a given way. -/
structure HandsOut (m m' : Metadata) (found : List Finding)
    (met : List (Claimant × Option Lifecycle)) : Prop where
  handlers : m'.handlers = (m.offerAll (bound met)).handlers
  actions : m'.actions = m.actions.insertAll (callable met)
  places : (found.map Finding.place).filter Place.isAction = refused met

lemma HandsOut.append {m m' m'' : Metadata} {found more : List Finding}
    {met met' : List (Claimant × Option Lifecycle)} (h : HandsOut m m' found met)
    (h' : HandsOut m' m'' more met') : HandsOut m m'' (found ++ more) (met ++ met') where
  handlers := by
    rw [h'.handlers, bound_append, Metadata.offerAll_append]
    exact offerAll_congr h.handlers _
  actions := by
    rw [h'.actions, h.actions, callable, callable, callable, List.filterMap_append]
    exact List.foldl_append.symm
  places := by
    rw [List.map_append, List.filter_append, h.places, h'.places, refused, refused, refused,
      List.flatMap_append]

/-- A member hands out at most the event that it gets itself. -/
lemma handsOut_addMember (ix : DecoratorIndex) (className : String) (all : List Member)
    (m : Metadata) (member : Member) :
    HandsOut m (addMember ix className all m member).1 (addMember ix className all m member).2
      (outcomes m (claimants ix m.file [member])) := by
  cases hx : Claimant.ofMember? ix m.file member with
  | none =>
    have hclaimants : claimants ix m.file [member] = [] := List.filterMap_cons_none hx
    obtain ⟨-, hhandlers, hactions, hplaces⟩ :=
      addMember_other ix className all m (Option.map_eq_none_iff.1 hx)
    rw [hclaimants]
    refine ⟨hhandlers, hactions, ?_⟩
    -- what is found in such a member is placed at the member, and not at an action
    show _ = []
    rw [List.filter_eq_nil_iff, List.forall_mem_map]
    intro f hf
    rw [hplaces f hf]
    exact Bool.false_ne_true
  | some x =>
    have hclaimants : claimants ix m.file [member] = [x] := List.filterMap_cons_some hx
    obtain ⟨hadd, hplaces, -⟩ := addMember_method className all hx
    rw [hclaimants]
    refine ⟨?_, ?_, ?_⟩
    · rw [hadd, outcomes]
      cases m.firstFree? x.events <;> rfl
    · rw [hadd, outcomes]
      cases m.firstFree? x.events with
      | none => rfl
      | some e => exact Metadata.actions_offer m _
    · rw [hplaces, List.filter_eq_self.2 (List.forall_mem_map.2 fun _ _ => rfl)]
      exact (List.append_nil _).symm

/-- The methods of a class body get their events one after the other, whatever stands between
them. -/
lemma handsOut_addMembers (ix : DecoratorIndex) (className : String) (all : List Member)
    (m : Metadata) (members : List Member) :
    HandsOut m (addMembers ix className all m members).1 (addMembers ix className all m members).2
      (outcomes m (claimants ix m.file members)) := by
  -- the store is general, since each member hands another one to the rest
  induction members generalizing m with
  | nil => exact ⟨rfl, rfl, rfl⟩
  | cons member rest ih =>
    have hstep := handsOut_addMember ix className all m member
    have hrest := ih (addMember ix className all m member).1
    have hclaimants : claimants ix m.file (member :: rest) =
        claimants ix m.file [member] ++ claimants ix m.file rest :=
      List.filterMap_append (l := [member])
    rw [(adds_addMember ix className all m member).head.file, outcomes_congr hstep.handlers]
      at hrest
    rw [addMembers, hclaimants, outcomes_append]
    exact hstep.append hrest

/-! ## Events that are kept -/

lemma handlerOf?_of_firstFree? {m : Metadata} {events : List Lifecycle} {e : Lifecycle}
    (h : m.firstFree? events = some e) : m.handlerOf? e = none := by
  simpa using List.find?_some h

/-- All claims that methods are bound by are accepted. -/
lemma accepted_bound (m : Metadata) (xs : List Claimant) :
    m.accepted (bound (outcomes m xs)) = bound (outcomes m xs) := by
  induction xs generalizing m with
  | nil => rfl
  | cons x xs ih =>
    cases hwon : m.firstFree? x.events with
    | none =>
      have hbound : bound (outcomes m (x :: xs)) = bound (outcomes m xs) := by
        simp [outcomes, hwon, bound, Metadata.offerAll]
      rw [hbound, ih]
    | some e =>
      have hbound : bound (outcomes m (x :: xs)) =
          (x.action.name, e) :: bound (outcomes (m.offer (x.action.name, e)) xs) := by
        simp [outcomes, hwon, bound, Metadata.offerAll]
      rw [hbound, Metadata.accepted_cons, if_pos (handlerOf?_of_firstFree? hwon), ih]

/-- What a method gets depends on the methods before it. -/
lemma outcomes_eq_append {m : Metadata} {xs : List Claimant} {x : Claimant}
    {won : Option Lifecycle} {before after : List (Claimant × Option Lifecycle)}
    (h : outcomes m xs = before ++ (x, won) :: after) :
    won = (m.offerAll (bound before)).firstFree? x.events ∧
      ∃ ys, after = outcomes (m.offerAll (bound (before ++ [(x, won)]))) ys := by
  have hxs : xs = before.map Prod.fst ++ x :: after.map Prod.fst := by
    rw [← map_fst_outcomes m xs, h, List.map_append, List.map_cons]
  have hlength : (outcomes m (before.map Prod.fst)).length = before.length := by
    rw [← List.length_map (f := Prod.fst), map_fst_outcomes, List.length_map]
  rw [hxs, outcomes_append] at h
  obtain ⟨hbefore, hrest⟩ := List.append_inj h hlength
  rw [hbefore, outcomes] at hrest
  obtain ⟨hhead, htail⟩ := List.cons.inj hrest
  obtain ⟨-, hwon⟩ := Prod.mk.inj hhead
  rw [hwon] at htail
  refine ⟨hwon.symm, after.map Prod.fst, htail.symm.trans ?_⟩
  rw [bound_append, Metadata.offerAll_append]
  cases won <;> rfl

/-- A method that has got an event handles it in the end exactly if no later method of its name ends
up with another one. -/
lemma handlerOf?_of_outcomes {m m' : Metadata} {xs : List Claimant}
    (hm' : m'.handlers = (m.offerAll (bound (outcomes m xs))).handlers) {x : Claimant}
    {e : Lifecycle} {before after : List (Claimant × Option Lifecycle)}
    (h : outcomes m xs = before ++ (x, some e) :: after) :
    m'.handlerOf? e = some x.action.name ↔
      ∀ last, Metadata.lastClaim? x.action.name (bound after) = some last → last = e := by
  obtain ⟨hwon, ys, hafter⟩ := outcomes_eq_append h
  have hfree := handlerOf?_of_firstFree? hwon.symm
  have hadd := Metadata.addHandler_of_free hfree x.action.name
  have hbound : bound (outcomes m xs) =
      bound (before ++ [(x, some e)]) ++ bound after := by
    rw [h, List.append_cons, bound_append]
  have hstate : (m.offerAll (bound before)).offer (x.action.name, e) =
      m.offerAll (bound (before ++ [(x, some e)])) := by
    rw [bound_append, Metadata.offerAll_append]
    rfl
  rw [handlerOf?_congr hm', hbound, Metadata.offerAll_append, ← hstate,
    Metadata.handlerOf?_offerAll_iff hadd, hstate, hafter, accepted_bound]

/-! ## The first-come matching -/

/-- The matching of methods with events, first come, first served: each method gets the first of its
events that no method before it has. -/
def matching (taken : List Lifecycle) : List Claimant → List (Claimant × Option Lifecycle)
  | [] => []
  | x :: xs =>
    let won := x.events.find? fun e => e ∉ taken
    (x, won) :: matching (taken ++ won.toList) xs

/-- The names of methods. -/
def names (xs : List Claimant) : List String := xs.map fun x => x.action.name

lemma map_fst_matching (taken : List Lifecycle) (xs : List Claimant) :
    (matching taken xs).map Prod.fst = xs := by
  induction xs generalizing taken with
  | nil => rfl
  | cons x xs ih => rw [matching, List.map_cons, ih]

/-- If no two methods have the same name, what they get is the first-come matching. -/
lemma outcomes_eq_matching {m : Metadata} {xs : List Claimant} {taken : List Lifecycle}
    (htaken : ∀ e, m.handlerOf? e = none ↔ e ∉ taken)
    (hnodup : (m.handlers.keys ++ names xs).Nodup) : outcomes m xs = matching taken xs := by
  -- a new name is a new entry, so what is taken stays taken: this is where the names matter
  induction xs generalizing m taken with
  | nil => rfl
  | cons x xs ih =>
    have hfirst : m.firstFree? x.events = x.events.find? fun e => e ∉ taken := by
      rw [Metadata.firstFree?]
      congr 1
      funext e
      rw [Bool.eq_iff_iff, Option.isNone_iff_eq_none, htaken, decide_eq_true_iff]
    have hsplit : (m.handlers.keys ++ [x.action.name] ++ names xs).Nodup := by
      rwa [List.append_assoc]
    rw [outcomes, matching, hfirst]
    congr 1
    cases hwon : x.events.find? fun e => e ∉ taken with
    | none =>
      have hrest : (m.handlers.keys ++ names xs).Nodup :=
        ((List.sublist_append_left _ _).append_right _).nodup hsplit
      show outcomes m xs = matching (taken ++ []) xs
      rw [List.append_nil]
      exact ih htaken hrest
    | some e =>
      have hfree : m.handlerOf? e = none := handlerOf?_of_firstFree? (hfirst.trans hwon)
      have hnew : x.action.name ∉ m.handlers.keys := fun h =>
        (List.nodup_append.1 hnodup).2.2 _ h _ List.mem_cons_self rfl
      refine ih ?_ ?_
      · intro e'
        refine (Metadata.handlerOf?_offer_of_new hfree hnew e').trans ?_
        rw [htaken, Option.toList_some, List.mem_append, List.mem_singleton, not_or]
      · show ((m.offer (x.action.name, e)).handlers.keys ++ names xs).Nodup
        rwa [OrderedMap.keys, Metadata.entries_offer_of_new hfree hnew, List.map_append]

/-- A store whose methods are split by a matching: one that has got an event handles it, any other
one is an action. -/
structure IsSplitBy (m : Metadata) (met : List (Claimant × Option Lifecycle)) : Prop where
  handlers : m.handlers.entries = bound met
  actions : m.actions.entries = callable met
  unbound : ∀ e ∈ m.actions.entries, e.2.event = none
  mem_handlers : ∀ x won, (x, won) ∈ met → (x.action.name ∈ m.handlers.keys ↔ won.isSome = true)
  mem_actions : ∀ x won, (x, won) ∈ met → (x.action.name ∈ m.actions.keys ↔ won.isSome = false)

/-- What two methods of different names get is told by their names. -/
lemma eq_of_mem_of_name_eq {met : List (Claimant × Option Lifecycle)}
    (hnodup : (names (met.map Prod.fst)).Nodup) {y z : Claimant × Option Lifecycle} (hy : y ∈ met)
    (hz : z ∈ met) (h : y.1.action.name = z.1.action.name) : y = z := by
  rw [names, List.map_map] at hnodup
  exact List.inj_on_of_nodup_map hnodup hy hz h

section picked

variable {α : Type} {pick : Claimant × Option Lifecycle → Option (String × α)}
  (hpick : ∀ y p, pick y = some p → p.1 = y.1.action.name)

include hpick

/-- Methods that are picked out, each under its name, keep their order. -/
lemma names_picked_sublist (met : List (Claimant × Option Lifecycle)) :
    ((met.filterMap pick).map Prod.fst).Sublist (names (met.map Prod.fst)) := by
  induction met with
  | nil => exact .slnil
  | cons y met ih =>
    cases hy : pick y with
    | none =>
      rw [List.filterMap_cons_none hy]
      exact ih.cons _
    | some p =>
      rw [List.filterMap_cons_some hy, List.map_cons, hpick y p hy]
      exact ih.cons_cons _

/-- Among methods of different names, the name of a method is picked out only with the method. -/
lemma mem_names_picked_iff {met : List (Claimant × Option Lifecycle)}
    (hnodup : (names (met.map Prod.fst)).Nodup) {y : Claimant × Option Lifecycle} (hy : y ∈ met) :
    y.1.action.name ∈ (met.filterMap pick).map Prod.fst ↔ (pick y).isSome = true := by
  constructor
  · intro h
    obtain ⟨p, hp, hname⟩ := List.mem_map.1 h
    obtain ⟨z, hz, hp⟩ := List.mem_filterMap.1 hp
    cases eq_of_mem_of_name_eq hnodup hz hy ((hpick z p hp).symm.trans hname)
    rw [hp]
    rfl
  · intro h
    obtain ⟨p, hp⟩ := Option.isSome_iff_exists.1 h
    exact List.mem_map.2 ⟨p, List.mem_filterMap.2 ⟨y, hy, hp⟩, hpick y p hp⟩

end picked

lemma name_of_bound (y : Claimant × Option Lifecycle) (c : Metadata.Claim)
    (h : y.2.map (y.1.action.name, ·) = some c) : c.1 = y.1.action.name := by
  obtain ⟨e, -, rfl⟩ := Option.map_eq_some_iff.1 h
  rfl

lemma name_of_callable (y : Claimant × Option Lifecycle) (p : String × Action)
    (h : (if y.2.isNone then some (y.1.action.name, y.1.action) else none) = some p) :
    p.1 = y.1.action.name := by
  split at h <;> cases h
  rfl

lemma isSplitBy_of_entries {m : Metadata} {met : List (Claimant × Option Lifecycle)}
    (hnodup : (names (met.map Prod.fst)).Nodup) (hunbound : ∀ x ∈ met, x.1.action.event = none)
    (hhandlers : m.handlers.entries = bound met) (hactions : m.actions.entries = callable met) :
    IsSplitBy m met where
  handlers := hhandlers
  actions := hactions
  unbound e he := by
    rw [hactions, callable, List.mem_filterMap] at he
    obtain ⟨⟨x, won⟩, hx, he⟩ := he
    cases won with
    | none =>
      cases he
      exact hunbound _ hx
    | some e' => cases he
  mem_handlers x won hx := by
    rw [OrderedMap.keys, hhandlers]
    refine (mem_names_picked_iff name_of_bound hnodup hx).trans ?_
    cases won <;> rfl
  mem_actions x won hx := by
    rw [OrderedMap.keys, hactions]
    refine (mem_names_picked_iff name_of_callable hnodup hx).trans ?_
    cases won <;> simp

/-! ## Whole classes -/

/-- The findings about methods are errors. -/
lemma map_severity_filter (found : List Finding) :
    (found.filter fun f => f.place.isAction).map (fun f => (f.severity, f.place)) =
      ((found.map Finding.place).filter Place.isAction).map (Report.Severity.error, ·) := by
  rw [List.filter_map, List.map_map]
  refine List.map_congr_left fun f hf => ?_
  have hplace := (List.mem_filter.1 hf).2
  obtain ⟨problem, place⟩ := f
  cases place with
  | member span => cases hplace
  | action name span => rfl

lemma handsOut_addClass (ix : DecoratorIndex) (m : Metadata) (c : ClassDeclaration) :
    HandsOut m (m.addClass ix c).1 (m.addClass ix c).2
      (outcomes m (claimants ix m.file c.members)) := by
  have hbegin : (m.beginClass c.name c.span).handlers = m.handlers := rfl
  have hmembers := handsOut_addMembers ix c.name c.members (m.beginClass c.name c.span) c.members
  rw [outcomes_congr hbegin] at hmembers
  exact ⟨hmembers.handlers.trans (offerAll_congr hbegin _), hmembers.actions, hmembers.places⟩

/-- The decorators that asked in vain are reported as errors, one by one. -/
lemma HandsOut.errors {m m' : Metadata} {found : List Finding}
    {met : List (Claimant × Option Lifecycle)} (h : HandsOut m m' found met) :
    ((found.filter fun f => f.place.isAction).map fun f => (f.severity, f.place)) =
      (refused met).map (Report.Severity.error, ·) := by
  rw [map_severity_filter]
  exact congrArg _ h.places

namespace Sample

open Syntax (Module TopLevel)

/-- A source, and the directory that it is in. -/
def file : Path := .ofString "/S.ts"

def directories : Directories := ⟨.ofString "/", .ofString "/"⟩

/-- A store before its class is looked at. -/
def blank : Metadata := .ofFile directories file

/-- The source with a given text. -/
def module (text : String) : Module := .read file text.toList

/-- The store classes in a text. -/
def classes (text : String) : List ClassDeclaration :=
  Extraction.storeClasses (TopLevel.ofRoot (module text).root)

/-- Three methods that claim two events. -/
def contested : String :=
  "class S extends Store()\x7b@OnInit()@AfterAll()a()\x7b\x7d@Lib.oninit b()\x7b\x7d" ++
    "@AfterAll c()\x7b\x7d\x7d"

/-- Two methods of one name that claim different events. -/
def namesakes : String :=
  "class S extends Store()\x7b@OnInit()static a()\x7b\x7d@BeforeAll()a()\x7b\x7d" ++
    "get state()\x7breturn\x7b\x7d\x7d\x7dexport const s=new S()"

end Sample

/-- A method that has got an event keeps it exactly as long as it gets no other one: this holds of
claims in general, and of the methods of a class body, where each further decorator that names an
event is reported as an error at its method. -/
theorem event_kept_iff (m : Metadata) :
    (∀ (method : String) (event : Lifecycle) (m' : Metadata) (cs : List Metadata.Claim),
      m.addHandler method event = .ok m' →
        ((m'.offerAll cs).handlerOf? event = some method ↔
          ∀ last, Metadata.lastClaim? method (m'.accepted cs) = some last → last = event)) ∧
    ∀ (ix : DecoratorIndex) (c : ClassDeclaration) (r : Recorder),
      let met := outcomes m (claimants ix m.file c.members)
      met.map Prod.fst = claimants ix m.file c.members ∧
      (r.inClass c.name c.span fun r => (m.addClass ix c).2.foldl Finding.record r).messages =
        r.messages ++ (m.addClass ix c).2.map (Finding.message r.subject) ∧
      (((m.addClass ix c).2.filter fun f => f.place.isAction).map fun f => (f.severity, f.place)) =
        (refused met).map (Report.Severity.error, ·) ∧
      ∀ before x e after, met = before ++ (x, some e) :: after →
        ((m.addClass ix c).1.handlerOf? e = some x.action.name ↔
          ∀ last, Metadata.lastClaim? x.action.name (bound after) = some last → last = e) := by
  refine ⟨fun method event m' cs h => Metadata.handlerOf?_offerAll_iff h cs, ?_⟩
  intro ix c r met
  have hclass := handsOut_addClass ix m c
  refine ⟨map_fst_outcomes m _, messages_inClass r c _, hclass.errors, ?_⟩
  intro before x e after hmet
  exact handlerOf?_of_outcomes hclass.handlers hmet

/-- Of the three methods the first one keeps its event, and so it does against a claim of another
method for another event. -/
theorem kept_of_contested :
    (∃ m, Sample.blank.addHandler "a" .onInit = .ok m ∧
      (m.offerAll [("b", .afterAll)]).handlerOf? .onInit = some "a") ∧
    ∃ c ∈ Sample.classes Sample.contested, ∃ x after,
      outcomes Sample.blank (claimants .empty Sample.file c.members) =
        [] ++ (x, some .onInit) :: after ∧ x.action.name = "a" ∧
      (Sample.blank.addClass .empty c).1.handlerOf? .onInit = some x.action.name := by
  obtain ⟨hclaims, hclasses⟩ := event_kept_iff Sample.blank
  have hadd : ∃ m, Sample.blank.addHandler "a" .onInit = .ok m ∧
      Metadata.lastClaim? "a" (m.accepted [("b", .afterAll)]) = none := ⟨_, rfl, by decide +kernel⟩
  have hfirst : ∃ c ∈ Sample.classes Sample.contested,
      let met := outcomes Sample.blank (claimants .empty Sample.file c.members)
      ∃ x ∈ claimants .empty Sample.file c.members, x.action.name = "a" ∧
        met.head? = some (x, some .onInit) ∧
        Metadata.lastClaim? x.action.name (bound met.tail) = none := by decide +kernel
  obtain ⟨m, hm, hlast⟩ := hadd
  obtain ⟨c, hc, x, -, hname, hhead, hrest⟩ := hfirst
  obtain ⟨after, hmet⟩ := List.head?_eq_some_iff.1 hhead
  rw [hmet, List.tail_cons] at hrest
  refine ⟨⟨m, hm, ?_⟩, c, hc, x, after, hmet, hname, ?_⟩
  · exact (hclaims _ _ _ _ hm).2 (by simp [hlast])
  · have hkept := (hclasses .empty c (.ofSubject ⟨Sample.file, []⟩)).2.2.2
    exact (hkept [] x .onInit after hmet).2 (by simp [hrest])

/-- A method loses its event to another one of the same name that gets another event, and nothing is
reported. -/
theorem overtaken_by_namesake :
    (∃ m m', Sample.blank.addHandler "a" .onInit = .ok m ∧
      m.addHandler "a" .beforeAll = .ok m' ∧ m'.handlerOf? .onInit = none) ∧
    (∃ c ∈ Sample.classes Sample.namesakes, ∃ x ∈ claimants .empty Sample.file c.members,
      Lifecycle.onInit ∈ x.events) ∧
    let read := Extraction.ofModule .empty Sample.directories (Sample.module Sample.namesakes)
    read.stores.map (fun m => m.handlerOf? .onInit) = [none] ∧ read.diagnostics = [] := by
  refine ⟨⟨_, _, rfl, rfl, by decide +kernel⟩, ?_⟩
  decide +kernel

/-- If no two methods of a class have the same name, they are split by the first-come matching, and
each decorator that asked in vain for an event is reported as one error at its method. -/
theorem addClass_matching (ix : DecoratorIndex) (dirs : Directories) (file : Path)
    (c : ClassDeclaration) (r : Recorder)
    (hnames : (names (claimants ix file c.members)).Nodup) :
    IsSplitBy ((Metadata.ofFile dirs file).addClass ix c).1
        (matching [] (claimants ix file c.members)) ∧
      (r.inClass c.name c.span fun r =>
          ((Metadata.ofFile dirs file).addClass ix c).2.foldl Finding.record r).messages =
        r.messages ++
          ((Metadata.ofFile dirs file).addClass ix c).2.map (Finding.message r.subject) ∧
      ((((Metadata.ofFile dirs file).addClass ix c).2.filter fun f => f.place.isAction).map
          fun f => (f.severity, f.place)) =
        (refused (matching [] (claimants ix file c.members))).map (Report.Severity.error, ·) := by
  -- in a new store no event has a handler yet
  have hmet : outcomes (Metadata.ofFile dirs file) (claimants ix file c.members) =
      matching [] (claimants ix file c.members) :=
    outcomes_eq_matching (fun _ => iff_of_true rfl List.not_mem_nil) hnames
  have hclass := handsOut_addClass ix (Metadata.ofFile dirs file) c
  have hhandlers := hclass.handlers
  rw [Metadata.handlers_offerAll, accepted_bound] at hhandlers
  have hfile : (Metadata.ofFile dirs file).file = file := rfl
  rw [hfile, hmet] at hclass hhandlers
  have hdistinct : (names ((matching [] (claimants ix file c.members)).map Prod.fst)).Nodup := by
    rwa [map_fst_matching]
  refine ⟨isSplitBy_of_entries hdistinct ?_ ?_ ?_, messages_inClass r c _, hclass.errors⟩
  · intro y hy
    have hclaimant := List.mem_map_of_mem (f := Prod.fst) hy
    rw [map_fst_matching] at hclaimant
    obtain ⟨member, -, hmember⟩ := List.mem_filterMap.1 hclaimant
    exact (action_of_ofMember? hmember).2
  · rw [hhandlers]
    exact OrderedMap.entries_ofList ((names_picked_sublist name_of_bound _).nodup hdistinct)
  · rw [hclass.actions]
    exact OrderedMap.entries_ofList ((names_picked_sublist name_of_callable _).nodup hdistinct)

/-- The first method gets the first event that it claims, the second one becomes an action, and the
third one gets the event that the first one has been refused. -/
theorem matching_of_contested : ∃ c ∈ Sample.classes Sample.contested,
    names (claimants .empty Sample.file c.members) = ["a", "b", "c"] ∧
    (matching [] (claimants .empty Sample.file c.members)).map Prod.snd =
      [some .onInit, none, some .afterAll] ∧
    IsSplitBy (Sample.blank.addClass .empty c).1
      (matching [] (claimants .empty Sample.file c.members)) := by
  have heval : ∃ c ∈ Sample.classes Sample.contested,
      names (claimants .empty Sample.file c.members) = ["a", "b", "c"] ∧
      (matching [] (claimants .empty Sample.file c.members)).map Prod.snd =
        [some .onInit, none, some .afterAll] := by decide +kernel
  obtain ⟨c, hc, hnames, hmet⟩ := heval
  have hnodup : (names (claimants .empty Sample.file c.members)).Nodup := by
    rw [hnames]
    decide
  exact ⟨c, hc, hnames, hmet, (addClass_matching .empty Sample.directories Sample.file c
    (.ofSubject ⟨Sample.file, []⟩) hnodup).1⟩

end StoreBindings.Store
