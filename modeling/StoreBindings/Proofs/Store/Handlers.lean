import StoreBindings.Proofs.OrderedMap
import StoreBindings.Store.Metadata

/-!
# Who handles an event

An event that is handled cannot be claimed by another method, but the method that handles it may
claim another event, and then it handles that one instead: there is one event for each method.
So a method that has got an event keeps it exactly as long as no further claim of the same method is
accepted, or until it gets the event back: `handlerOf?_offerAll_iff`.

* `offer`, `offerAll`, `accepted` — claims one after the other, and those of them that are accepted.
* `IsSole` — at most one method handles an event; this is so from the first accepted claim on.
-/

namespace StoreBindings.Store.Metadata

variable {m m' : Metadata} {method : String} {event : Lifecycle}

/-- A method and the event that it claims. -/
abbrev Claim := String × Lifecycle

/-- A claim; one that is refused changes nothing. -/
def offer (m : Metadata) (c : Claim) : Metadata :=
  match m.addHandler c.1 c.2 with
  | .ok m' => m'
  | .error _ => m

/-- Claims one after the other. -/
def offerAll (m : Metadata) (cs : List Claim) : Metadata := cs.foldl offer m

/-- Those of several claims that are accepted. -/
def accepted (m : Metadata) : List Claim → List Claim
  | [] => []
  | c :: cs =>
    match m.addHandler c.1 c.2 with
    | .ok m' => c :: m'.accepted cs
    | .error _ => m.accepted cs

/-- The event of the last claim of a method. -/
def lastClaim? (method : String) (cs : List Claim) : Option Lifecycle :=
  (cs.filter fun c => c.1 = method).getLast?.map Prod.snd

/-! ## One claim -/

/-- An event is free if no method has it. -/
lemma handlerOf?_eq_none_iff :
    m.handlerOf? event = none ↔ ∀ name, (name, event) ∉ m.handlers.entries := by
  rw [handlerOf?, Option.map_eq_none_iff, List.find?_eq_none]
  constructor
  · intro h name hname
    exact h _ hname (by simp)
  · rintro h ⟨name, e⟩ he heq
    exact h name (by simpa using (beq_iff_eq.1 heq) ▸ he)

/-- The method that handles an event has it. -/
lemma mem_of_handlerOf? (h : m.handlerOf? event = some method) :
    (method, event) ∈ m.handlers.entries := by
  obtain ⟨⟨name, e⟩, hfind, rfl⟩ := Option.map_eq_some_iff.1 h
  have he : e = event := by simpa using List.find?_some hfind
  exact he ▸ List.mem_of_find?_eq_some hfind

/-- A claim is accepted if the event is free, and then the method has it. -/
lemma addHandler_eq_ok_iff : m.addHandler method event = .ok m' ↔
    m.handlerOf? event = none ∧ m' = { m with handlers := m.handlers.insert method event } := by
  unfold addHandler
  split
  · next h => simp [h]
  · next h => simp [h, eq_comm]

/-- A claim that is accepted is made. -/
lemma offer_of_ok (h : m.addHandler method event = .ok m') : m.offer (method, event) = m' := by
  rw [offer, h]

/-- An event that is free is handed out. -/
lemma addHandler_of_free (h : m.handlerOf? event = none) (method : String) :
    m.addHandler method event = .ok (m.offer (method, event)) := by
  have hadd : m.addHandler method event = .ok _ := addHandler_eq_ok_iff.2 ⟨h, rfl⟩
  rw [offer_of_ok hadd, hadd]

/-- A claim takes effect if its event is free, and changes nothing otherwise. -/
lemma offer_eq (m : Metadata) (c : Claim) : m.offer c =
    if m.handlerOf? c.2 = none then { m with handlers := m.handlers.insert c.1 c.2 } else m := by
  rw [offer]
  split
  · next h => rw [if_pos (addHandler_eq_ok_iff.1 h).1, (addHandler_eq_ok_iff.1 h).2]
  · next h =>
    rw [if_neg]
    rw [(addHandler_eq_error_iff ..).1 h]
    exact Option.some_ne_none _

/-- The first claim is accepted if its event is free. -/
lemma accepted_cons (m : Metadata) (c : Claim) (cs : List Claim) : m.accepted (c :: cs) =
    if m.handlerOf? c.2 = none then c :: (m.offer c).accepted cs else (m.offer c).accepted cs := by
  rw [accepted, offer]
  split
  · next h => rw [if_pos (addHandler_eq_ok_iff.1 h).1]
  · next h =>
    rw [if_neg]
    rw [(addHandler_eq_error_iff ..).1 h]
    exact Option.some_ne_none _

lemma actions_offer (m : Metadata) (c : Claim) : (m.offer c).actions = m.actions := by
  rw [offer_eq]
  split <;> rfl

/-- A new method that gets an event is one more entry. -/
lemma entries_offer_of_new (hfree : m.handlerOf? event = none) (hnew : method ∉ m.handlers.keys) :
    (m.offer (method, event)).handlers.entries = m.handlers.entries ++ [(method, event)] := by
  rw [offer_eq, if_pos hfree, OrderedMap.entries_insert_of_notMem hnew]

/-- A new method takes no event from anybody. -/
lemma handlerOf?_offer_of_new (hfree : m.handlerOf? event = none)
    (hnew : method ∉ m.handlers.keys) (e : Lifecycle) :
    (m.offer (method, event)).handlerOf? e = none ↔ m.handlerOf? e = none ∧ e ≠ event := by
  rw [handlerOf?_eq_none_iff, handlerOf?_eq_none_iff, entries_offer_of_new hfree hnew]
  simp only [List.mem_append, List.mem_singleton, not_or, Prod.mk.injEq, forall_and, not_and]
  simp

/-! ## One handler for each event -/

/-- At most one method handles an event. -/
def IsSole (m : Metadata) (event : Lifecycle) : Prop :=
  ∀ ⦃name name'⦄, (name, event) ∈ m.handlers.entries → (name', event) ∈ m.handlers.entries →
    name = name'

/-- The only method with an event handles it. -/
lemma IsSole.handlerOf?_eq_some_iff (h : m.IsSole event) :
    m.handlerOf? event = some method ↔ m.handlers.get? method = some event := by
  rw [OrderedMap.get?_eq_some_iff]
  refine ⟨mem_of_handlerOf?, fun hmem => ?_⟩
  cases hhandler : m.handlerOf? event with
  | none => exact absurd hmem (handlerOf?_eq_none_iff.1 hhandler method)
  | some name => rw [h (mem_of_handlerOf? hhandler) hmem]

/-- An event that is free is handled by nobody else after it has been claimed. -/
lemma isSole_insert (h : m.handlerOf? event = none) (method : String) :
    { m with handlers := m.handlers.insert method event }.IsSole event := by
  have hself : ∀ {name},
      (name, event) ∈ (m.handlers.insert method event).entries → name = method := by
    intro name hname
    rcases OrderedMap.mem_entries_insert.1 hname with ⟨rfl, -⟩ | ⟨-, hold⟩
    · rfl
    · exact absurd hold (handlerOf?_eq_none_iff.1 h name)
  exact fun name name' hname hname' => (hself hname).trans (hself hname').symm

/-- A claim does not give an event to a second method. -/
theorem IsSole.offer (h : m.IsSole event) (c : Claim) : (m.offer c).IsSole event := by
  rw [offer_eq]
  split
  · next hfree =>
    by_cases hc : c.2 = event
    · subst hc
      exact isSole_insert hfree c.1
    · -- who handles the event now has handled it before
      intro name name' hname hname'
      have hold : ∀ {n}, (n, event) ∈ (m.handlers.insert c.1 c.2).entries →
          (n, event) ∈ m.handlers.entries := by
        intro n hn
        rcases OrderedMap.mem_entries_insert.1 hn with ⟨-, he⟩ | ⟨-, he⟩
        · exact absurd he.symm hc
        · exact he
      exact h (hold hname) (hold hname')
  · exact h

/-- Neither do many claims. -/
theorem IsSole.offerAll (h : m.IsSole event) (cs : List Claim) : (m.offerAll cs).IsSole event := by
  induction cs generalizing m with
  | nil => exact h
  | cons c cs ih => exact ih (h.offer c)

/-! ## Many claims -/

lemma offerAll_append (m : Metadata) (cs ds : List Claim) :
    m.offerAll (cs ++ ds) = (m.offerAll cs).offerAll ds := List.foldl_append

/-- The claims that are accepted are inserted one after the other. -/
lemma handlers_offerAll (m : Metadata) (cs : List Claim) :
    (m.offerAll cs).handlers = m.handlers.insertAll (m.accepted cs) := by
  induction cs generalizing m with
  | nil => rfl
  | cons c cs ih =>
    show ((m.offer c).offerAll cs).handlers = _
    rw [ih, accepted_cons, offer_eq]
    split <;> rfl

/-- The last claim of a method is among its later ones, if there are any. -/
lemma lastClaim?_cons (method : String) (c : Claim) (cs : List Claim) :
    lastClaim? method (c :: cs) =
      if c.1 = method then some ((lastClaim? method cs).getD c.2) else lastClaim? method cs := by
  unfold lastClaim?
  by_cases h : c.1 = method
  · rw [List.filter_cons_of_pos (by simpa using h), List.getLast?_cons, if_pos h]
    cases (cs.filter fun c => c.1 = method).getLast? <;> rfl
  · rw [List.filter_cons_of_neg (by simpa using h), if_neg h]

/-- A method has the event of its last claim that was accepted, else the one that it had. -/
lemma get?_handlers_offerAll (m : Metadata) (cs : List Claim) (method : String) :
    (m.offerAll cs).handlers.get? method =
      (lastClaim? method (m.accepted cs)).or (m.handlers.get? method) := by
  induction cs generalizing m with
  | nil => rfl
  | cons c cs ih =>
    show ((m.offer c).offerAll cs).handlers.get? method = _
    rw [ih, accepted_cons, offer_eq]
    split
    · rw [lastClaim?_cons, OrderedMap.get?_insert]
      by_cases h : c.1 = method
      · rw [if_pos h.symm, if_pos h]
        cases lastClaim? method _ <;> rfl
      · rw [if_neg (Ne.symm h), if_neg h]
    · rfl

/-- A method that has got an event handles it after further claims exactly if its own last claim
since then that was accepted, if there is any, was for the same event. -/
theorem handlerOf?_offerAll_iff (h : m.addHandler method event = .ok m') (cs : List Claim) :
    (m'.offerAll cs).handlerOf? event = some method ↔
      ∀ last, lastClaim? method (m'.accepted cs) = some last → last = event := by
  obtain ⟨hfree, rfl⟩ := addHandler_eq_ok_iff.1 h
  rw [((isSole_insert hfree method).offerAll cs).handlerOf?_eq_some_iff, get?_handlers_offerAll,
    OrderedMap.get?_insert_self]
  cases lastClaim? method _ <;> simp

end StoreBindings.Store.Metadata
