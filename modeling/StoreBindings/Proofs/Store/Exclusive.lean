import StoreBindings.Proofs.Store.Members

/-!
# One handler for each event

Whatever is done to a store, in whatever order, no two of its methods handle one event. So a claim is
refused exactly if some method handles the event at that moment, and a claim that is refused leaves the
store as it is: `exclusive_performAll`.

An event that is accepted may replace the event that the method had before. That frees an event, but
takes none from another method, so `IsSole` is kept by each operation on its own.
-/

namespace StoreBindings.Store.Metadata

open Syntax (Member ClassDeclaration Instance Span)

/-- What is done to a store until code is generated for it. -/
inductive Operation
  | beginClass (name : String) (span : Span)
  | addHandler (method : String) (event : Lifecycle)
  | addClass (ix : DecoratorIndex) (c : ClassDeclaration)
  | resolveExport (instances : List Instance)
  | settle

/-- Do something to a store; a claim that is refused changes nothing. -/
def perform (m : Metadata) : Operation → Metadata
  | .beginClass name span => m.beginClass name span
  | .addHandler method event => m.offer (method, event)
  | .addClass ix c => (m.addClass ix c).1
  | .resolveExport instances => m.resolveExport instances
  | .settle => m.settle

/-- Do several things to a store, one after the other. -/
def performAll (m : Metadata) (ops : List Operation) : Metadata := ops.foldl perform m

variable {m m' : Metadata} {event : Lifecycle}

/-! ## One operation -/

lemma IsSole.congr (h : m.IsSole event) (hhandlers : m'.handlers = m.handlers) :
    m'.IsSole event := by
  unfold IsSole
  rw [hhandlers]
  exact h

/-- A member is given at most one event. -/
lemma IsSole.addMember (h : m.IsSole event) (ix : DecoratorIndex) (className : String)
    (members : List Member) (member : Member) :
    (addMember ix className members m member).1.IsSole event := by
  cases hname : actionName? member with
  | none => exact h.congr (addMember_other ix className members m hname).2.1
  | some name =>
    obtain ⟨x, hx⟩ : ∃ x, Claimant.ofMember? ix m.file member = some x := by
      simp [Claimant.ofMember?, hname]
    rw [(addMember_method className members hx).1]
    cases m.firstFree? x.events with
    | some e => exact h.offer _
    | none => exact h.congr rfl

lemma IsSole.addMembers (h : m.IsSole event) (ix : DecoratorIndex) (className : String)
    (all members : List Member) : (addMembers ix className all m members).1.IsSole event := by
  induction members generalizing m with
  | nil => exact h
  | cons member rest ih =>
    rw [Store.addMembers]
    exact ih (h.addMember ix className all member)

lemma IsSole.perform (h : m.IsSole event) (op : Operation) : (m.perform op).IsSole event := by
  cases op with
  | beginClass name span => exact h.congr rfl
  | addHandler method event' => exact h.offer _
  | addClass ix c =>
    have hbegun : (m.beginClass c.name c.span).IsSole event := h.congr rfl
    exact hbegun.addMembers ix c.name c.members c.members
  | resolveExport instances =>
    refine h.congr ?_
    show (m.resolveExport instances).handlers = m.handlers
    unfold resolveExport
    split <;> rfl
  | settle => exact h.congr rfl

/-! ## Many operations -/

lemma IsSole.performAll (h : m.IsSole event) (ops : List Operation) :
    (m.performAll ops).IsSole event := by
  induction ops generalizing m with
  | nil => exact h
  | cons op ops ih => exact ih (h.perform op)

lemma isSole_ofFile (dirs : Directories) (file : Path) (event : Lifecycle) :
    (ofFile dirs file).IsSole event :=
  fun _ _ hname => absurd hname List.not_mem_nil

/-- Whatever is done to a store, at most one method handles an event. A claim is refused exactly if some
method handles the event, and then the store stays as it is. Else the method is bound to the event, and
nothing else changes. -/
theorem exclusive_performAll (dirs : Directories) (file : Path) (ops : List Operation) :
    let m := (ofFile dirs file).performAll ops
    (∀ event, m.IsSole event) ∧
      ∀ method event,
        ((∃ refusal, m.addHandler method event = .error refusal) ↔
          ∃ name, m.handlers.get? name = some event) ∧
        (∀ refusal, m.addHandler method event = .error refusal →
          m.perform (.addHandler method event) = m) ∧
        ∀ m', m.addHandler method event = .ok m' →
          m.perform (.addHandler method event) = m' ∧
            m' = { m with handlers := m.handlers.insert method event } := by
  intro m
  have hsole : ∀ event, m.IsSole event := fun event => (isSole_ofFile dirs file event).performAll ops
  refine ⟨hsole, fun method event => ⟨?_, fun refusal h => ?_, fun m' h => ?_⟩⟩
  · constructor
    · rintro ⟨refusal, h⟩
      have hhandler := (addHandler_eq_error_iff m method event refusal).1 h
      exact ⟨refusal.handler, (hsole event).handlerOf?_eq_some_iff.1 hhandler⟩
    · rintro ⟨name, h⟩
      have hhandler := (hsole event).handlerOf?_eq_some_iff.2 h
      exact ⟨⟨name⟩, (addHandler_eq_error_iff m method event ⟨name⟩).2 hhandler⟩
  · show m.offer (method, event) = m
    rw [offer, h]
  · exact ⟨offer_of_ok h, (addHandler_eq_ok_iff.1 h).2⟩

/-- A method that is given another event leaves its own one to others. -/
example : ((ofFile ⟨⟨[]⟩, ⟨[]⟩⟩ ⟨[]⟩).performAll
    [.addHandler "boot" .onInit, .addHandler "boot" .afterAll, .addHandler "load" .onInit,
      .addHandler "stop" .afterAll]).handlers.entries =
    [("boot", .afterAll), ("load", .onInit)] := by
  decide +kernel

end StoreBindings.Store.Metadata
