import Mathlib.Data.List.Forall2

/-!
# Steps that can fail

What is known of a step when the whole that it is part of has succeeded: of two steps one after the other
(`bind_eq_ok_iff`), and of one step for each element of a list (`mapM_eq_ok_iff`).
-/

namespace StoreBindings

/-! ## One step -/

/-- Of two steps that can fail, both succeed if the whole does. -/
theorem bind_eq_ok_iff {ε α β : Type} {x : Except ε α} {f : α → Except ε β} {b : β} :
    x >>= f = .ok b ↔ ∃ a, x = .ok a ∧ f a = .ok b := by
  cases x with
  | error e => simp [bind, Except.bind]
  | ok a => simp [bind, Except.bind]

lemma exists_of_isOk {ε α : Type} {x : Except ε α} (h : x.isOk = true) : ∃ a, x = .ok a := by
  cases x with
  | error e => cases h
  | ok a => exact ⟨a, rfl⟩

lemma eq_ok_of_isOk {ε : Type} {x : Except ε Unit} (h : x.isOk = true) : x = .ok () := by
  obtain ⟨u, hu⟩ := exists_of_isOk h
  exact hu

lemma exists_of_toOption_any {ε α : Type} {x : Except ε α} {p : α → Bool}
    (h : x.toOption.any p = true) : ∃ a, x = .ok a ∧ p a = true := by
  cases x with
  | error e => cases h
  | ok a => exact ⟨a, rfl, h⟩

/-! ## A step for each element of a list -/

/-- All steps succeed together exactly if each of them does. -/
theorem mapM_eq_ok_iff {ε α β : Type} {f : α → Except ε β} {l : List α} {bs : List β} :
    l.mapM f = .ok bs ↔ List.Forall₂ (fun a b => f a = .ok b) l bs := by
  induction l generalizing bs with
  | nil => simp [pure, Except.pure, eq_comm]
  | cons a l ih =>
    rw [List.mapM_cons, List.forall₂_cons_left_iff, bind_eq_ok_iff]
    constructor
    · rintro ⟨b, hb, h⟩
      obtain ⟨bs', hbs, h⟩ := bind_eq_ok_iff.1 h
      cases h
      exact ⟨b, bs', hb, ih.1 hbs, rfl⟩
    · rintro ⟨b, bs', hb, hbs, rfl⟩
      exact ⟨b, hb, bind_eq_ok_iff.2 ⟨bs', ih.2 hbs, rfl⟩⟩

/-- If each step goes through, all of them do. -/
lemma exists_mapM {ε α β : Type} {f : α → Except ε β} {l : List α}
    (h : ∀ a ∈ l, ∃ b, f a = .ok b) : ∃ bs, l.mapM f = .ok bs := by
  induction l with
  | nil => exact ⟨[], rfl⟩
  | cons a l ih =>
    obtain ⟨b, hb⟩ := h a List.mem_cons_self
    obtain ⟨bs, hbs⟩ := ih fun a' ha' => h a' (List.mem_cons_of_mem _ ha')
    exact ⟨b :: bs, mapM_eq_ok_iff.2 (.cons hb (mapM_eq_ok_iff.1 hbs))⟩

/-- Of several steps that all succeed each one does. -/
lemma exists_of_mem_mapM {ε α β : Type} {f : α → Except ε β} {l : List α} {bs : List β}
    (h : l.mapM f = .ok bs) {a : α} (ha : a ∈ l) : ∃ b, f a = .ok b := by
  induction l generalizing bs with
  | nil => cases ha
  | cons a' l ih =>
    obtain ⟨b, bs', hb, hbs, rfl⟩ := List.forall₂_cons_left_iff.1 (mapM_eq_ok_iff.1 h)
    rcases List.mem_cons.1 ha with rfl | ha
    · exact ⟨b, hb⟩
    · exact ih (mapM_eq_ok_iff.2 hbs) ha

/-- If each step goes through in another way too, with a related result, all of them do. -/
lemma exists_mapM_of_ok {ε α β γ : Type} {R : β → γ → Prop} {f : α → Except ε β}
    {g : α → Except ε γ} {l : List α} {bs : List β} (h : l.mapM f = .ok bs)
    (hstep : ∀ a ∈ l, ∀ b, f a = .ok b → ∃ c, g a = .ok c ∧ R b c) :
    ∃ cs, l.mapM g = .ok cs ∧ List.Forall₂ R bs cs := by
  induction l generalizing bs with
  | nil =>
    cases h
    exact ⟨[], rfl, .nil⟩
  | cons a l ih =>
    obtain ⟨b, bs', hb, hbs, rfl⟩ := List.forall₂_cons_left_iff.1 (mapM_eq_ok_iff.1 h)
    obtain ⟨c, hc, hR⟩ := hstep a List.mem_cons_self b hb
    obtain ⟨cs, hcs, hall⟩ := ih (mapM_eq_ok_iff.2 hbs) fun a' ha' =>
      hstep a' (List.mem_cons_of_mem _ ha')
    exact ⟨c :: cs, mapM_eq_ok_iff.2 (.cons hc (mapM_eq_ok_iff.1 hcs)), .cons hR hall⟩

/-- What several steps find is what one of them finds. -/
lemma mem_flatten_of_mapM {ε α β : Type} {f : α → Except ε (List β)} {l : List α}
    {bs : List (List β)} (h : l.mapM f = .ok bs) (x : β) :
    x ∈ bs.flatten ↔ ∃ a ∈ l, ∃ b, f a = .ok b ∧ x ∈ b := by
  induction l generalizing bs with
  | nil =>
    cases h
    simp
  | cons a l ih =>
    obtain ⟨b, bs', hb, hbs, rfl⟩ := List.forall₂_cons_left_iff.1 (mapM_eq_ok_iff.1 h)
    simp only [List.flatten_cons, List.mem_append, ih (mapM_eq_ok_iff.2 hbs),
      List.exists_mem_cons_iff, hb, Except.ok.injEq, exists_eq_left']

end StoreBindings
