/-!
# Maps that remember the order of insertion

A finite map as the list of its entries, in the order in which the keys were first inserted.
Inserting at a key that is there already replaces the value and keeps the place. No key occurs
twice; the type says so.

* `get?_insert_self`, `get?_insert_of_ne` — what a look-up finds after an insertion.
* `keys_insert` — the keys after an insertion: the old ones, and the new one at the end if it was
  not among them.
-/

namespace StoreBindings

/-- A finite map whose entries stand in the order of first insertion. -/
structure OrderedMap (κ : Type) (α : Type) where
  entries : List (κ × α)
  distinct : (entries.map Prod.fst).Nodup
deriving DecidableEq, Repr

namespace OrderedMap

variable {κ α : Type} [DecidableEq κ]

/-- The map without entries. -/
def empty : OrderedMap κ α := ⟨[], List.nodup_nil⟩

instance : EmptyCollection (OrderedMap κ α) := ⟨empty⟩

instance : Inhabited (OrderedMap κ α) := ⟨empty⟩

def keys (m : OrderedMap κ α) : List κ := m.entries.map Prod.fst

def values (m : OrderedMap κ α) : List α := m.entries.map Prod.snd

def size (m : OrderedMap κ α) : Nat := m.entries.length

def isEmpty (m : OrderedMap κ α) : Bool := m.entries.isEmpty

/-- The value at a key in a list of entries. -/
def lookup (k : κ) : List (κ × α) → Option α
  | [] => none
  | (k', v) :: rest => if k' = k then some v else lookup k rest

/-- The value at a key. -/
def get? (m : OrderedMap κ α) (k : κ) : Option α := lookup k m.entries

/-- Whether there is an entry at a key. -/
def contains (m : OrderedMap κ α) (k : κ) : Bool := (m.get? k).isSome

/-- The entries with the value at a key replaced, or with a new entry at the end. -/
def put (k : κ) (v : α) : List (κ × α) → List (κ × α)
  | [] => [(k, v)]
  | (k', v') :: rest => if k' = k then (k', v) :: rest else (k', v') :: put k v rest

/-- The keys after `put`: nothing is moved, and a new key goes to the end. -/
theorem keys_put (k : κ) (v : α) (es : List (κ × α)) :
    (put k v es).map Prod.fst =
      if k ∈ es.map Prod.fst then es.map Prod.fst else es.map Prod.fst ++ [k] := by
  induction es with
  | nil => simp [put]
  | cons e rest ih =>
    obtain ⟨k', v'⟩ := e
    simp only [put]
    by_cases h : k' = k
    · simp [h]
    · have h' : ¬ k = k' := fun e => h e.symm
      simp only [h, if_false, List.map_cons, ih, List.mem_cons, h', false_or]
      split <;> simp

/-- Insert a value at a key. -/
def insert (m : OrderedMap κ α) (k : κ) (v : α) : OrderedMap κ α :=
  ⟨put k v m.entries, by
    rw [keys_put]
    split
    · exact m.distinct
    · next h =>
      rw [List.nodup_append]
      refine ⟨m.distinct, by simp, ?_⟩
      intro a ha b hb
      simp only [List.mem_singleton] at hb
      exact fun e => h (hb ▸ e ▸ ha)⟩

/-- Remove the entry at a key. -/
def erase (m : OrderedMap κ α) (k : κ) : OrderedMap κ α :=
  ⟨m.entries.filter fun e => e.1 ≠ k,
    (List.filter_sublist.map Prod.fst).nodup m.distinct⟩

/-- Insert entries one after the other. -/
def insertAll (m : OrderedMap κ α) (es : List (κ × α)) : OrderedMap κ α :=
  es.foldl (fun m e => m.insert e.1 e.2) m

/-- The map of a list of entries; of several values at one key the last one stays. -/
def ofList (es : List (κ × α)) : OrderedMap κ α := insertAll empty es

/-! ## What the operations do to keys and look-ups -/

omit [DecidableEq κ] in
@[simp] theorem entries_empty : (empty : OrderedMap κ α).entries = [] := rfl

/-- A key that is there keeps its place, and a new one goes to the end. -/
theorem keys_insert (m : OrderedMap κ α) (k : κ) (v : α) :
    (m.insert k v).keys = if k ∈ m.keys then m.keys else m.keys ++ [k] :=
  keys_put k v m.entries

/-- The keys are the old ones and the one that is inserted. -/
@[simp] theorem mem_keys_insert (m : OrderedMap κ α) (k k' : κ) (v : α) :
    k' ∈ (m.insert k v).keys ↔ k' ∈ m.keys ∨ k' = k := by
  rw [keys_insert]
  split
  · next h => exact ⟨Or.inl, fun h' => h'.elim id fun e => e ▸ h⟩
  · simp

theorem lookup_put_self (k : κ) (v : α) (es : List (κ × α)) : lookup k (put k v es) = some v := by
  induction es with
  | nil => simp [put, lookup]
  | cons e rest ih =>
    simp only [put]
    split
    · next h => simp [lookup, h]
    · next h => simp [lookup, h, ih]

theorem lookup_put_of_ne {k k' : κ} (h : k' ≠ k) (v : α) (es : List (κ × α)) :
    lookup k' (put k v es) = lookup k' es := by
  induction es with
  | nil => simp [put, lookup, h.symm]
  | cons e rest ih =>
    simp only [put]
    split
    · next he => simp [lookup, he, h.symm]
    · simp [lookup, ih]

@[simp] theorem get?_empty (k : κ) : (empty : OrderedMap κ α).get? k = none := rfl

/-- What has been inserted is found. -/
@[simp] theorem get?_insert_self (m : OrderedMap κ α) (k : κ) (v : α) :
    (m.insert k v).get? k = some v := lookup_put_self k v m.entries

/-- What is at other keys is found as before. -/
theorem get?_insert_of_ne (m : OrderedMap κ α) {k k' : κ} (h : k' ≠ k) (v : α) :
    (m.insert k v).get? k' = m.get? k' := lookup_put_of_ne h v m.entries

/-- A value that is there already is inserted without effect. -/
theorem put_of_lookup {k : κ} {v : α} {es : List (κ × α)} (h : lookup k es = some v) :
    put k v es = es := by
  induction es with
  | nil => simp [lookup] at h
  | cons e rest ih =>
    obtain ⟨k', v'⟩ := e
    simp only [lookup] at h
    simp only [put]
    split
    · next he =>
      rw [if_pos he] at h
      rw [Option.some.inj h]
    · next he =>
      rw [if_neg he] at h
      rw [ih h]

/-- Of two insertions at one key the later one counts. -/
theorem put_put (k : κ) (v w : α) (es : List (κ × α)) : put k w (put k v es) = put k w es := by
  induction es with
  | nil => simp [put]
  | cons e rest ih =>
    obtain ⟨k', v'⟩ := e
    by_cases h : k' = k
    · simp [put, h]
    · simp [put, h, ih]

/-- A value that is there already is inserted without effect. -/
theorem insert_of_get? {m : OrderedMap κ α} {k : κ} {v : α} (h : m.get? k = some v) :
    m.insert k v = m := by
  obtain ⟨es, hd⟩ := m
  simp only [insert, put_of_lookup h]

/-- Of two values that are inserted at one key the later one counts. -/
theorem insert_insert (m : OrderedMap κ α) (k : κ) (v w : α) :
    (m.insert k v).insert k w = m.insert k w := by
  simp only [insert, put_put]

theorem lookup_filter_of_ne {k k' : κ} (h : k' ≠ k) (es : List (κ × α)) :
    lookup k' (es.filter fun e => e.1 ≠ k) = lookup k' es := by
  induction es with
  | nil => rfl
  | cons e rest ih =>
    obtain ⟨k₁, v⟩ := e
    by_cases h₁ : k₁ = k
    · have h₂ : ¬k₁ = k' := fun he => h (he.symm.trans h₁)
      rw [List.filter_cons_of_neg (by simpa using h₁), lookup, if_neg h₂, ih]
    · rw [List.filter_cons_of_pos (by simpa using h₁), lookup, lookup, ih]

/-- What is at other keys stays when an entry is removed. -/
theorem get?_erase_of_ne (m : OrderedMap κ α) {k k' : κ} (h : k' ≠ k) :
    (m.erase k).get? k' = m.get? k' := lookup_filter_of_ne h m.entries

theorem lookup_filter_self (k : κ) (es : List (κ × α)) :
    lookup k (es.filter fun e => e.1 ≠ k) = none := by
  induction es with
  | nil => rfl
  | cons e rest ih =>
    obtain ⟨k₁, v⟩ := e
    by_cases h : k₁ = k
    · rw [List.filter_cons_of_neg (by simpa using h), ih]
    · rw [List.filter_cons_of_pos (by simpa using h), lookup, if_neg h, ih]

/-- What has been removed is not found. -/
theorem get?_erase_self (m : OrderedMap κ α) (k : κ) : (m.erase k).get? k = none :=
  lookup_filter_self k m.entries

/-- What a look-up finds is among the entries. -/
theorem mem_of_lookup {k : κ} {v : α} {es : List (κ × α)} (h : lookup k es = some v) :
    (k, v) ∈ es := by
  induction es with
  | nil => simp [lookup] at h
  | cons e rest ih =>
    obtain ⟨k', v'⟩ := e
    simp only [lookup] at h
    split at h
    · next he =>
      rw [← he, ← Option.some.inj h]
      exact List.mem_cons_self
    · exact List.mem_cons_of_mem _ (ih h)

theorem isSome_lookup_of_mem {k : κ} {v : α} {es : List (κ × α)} (h : (k, v) ∈ es) :
    (lookup k es).isSome = true := by
  induction es with
  | nil => cases h
  | cons e rest ih =>
    obtain ⟨k', v'⟩ := e
    rw [lookup]
    split
    · rfl
    · next hne =>
      rcases List.mem_cons.1 h with heq | hmem
      · exact absurd (Prod.mk.inj heq).1.symm hne
      · exact ih hmem

end OrderedMap

end StoreBindings
