import Mathlib.Data.List.Basic
import Mathlib.Data.List.Induction
import StoreBindings.OrderedMap

/-!
# Entries of ordered maps

What the operations of a map do to its list of entries. A look-up finds exactly the entries
(`get?_eq_some_iff`), an insertion at a new key adds its entry at the end
(`entries_insert_of_notMem`).

The map of a list holds each key of the list at the place where it is first met (`keys_ofList`) with
the value that it has last (`get?_ofList`). So the list is itself the list of entries exactly if no
key is repeated (`entries_ofList_iff`).
-/

namespace StoreBindings

/-! ## Lists without repetitions -/

/-- An element that is met again is left out. -/
lemma eraseDups_append_singleton {α : Type} [DecidableEq α] (l : List α) (a : α) :
    (l ++ [a]).eraseDups = if a ∈ l then l.eraseDups else l.eraseDups ++ [a] := by
  rw [List.eraseDups_append]
  split
  · next h =>
    have hnone : [a].removeAll l = [] := by simp [List.removeAll, h]
    rw [hnone, List.eraseDups_nil, List.append_nil]
  · next h =>
    have hall : [a].removeAll l = [a] := by simp [List.removeAll, h]
    rw [hall]
    rfl

/-- What is left has no repetitions. -/
lemma nodup_eraseDups {α : Type} [DecidableEq α] (l : List α) : l.eraseDups.Nodup := by
  induction l using List.reverseRecOn with
  | nil => exact List.nodup_nil
  | append_singleton l a ih =>
    rw [eraseDups_append_singleton]
    split
    · exact ih
    · next h =>
      refine List.nodup_append.2 ⟨ih, by simp, fun b hb c hc hbc => h ?_⟩
      rw [← List.mem_singleton.1 hc, ← hbc]
      exact List.mem_eraseDups.1 hb

namespace OrderedMap

variable {κ α : Type}

/-- A map is its entries. -/
lemma eq_of_entries {m m' : OrderedMap κ α} (h : m.entries = m'.entries) : m = m' := by
  cases m
  cases m'
  cases h
  rfl

variable [DecidableEq κ]

/-! ## Look-ups -/

/-- Where no key is repeated, each entry is found. -/
lemma lookup_of_mem {k : κ} {v : α} {es : List (κ × α)} (hd : (es.map Prod.fst).Nodup)
    (h : (k, v) ∈ es) : lookup k es = some v := by
  induction es with
  | nil => cases h
  | cons e rest ih =>
    rw [List.map_cons, List.nodup_cons] at hd
    rw [lookup]
    rcases List.mem_cons.1 h with rfl | hrest
    · rw [if_pos rfl]
    · rw [if_neg, ih hd.2 hrest]
      rintro rfl
      exact hd.1 (List.mem_map.2 ⟨_, hrest, rfl⟩)

/-- What is found at a key is the value of its entry. -/
theorem get?_eq_some_iff {m : OrderedMap κ α} {k : κ} {v : α} :
    m.get? k = some v ↔ (k, v) ∈ m.entries :=
  ⟨mem_of_lookup, lookup_of_mem m.distinct⟩

/-- The entries are the new one and those at other keys. -/
lemma mem_entries_insert {m : OrderedMap κ α} {k k' : κ} {v v' : α} :
    (k', v') ∈ (m.insert k v).entries ↔ k' = k ∧ v' = v ∨ k' ≠ k ∧ (k', v') ∈ m.entries := by
  rw [← get?_eq_some_iff, ← get?_eq_some_iff]
  by_cases h : k' = k
  · subst h
    simp [eq_comm]
  · simp [get?_insert_of_ne m h, h]

/-- A look-up after an insertion. -/
lemma get?_insert (m : OrderedMap κ α) (k k' : κ) (v : α) :
    (m.insert k v).get? k' = if k' = k then some v else m.get? k' := by
  by_cases h : k' = k
  · rw [h, get?_insert_self, if_pos rfl]
  · rw [get?_insert_of_ne m h, if_neg h]

/-! ## New keys -/

/-- A value at a new key goes to the end. -/
lemma put_of_notMem {k : κ} {es : List (κ × α)} (h : k ∉ es.map Prod.fst) (v : α) :
    put k v es = es ++ [(k, v)] := by
  induction es with
  | nil => rfl
  | cons e rest ih =>
    rw [List.map_cons, List.mem_cons, not_or] at h
    rw [put, if_neg (Ne.symm h.1), ih h.2, List.cons_append]

/-- So an insertion at a new key adds its entry at the end. -/
theorem entries_insert_of_notMem {m : OrderedMap κ α} {k : κ} (h : k ∉ m.keys) (v : α) :
    (m.insert k v).entries = m.entries ++ [(k, v)] := put_of_notMem h v

/-- Entries with new keys are added in their order. -/
lemma entries_insertAll {m : OrderedMap κ α} {es : List (κ × α)}
    (h : (m.keys ++ es.map Prod.fst).Nodup) : (m.insertAll es).entries = m.entries ++ es := by
  induction es generalizing m with
  | nil => exact (List.append_nil _).symm
  | cons e es ih =>
    have hnew : e.1 ∉ m.keys := fun he =>
      (List.nodup_append.1 h).2.2 _ he _ List.mem_cons_self rfl
    have hkeys : (m.insert e.1 e.2).keys = m.keys ++ [e.1] := by rw [keys_insert, if_neg hnew]
    show ((m.insert e.1 e.2).insertAll es).entries = _
    rw [ih, entries_insert_of_notMem hnew, List.append_assoc]
    · rfl
    · rwa [hkeys, List.append_assoc]

/-- A list without repeated keys is the list of entries of its map. -/
lemma entries_ofList {es : List (κ × α)} (h : (es.map Prod.fst).Nodup) :
    (ofList es).entries = es := entries_insertAll (m := empty) h

/-- A list is the list of entries of its map exactly if no key is repeated. -/
theorem entries_ofList_iff {es : List (κ × α)} :
    (ofList es).entries = es ↔ (es.map Prod.fst).Nodup :=
  ⟨fun h => h ▸ (ofList es).distinct, entries_ofList⟩

/-! ## Repeated keys -/

/-- The last entry of a list is inserted last. -/
lemma ofList_append_singleton (es : List (κ × α)) (e : κ × α) :
    ofList (es ++ [e]) = (ofList es).insert e.1 e.2 := by
  rw [ofList, insertAll, List.foldl_append]
  rfl

/-- The keys are those of the list, each at the place where it is first met. -/
theorem keys_ofList (es : List (κ × α)) : (ofList es).keys = (es.map Prod.fst).eraseDups := by
  induction es using List.reverseRecOn with
  | nil => rfl
  | append_singleton es e ih =>
    rw [ofList_append_singleton, keys_insert, ih, List.map_append, List.map_singleton,
      eraseDups_append_singleton]
    simp only [List.mem_eraseDups]

/-- Of several values at one key the last one stays. -/
theorem get?_ofList (es : List (κ × α)) (k : κ) :
    (ofList es).get? k = (es.reverse.find? fun e => e.1 = k).map Prod.snd := by
  induction es using List.reverseRecOn with
  | nil => rfl
  | append_singleton es e ih =>
    rw [ofList_append_singleton, get?_insert, ih, List.reverse_concat, List.find?_cons]
    by_cases h : e.1 = k
    · simp [h]
    · simp [h, Ne.symm h]

/-- What is found in the map of a list is in the list. -/
lemma mem_of_get?_ofList {es : List (κ × α)} {k : κ} {v : α}
    (h : (ofList es).get? k = some v) : (k, v) ∈ es := by
  rw [get?_ofList, Option.map_eq_some_iff] at h
  obtain ⟨e, he, rfl⟩ := h
  have hkey : e.1 = k := by simpa using List.find?_some he
  rw [← hkey]
  exact List.mem_reverse.1 (List.mem_of_find?_eq_some he)

end OrderedMap

end StoreBindings
