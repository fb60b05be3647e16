import Mathlib.Data.List.Basic
import Mathlib.Data.List.Induction
import StoreBindings.Watch

/-!
# What changes amount to

Of the changes that are pushed, those of sources are kept, one for each file: at the place where the
file is first met, in the spelling that it is first met in, and of the kind that all its changes
together amount to: `collected_eq`.
-/

namespace StoreBindings

namespace OrderedMap

variable {κ α : Type} [DecidableEq κ]

/-- The values are what look-ups of the keys find. -/
lemma values_eq_filterMap (m : OrderedMap κ α) : m.values = m.keys.filterMap m.get? := by
  obtain ⟨es, hd⟩ := m
  unfold values keys get?
  dsimp only
  induction es with
  | nil => rfl
  | cons e rest ih =>
    obtain ⟨k, v⟩ := e
    rw [List.map_cons, List.nodup_cons] at hd
    -- no later key is the first one, so its value is looked up in the rest
    have hrest : (rest.map Prod.fst).filterMap (fun k' => lookup k' ((k, v) :: rest)) =
        (rest.map Prod.fst).filterMap fun k' => lookup k' rest := by
      refine List.filterMap_congr ?_
      intro k' hk'
      have hne : ¬k = k' := fun he => hd.1 (he ▸ hk')
      rw [lookup, if_neg hne]
    rw [List.map_cons, List.map_cons, List.filterMap_cons_some (by rw [lookup, if_pos rfl]),
      hrest, ih hd.2]

end OrderedMap

namespace PendingChanges

open Files (Tree)

/-- What several changes of one file amount to: the last of them, except that a file which has been
added and since then only been changed is still one which has been added. -/
def net (cs : List Change) : Option Change :=
  if cs.reverse.find? (· ≠ .changed) = some .added then some .added else cs.getLast?

/-- The changes of one file. -/
def changesAt (es : List (Change × Path)) (key : List Component) : List Change :=
  (es.filter fun e => e.2.components = key).map Prod.fst

/-- Of all spellings of each file, the one that is met first. -/
def firstMet : List Path → List Path
  | [] => []
  | p :: ps => p :: (firstMet ps).filter fun q => q.components ≠ p.components

/-- The changes of sources. -/
def ofSources (t : Tree) (es : List (Change × Path)) : List (Change × Path) :=
  es.filter fun e => !(t.isDirectory e.2 || !Syntax.isSourceFile e.2)

/-- What a batch of changes amounts to, file by file. -/
def netAll (es : List (Change × Path)) : List (Change × Path) :=
  (firstMet (es.map Prod.snd)).filterMap fun p => (net (changesAt es p.components)).map (·, p)

variable {t : Tree} {es : List (Change × Path)} {ps : List Path} {p : Path} {key : List Component}

/-! ## One file -/

lemma merge_of_ne_changed (earlier : Option Change) {c : Change} (h : c ≠ .changed) :
    merge earlier c = c := by
  cases earlier with
  | none => rfl
  | some e => cases e <;> cases c <;> first | rfl | exact absurd rfl h

lemma net_append (cs : List Change) (c : Change) : net (cs ++ [c]) = some (merge (net cs) c) := by
  unfold net
  rw [List.getLast?_concat, List.reverse_append, List.reverse_singleton, List.singleton_append,
    List.getLast?_eq_head?_reverse]
  cases c with
  | added =>
    rw [List.find?_cons_of_pos (by decide), if_pos rfl, merge_of_ne_changed _ (by decide)]
  | removed =>
    rw [List.find?_cons_of_pos (by decide), if_neg (by decide),
      merge_of_ne_changed _ (by decide)]
  | changed =>
    -- what was added stays added, and of anything else the last change counts
    rw [List.find?_cons_of_neg (by decide)]
    split
    · rfl
    · next hnot =>
      cases hr : cs.reverse with
      | nil => rfl
      | cons last before =>
        cases last with
        | added =>
          rw [hr] at hnot
          exact absurd (List.find?_cons_of_pos (by decide)) hnot
        | changed => rfl
        | removed => rfl

lemma net_eq_none_iff {cs : List Change} : net cs = none ↔ cs = [] := by
  induction cs using List.reverseRecOn with
  | nil => simp [net]
  | append_singleton cs c _ => simp [net_append]

lemma changesAt_append (es : List (Change × Path)) (e : Change × Path) (key : List Component) :
    changesAt (es ++ [e]) key =
      if e.2.components = key then changesAt es key ++ [e.1] else changesAt es key := by
  unfold changesAt
  rw [List.filter_append, List.map_append]
  split
  · next h => rw [List.filter_cons_of_pos (by simpa using h)]; rfl
  · next h => rw [List.filter_cons_of_neg (by simpa using h)]; simp

lemma changesAt_eq_nil_iff : changesAt es key = [] ↔
    (es.map Prod.snd).find? (fun q => q.components = key) = none := by
  unfold changesAt
  rw [List.map_eq_nil_iff, List.filter_eq_nil_iff, List.find?_eq_none, List.forall_mem_map]

/-! ## The files of a batch -/

lemma mem_firstMet_key : (∃ q ∈ firstMet ps, q.components = key) ↔
    ∃ q ∈ ps, q.components = key := by
  induction ps with
  | nil => simp [firstMet]
  | cons p rest ih =>
    simp only [firstMet, List.mem_cons, List.mem_filter, decide_eq_true_eq, exists_eq_or_imp]
    rw [← ih]
    constructor
    · rintro (h | ⟨q, ⟨hq, -⟩, hkey⟩)
      · exact .inl h
      · exact .inr ⟨q, hq, hkey⟩
    · rintro (h | ⟨q, hq, hkey⟩)
      · exact .inl h
      · by_cases hp : p.components = key
        · exact .inl hp
        · exact .inr ⟨q, ⟨hq, fun he => hp (he.symm.trans hkey)⟩, hkey⟩

lemma firstMet_append (ps : List Path) (p : Path) : firstMet (ps ++ [p]) =
    if ∃ q ∈ ps, q.components = p.components then firstMet ps else firstMet ps ++ [p] := by
  induction ps with
  | nil => simp [firstMet]
  | cons q rest ih =>
    simp only [List.cons_append, firstMet, ih, List.mem_cons, exists_eq_or_imp]
    by_cases hq : q.components = p.components
    · simp only [hq, true_or, if_true]
      split
      · rfl
      · simp [List.filter_append]
    · simp only [hq, false_or]
      split
      · rfl
      · have hp : p.components ≠ q.components := fun he => hq he.symm
        simp [List.filter_append, hp]

/-- The spelling of a file that is met first is the first one there is. -/
lemma find?_firstMet (hp : p ∈ firstMet ps) :
    ps.find? (fun q => q.components = p.components) = some p := by
  induction ps with
  | nil => cases hp
  | cons q rest ih =>
    rcases List.mem_cons.1 hp with rfl | hp
    · rw [List.find?_cons_of_pos (by simp)]
    · obtain ⟨hp, hne⟩ := List.mem_filter.1 hp
      have hq : ¬q.components = p.components := fun he => by simp [he] at hne
      rw [List.find?_cons_of_neg (by simpa using hq), ih hp]

/-! ## Collecting -/

/-- Collect a change without a look at the file. -/
def collect (p : PendingChanges) (change : Change) (path : Path) : PendingChanges :=
  let earlier := p.changes.get? path.components
  ⟨p.changes.insert path.components
    ((earlier.map Prod.fst).getD path, merge (earlier.map Prod.snd) change)⟩

/-- Collect several changes without a look at the files. -/
def collectAll (p : PendingChanges) (es : List (Change × Path)) : PendingChanges :=
  es.foldl (fun p e => p.collect e.1 e.2) p

lemma push_eq (p : PendingChanges) (t : Tree) (change : Change) (path : Path) :
    p.push t change path =
      if t.isDirectory path || !Syntax.isSourceFile path then p else p.collect change path := rfl

lemma collectAll_append (p : PendingChanges) (es : List (Change × Path)) (e : Change × Path) :
    p.collectAll (es ++ [e]) = (p.collectAll es).collect e.1 e.2 := by
  unfold collectAll
  rw [List.foldl_append]
  rfl

lemma ofSources_cons (t : Tree) (e : Change × Path) (es : List (Change × Path)) :
    ofSources t (e :: es) =
      if t.isDirectory e.2 || !Syntax.isSourceFile e.2 then ofSources t es
      else e :: ofSources t es := by
  unfold ofSources
  split
  · next h => rw [List.filter_cons_of_neg (by simp only [h]; decide)]
  · next h => rw [List.filter_cons_of_pos (by simpa using h)]

/-- Of what is pushed, the changes of sources are collected. -/
lemma pushAll_eq (p : PendingChanges) (t : Tree) (es : List (Change × Path)) :
    p.pushAll t es = p.collectAll (ofSources t es) := by
  induction es generalizing p with
  | nil => rfl
  | cons e es ih =>
    show (p.push t e.1 e.2).pushAll t es = _
    rw [ih, push_eq, ofSources_cons]
    split <;> rfl

/-- The keys of a collection are the files that have been met, in that order. -/
lemma keys_collectAll (es : List (Change × Path)) :
    (empty.collectAll es).changes.keys = (firstMet (es.map Prod.snd)).map Path.components := by
  induction es using List.reverseRecOn with
  | nil => rfl
  | append_singleton es e ih =>
    rw [collectAll_append, collect, List.map_append, List.map_singleton, firstMet_append]
    dsimp only
    rw [OrderedMap.keys_insert, ih]
    have hmem : e.2.components ∈ (firstMet (es.map Prod.snd)).map Path.components ↔
        ∃ q ∈ es.map Prod.snd, q.components = e.2.components := by
      rw [List.mem_map, mem_firstMet_key]
    simp only [hmem]
    split
    · rfl
    · rw [List.map_append, List.map_singleton]

/-- What is collected of a file: its first spelling, and what its changes amount to. -/
lemma get?_collectAll (es : List (Change × Path)) (key : List Component) :
    (empty.collectAll es).changes.get? key =
      ((es.map Prod.snd).find? fun q => q.components = key).bind fun p =>
        (net (changesAt es key)).map fun c => (p, c) := by
  induction es using List.reverseRecOn with
  | nil => rfl
  | append_singleton es e ih =>
    rw [collectAll_append, collect, List.map_append, List.map_singleton, List.find?_append,
      changesAt_append]
    dsimp only
    by_cases hkey : e.2.components = key
    · subst hkey
      rw [OrderedMap.get?_insert_self, ih, if_pos rfl, net_append,
        List.find?_cons_of_pos (by simp)]
      -- a file has a first spelling exactly if it has changes
      cases hfirst : (es.map Prod.snd).find? fun q => q.components = e.2.components with
      | none =>
        have hnone := net_eq_none_iff.2 (changesAt_eq_nil_iff.2 hfirst)
        rw [hnone]
        rfl
      | some p =>
        cases hnet : net (changesAt es e.2.components) with
        | none =>
          rw [changesAt_eq_nil_iff.1 (net_eq_none_iff.1 hnet)] at hfirst
          cases hfirst
        | some c => rfl
    · rw [OrderedMap.get?_insert_of_ne _ (Ne.symm hkey), ih, if_neg hkey,
        List.find?_cons_of_neg (by simpa using hkey), List.find?_nil, Option.or_none]

/-- What is drained is what the changes amount to, file by file. -/
lemma drain_collectAll (es : List (Change × Path)) :
    (empty.collectAll es).drain.1 = netAll es := by
  unfold drain netAll
  dsimp only
  rw [OrderedMap.values_eq_filterMap, keys_collectAll, List.filterMap_map, List.map_filterMap]
  refine List.filterMap_congr ?_
  intro p hp
  rw [Function.comp_apply, get?_collectAll, find?_firstMet hp]
  cases net (changesAt es p.components) <;> rfl

/-- The changes that are drained after changes have been pushed. -/
def collected (t : Tree) (es : List (Change × Path)) : List (Change × Path) :=
  ((empty.pushAll t es).drain).1

/-- What is drained is what the changes of sources amount to, file by file. -/
theorem collected_eq (t : Tree) (es : List (Change × Path)) :
    collected t es = netAll (ofSources t es) := by
  unfold collected
  rw [pushAll_eq, drain_collectAll]

end PendingChanges

end StoreBindings
