import StoreBindings.Proofs.Syntax.Formed

/-!
# Where the parts of a tree are found

The places that are listed for a tree are those of its parts at any depth. Each of them covers the
text of its part (`exists_partAt`), and they come in the order in which the parts begin
(`pairwise_placesIn`), which is all that replacing texts from the last place to the first one
depends on.
-/

namespace StoreBindings

/-! ## Texts that begin alike -/

namespace Text

/-- Of two beginnings of a text the shorter one begins the other. -/
lemma prefix_of_byteLength_le {a b cs : List Char} (ha : a <+: cs) (hb : b <+: cs)
    (h : byteLength a ≤ byteLength b) : a <+: b := by
  rcases List.prefix_or_prefix_of_prefix ha hb with hab | ⟨rest, rfl⟩
  · exact hab
  · cases rest with
    | nil => simp
    | cons c rest =>
      have hpos := c.utf8Size_pos
      rw [byteLength_append, byteLength_cons] at h
      omega

/-- Two beginnings that are equally long are the same. -/
lemma eq_of_byteLength_eq {a b cs : List Char} (ha : a <+: cs) (hb : b <+: cs)
    (h : byteLength a = byteLength b) : a = b :=
  (prefix_of_byteLength_le ha hb h.le).eq_of_length_le
    (prefix_of_byteLength_le hb ha h.ge).length_le

end Text

namespace Syntax

/-! ## Parts -/

namespace Tree

/-- What holds of a node if it holds of its parts holds of all trees. -/
@[elab_as_elim]
lemma induction {motive : Tree → Prop} (leaf : ∀ r k cs, motive (.leaf r k cs))
    (node : ∀ r k ps, (∀ t ∈ ps, motive t) → motive (.node r k ps)) (t : Tree) : motive t :=
  @Tree.rec motive (fun ts => ∀ t ∈ ts, motive t) leaf node (by simp)
    (fun _ _ ht hts => List.forall_mem_cons.2 ⟨ht, hts⟩) t

/-- A part of a tree at any depth, between the text before it and the text behind it. -/
inductive PartAt : List Char → Tree → List Char → Tree → Prop
  | here (t : Tree) : PartAt [] t [] t
  | inside {before after : List Char} {p t : Tree} (r : Role) (k : Kind) (left right : List Tree)
      (h : PartAt before p after t) :
      PartAt (charsOfAll left ++ before) p (after ++ charsOfAll right)
        (node r k (left ++ t :: right))

namespace PartAt

variable {before after : List Char} {p t : Tree}

/-- A part is between what stands before it and behind it. -/
lemma chars_eq (h : PartAt before p after t) : t.chars = before ++ p.chars ++ after := by
  induction h with
  | here => simp
  | inside r k left right h ih => simp [chars, charsOfAll, ih]

/-- The parts of a well-formed tree are well-formed at any depth. -/
lemma formed (h : PartAt before p after t) (ht : t.Formed) : p.Formed := by
  induction h with
  | here => exact ht
  | inside r k left right h ih =>
    cases ht with
    | node _ hparts => exact ih (hparts _ (by simp))

end PartAt

end Tree

/-- The stretch of a source that a text covers, behind the text before it. -/
def Span.behind (before text : List Char) : Span :=
  ⟨Text.byteLength before, Text.byteLength before + Text.byteLength text⟩

instance (a b : Span) : Decidable (a.Within b) := inferInstanceAs (Decidable (_ ∧ _))

namespace Node

open StoreBindings.Syntax.Tree

variable {p : Node → Bool} {start : Nat} {span : Span}

/-! ## Each place is that of a part -/

/-- A place that is listed for several trees is listed for one of them. -/
lemma exists_mem_of_mem_placesInAll {ts : List Tree} (h : span ∈ placesInAll p start ts) :
    ∃ left t right, ts = left ++ t :: right ∧
      span ∈ placesIn p (start + Text.byteLength (charsOfAll left)) t := by
  induction ts generalizing start with
  | nil => cases h
  | cons t ts ih =>
    rcases List.mem_append.1 h with h | h
    · exact ⟨[], t, ts, rfl, h⟩
    · obtain ⟨left, t', right, rfl, h⟩ := ih h
      refine ⟨t :: left, t', right, rfl, ?_⟩
      rwa [charsOfAll, Text.byteLength_append, ← Nat.add_assoc]

/-- A place that is listed for a tree is that of a part that is looked for. -/
theorem exists_partAt {t : Tree} (h : span ∈ placesIn p start t) :
    ∃ before t' after, PartAt before t' after t ∧
      span = (Node.mk (start + Text.byteLength before) t').span ∧
      p ⟨start + Text.byteLength before, t'⟩ = true := by
  -- a place found in a part is further on by what stands before the part
  induction t using Tree.induction generalizing start with
  | leaf r k cs =>
    rw [placesIn] at h
    split at h
    · next hp => exact ⟨[], _, [], .here _, List.mem_singleton.1 h, hp⟩
    · cases h
  | node r k ps ih =>
    rw [placesIn] at h
    rcases List.mem_append.1 h with h | h
    · split at h
      · next hp => exact ⟨[], _, [], .here _, List.mem_singleton.1 h, hp⟩
      · cases h
    · obtain ⟨left, t, right, rfl, hmem⟩ := exists_mem_of_mem_placesInAll h
      obtain ⟨before, t', after, hpart, hspan, hp⟩ := ih t (by simp) hmem
      refine ⟨_, t', _, hpart.inside r k left right, ?_, ?_⟩
      · rw [hspan, Text.byteLength_append, Nat.add_assoc]
      · rwa [Text.byteLength_append, ← Nat.add_assoc]

/-- Where places are listed there is a part that is looked for. -/
lemma exists_partAt_of_places {t : Tree} (h : placesIn p start t ≠ []) :
    ∃ before t' after, PartAt before t' after t ∧
      p ⟨start + Text.byteLength before, t'⟩ = true := by
  obtain ⟨span, hspan⟩ := List.exists_mem_of_ne_nil _ h
  obtain ⟨before, t', after, hpart, -, hp⟩ := exists_partAt hspan
  exact ⟨before, t', after, hpart, hp⟩

/-- A place that is listed for a tree lies inside it. -/
lemma within_of_mem_placesIn {t : Tree} (h : span ∈ placesIn p start t) :
    span.Within (Node.mk start t).span := by
  obtain ⟨before, t', after, hpart, rfl, -⟩ := exists_partAt h
  have hsize : t.size = Text.byteLength before + t'.size + Text.byteLength after := by
    rw [size, hpart.chars_eq, Text.byteLength_append, Text.byteLength_append, size]
  constructor
  · exact Nat.le_add_right _ _
  · show start + Text.byteLength before + t'.size ≤ start + t.size
    omega

lemma start_le_stop_of_mem_placesIn {t : Tree} (h : span ∈ placesIn p start t) :
    span.start ≤ span.stop := by
  obtain ⟨before, t', after, -, rfl, -⟩ := exists_partAt h
  exact Nat.le_add_right _ _

/-- No place begins before the trees for which it is listed. -/
lemma le_start_of_mem_placesInAll {ts : List Tree} (h : span ∈ placesInAll p start ts) :
    start ≤ span.start := by
  obtain ⟨left, t, right, rfl, hmem⟩ := exists_mem_of_mem_placesInAll h
  exact Nat.le_trans (Nat.le_add_right _ _) (within_of_mem_placesIn hmem).1

/-! ## The order of the places -/

/-- Places come in order for several trees if they do for each. -/
lemma pairwise_placesInAll {ts : List Tree}
    (h : ∀ t ∈ ts, ∀ start, (placesIn p start t).Pairwise fun a b => a.start ≤ b.start) :
    (placesInAll p start ts).Pairwise fun a b => a.start ≤ b.start := by
  induction ts generalizing start with
  | nil => exact .nil
  | cons t ts ih =>
    refine List.pairwise_append.2 ⟨h t (by simp) start, ih fun t ht => h t (by simp [ht]), ?_⟩
    -- what is found in one part begins before that part ends
    intro a ha b hb
    calc a.start ≤ a.stop := start_le_stop_of_mem_placesIn ha
      _ ≤ start + t.size := (within_of_mem_placesIn ha).2
      _ ≤ b.start := le_start_of_mem_placesInAll hb

/-- Places are listed in the order in which they begin. -/
theorem pairwise_placesIn (p : Node → Bool) (start : Nat) (t : Tree) :
    (placesIn p start t).Pairwise fun a b => a.start ≤ b.start := by
  induction t using Tree.induction generalizing start with
  | leaf r k cs =>
    rw [placesIn]
    split
    · exact List.pairwise_singleton _ _
    · exact .nil
  | node r k ps ih =>
    rw [placesIn]
    have hinside : (placesInAll p start ps).Pairwise fun a b => a.start ≤ b.start :=
      pairwise_placesInAll ih
    split
    · exact .cons (fun span h => le_start_of_mem_placesInAll h) hinside
    · exact hinside

end Node

end Syntax

end StoreBindings
