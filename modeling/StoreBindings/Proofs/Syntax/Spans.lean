import Mathlib.Data.List.Basic
import StoreBindings.Syntax.Outline

/-!
# Where classes and their members stand

Trees hold no places, so what stands where is a matter of adding up sizes. The parts of a node
follow one another without overlapping (`pairwise_parts`), and so do the nodes that the statements
of a source declare, however deep below their statements they are found (`pairwise_nodesOf`). The
members of a class lie inside it: `within_of_mem_members`.

A stretch without text would lie inside its neighbours. A class that extends the result of a
function has at least the text of that function's name: `start_lt_stop`.
-/

namespace StoreBindings

/-! ## Texts that are not empty -/

/-- A text that is not empty takes room. -/
lemma Text.byteLength_pos {cs : List Char} (h : cs ≠ []) : 0 < Text.byteLength cs := by
  cases cs with
  | nil => exact absurd rfl h
  | cons c cs =>
    rw [Text.byteLength_cons]
    have := c.utf8Size_pos
    omega

namespace Syntax

namespace Tree

/-- A tree spells what its parts spell. -/
lemma mem_chars_of_mem_parts {t p : Tree} (hp : p ∈ t.parts) {c : Char} (hc : c ∈ p.chars) :
    c ∈ t.chars := by
  cases t with
  | leaf role kind chars => cases hp
  | node role kind parts =>
    obtain ⟨before, after, rfl⟩ := List.append_of_mem hp
    simp [chars, charsOfAll, hc]

/-- A tree with a part that is not empty is not empty. -/
lemma chars_ne_nil_of_mem_parts {t p : Tree} (hp : p ∈ t.parts) (h : p.chars ≠ []) :
    t.chars ≠ [] :=
  let ⟨_, hc⟩ := List.exists_mem_of_ne_nil _ h
  List.ne_nil_of_mem (mem_chars_of_mem_parts hp hc)

/-- The same of a child. -/
lemma chars_ne_nil_of_mem_children {t p : Tree} (hp : p ∈ t.children) (h : p.chars ≠ []) :
    t.chars ≠ [] :=
  chars_ne_nil_of_mem_parts (List.mem_filter.1 hp).1 h

end Tree

/-! ## One node after the other -/

/-- One stretch of a source ends before another one begins. -/
def Span.Before (a b : Span) : Prop := a.stop ≤ b.start

lemma Span.Within.trans {a b c : Span} (h : a.Within b) (h' : b.Within c) : a.Within c :=
  ⟨Nat.le_trans h'.1 h.1, Nat.le_trans h.2 h'.2⟩

lemma Span.Within.refl (a : Span) : a.Within a := ⟨Nat.le_refl _, Nat.le_refl _⟩

/-- What lies inside two stretches, one before the other, is in the same order. -/
lemma Span.Before.within {a b a' b' : Span} (h : a.Before b) (ha : a'.Within a)
    (hb : b'.Within b) : a'.Before b' :=
  Nat.le_trans ha.2 (Nat.le_trans h hb.1)

namespace Node

/-- Trees that are placed behind one another do not overlap. -/
lemma pairwise_placed (start : Nat) (ts : List Tree) :
    (placed start ts).Pairwise fun a b => a.span.Before b.span := by
  induction ts generalizing start with
  | nil => exact .nil
  | cons t ts ih => exact .cons (fun n hn => (within_of_mem_placed hn).1) (ih _)

/-- The parts of a node do not overlap. -/
theorem pairwise_parts (n : Node) : n.parts.Pairwise fun a b => a.span.Before b.span :=
  pairwise_placed _ _

/-- The children of a node do not overlap. -/
lemma pairwise_children (n : Node) : n.children.Pairwise fun a b => a.span.Before b.span :=
  n.pairwise_parts.filter _

/-- A child lies inside its node. -/
lemma within_of_mem_children {n p : Node} (h : p ∈ n.children) : p.span.Within n.span :=
  within_of_mem_parts (List.mem_filter.1 h).1

/-- So does a part that is looked up by its role. -/
lemma within_of_part? {n p : Node} {r : Role} (h : n.part? r = some p) : p.span.Within n.span :=
  within_of_mem_parts (List.mem_of_find?_eq_some h)

end Node

namespace TopLevel

/-- The nodes that a statement declares, exported or not. -/
def nodesOf (statement : Node) : List Node :=
  if statement.kind = .exportStatement then ((statement.part? .declaration).map declared).getD []
  else declared statement

/-- The declarations of a source are found statement by statement. -/
lemma ofRoot_eq (root : Node) : ofRoot root = root.children.flatMap fun statement =>
    ((nodesOf statement).filterMap Declaration.ofNode?).map
      (TopLevel.mk (statement.kind = .exportStatement)) := rfl

/-- What a node declares does not overlap, and lies inside it. -/
lemma declared_placed (n : Node) :
    ((declared n).Pairwise fun a b => a.span.Before b.span) ∧
      ∀ p ∈ declared n, p.span.Within n.span := by
  unfold declared
  split
  · exact ⟨n.pairwise_children, fun p hp => Node.within_of_mem_children hp⟩
  · exact ⟨List.pairwise_singleton _ _, fun p hp => List.mem_singleton.1 hp ▸ .refl _⟩

/-- So it is with what a statement declares. -/
lemma nodesOf_placed (statement : Node) :
    ((nodesOf statement).Pairwise fun a b => a.span.Before b.span) ∧
      ∀ p ∈ nodesOf statement, p.span.Within statement.span := by
  unfold nodesOf
  split
  · cases hpart : statement.part? .declaration with
    | none => simp
    | some n =>
      obtain ⟨hpairwise, hwithin⟩ := declared_placed n
      exact ⟨hpairwise, fun p hp => (hwithin p hp).trans (Node.within_of_part? hpart)⟩
  · exact declared_placed statement

/-- The nodes that the statements of a source declare do not overlap. -/
theorem pairwise_nodesOf (root : Node) :
    (root.children.flatMap nodesOf).Pairwise fun a b => a.span.Before b.span := by
  rw [List.pairwise_flatMap]
  refine ⟨fun statement _ => (nodesOf_placed statement).1, root.pairwise_children.imp ?_⟩
  -- what two statements declare is as far apart as the statements are
  intro s s' hbefore p hp p' hp'
  exact hbefore.within ((nodesOf_placed s).2 p hp) ((nodesOf_placed s').2 p' hp')

end TopLevel

/-! ## Classes -/

namespace ClassDeclaration

/-- The trees that a class is said to extend. -/
lemma exists_factory {n : Node} {name : String} (h : name ∈ (ofNode n).factories) :
    ∃ base, factory? base = some name ∧ (base.chars ≠ [] → n.tree.chars ≠ []) := by
  obtain ⟨base, hbase, hname⟩ := List.mem_filterMap.1 h
  refine ⟨base, hname, fun hchars => ?_⟩
  obtain ⟨heritage, hheritage, hbase⟩ := List.mem_flatMap.1 hbase
  obtain ⟨part, hpart, hbase⟩ := List.mem_flatMap.1 hbase
  -- the base stands in a clause of its own, or else it is the part itself
  have hpart' : part.chars ≠ [] := by
    split at hbase
    · exact Tree.chars_ne_nil_of_mem_children hbase hchars
    · rwa [← List.mem_singleton.1 hbase]
  exact Tree.chars_ne_nil_of_mem_children (List.mem_filter.1 hheritage).1
    (Tree.chars_ne_nil_of_mem_children hpart hpart')

/-- A function with a name is named in the text. -/
lemma chars_ne_nil_of_factory? {t : Tree} {name : String} (h : factory? t = some name)
    (hname : name ≠ "") : t.chars ≠ [] := by
  unfold factory? at h
  split at h
  · obtain ⟨f, hf, h⟩ := Option.bind_eq_some_iff.1 h
    split at h
    · cases h
      refine Tree.chars_ne_nil_of_mem_parts (List.mem_of_find?_eq_some hf) ?_
      intro hempty
      exact hname (by rw [Tree.text, hempty])
    · cases h
  · cases h

/-- A class that extends the result of a function with a name has some text. -/
theorem start_lt_stop {n : Node} {name : String} (h : name ∈ (ofNode n).factories)
    (hname : name ≠ "") : n.span.start < n.span.stop := by
  obtain ⟨base, hbase, hchars⟩ := exists_factory h
  have hpos := Text.byteLength_pos (hchars (chars_ne_nil_of_factory? hbase hname))
  show n.start < n.start + n.tree.size
  exact Nat.lt_add_of_pos_right hpos

/-- A member stands where its part does, whatever decorators it has waited for. -/
lemma exists_part_of_mem_membersFrom {waiting : List Decorator} {ps : List BodyPart} {m : Member}
    (h : m ∈ BodyPart.membersFrom waiting ps) : ∃ m', .member m' ∈ ps ∧ m'.span = m.span := by
  -- decorators are handed on to a member, which stays where it is
  fun_induction BodyPart.membersFrom waiting ps with
  | case1 => cases h
  | case2 _ _ _ ih | case3 _ _ ih | case4 _ _ ih =>
    obtain ⟨m', hm', hspan⟩ := ih h
    exact ⟨m', List.mem_cons_of_mem _ hm', hspan⟩
  | case5 waiting m' ps ih =>
    rcases List.mem_cons.1 h with rfl | h
    · exact ⟨m', List.mem_cons_self, rfl⟩
    · obtain ⟨m', hm', hspan⟩ := ih h
      exact ⟨m', List.mem_cons_of_mem _ hm', hspan⟩

/-- A member that is read of a node stands where the node does. -/
lemma span_of_ofNode? {p : Node} {m : Member} (h : BodyPart.ofNode? p = some (.member m)) :
    m.span = p.span := by
  unfold BodyPart.ofNode? at h
  split at h <;> cases h <;> rfl

/-- The members of a class lie inside it. -/
theorem within_of_mem_members {n : Node} {m : Member} (h : m ∈ (ofNode n).members) :
    m.span.Within n.span := by
  obtain ⟨m', hm', hspan⟩ := exists_part_of_mem_membersFrom h
  rw [← hspan]
  unfold ofNode at hm'
  dsimp only at hm'
  cases hbody : n.part? .body with
  | none =>
    rw [hbody] at hm'
    cases hm'
  | some body =>
    rw [hbody] at hm'
    obtain ⟨p, hp, hpart⟩ := List.mem_filterMap.1 hm'
    rw [span_of_ofNode? hpart]
    exact (Node.within_of_mem_parts hp).trans (Node.within_of_part? hbody)

end ClassDeclaration

end Syntax

end StoreBindings
