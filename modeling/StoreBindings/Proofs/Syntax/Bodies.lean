import Mathlib.Data.List.Forall2
import StoreBindings.Syntax.Outline

/-!
# Members and the parts that they are read off

Every method and every field in a class body becomes one member, in order, and nothing of a member
but its decorators is read off anything else (`members_ofNode`). So only a method can be an accessor,
and what is known of the body of a member is what its tree shows (`returned_eq_some_iff`).
-/

namespace StoreBindings.Syntax

/-! ## Members of a class body -/

/-- The methods and the fields in the body of a class, each at its place. -/
def Node.memberNodes (n : Node) : List Node :=
  ((n.part? .body).map Node.parts).getD [] |>.filter fun p => p.kind = .method ∨ p.kind = .field

/-- Whether a part of a class body is a method or a field. -/
def MemberKind.ofKind (k : Kind) : MemberKind := if k = .method then .method else .field

/-- A member is what a part of a class body says of it, with decorators that stand before it. -/
def Member.IsReadOff (p : Node) (m : Member) : Prop :=
  ∃ before, m =
    { ofNode (.ofKind p.kind) p with
      decorators := before ++ (ofNode (.ofKind p.kind) p).decorators }

/-- A part that is neither a method nor a field leaves at most decorators waiting. -/
lemma BodyPart.exists_waiting (waiting : List Decorator) {p : Node} (ps : List Node)
    (hmethod : p.kind ≠ .method) (hfield : p.kind ≠ .field) :
    ∃ waiting', membersFrom waiting ((p :: ps).filterMap ofNode?) =
      membersFrom waiting' (ps.filterMap ofNode?) := by
  cases hp : ofNode? p with
  | none => exact ⟨waiting, by rw [List.filterMap_cons_none hp]⟩
  | some part =>
    rw [List.filterMap_cons_some hp]
    cases part with
    | decorator d => exact ⟨waiting ++ [d], rfl⟩
    | comment => exact ⟨waiting, rfl⟩
    | other => exact ⟨[], rfl⟩
    | member m =>
      unfold ofNode? at hp
      split at hp <;> first | contradiction | cases hp

lemma BodyPart.membersFrom_filterMap (waiting : List Decorator) (ps : List Node) :
    List.Forall₂ Member.IsReadOff (ps.filter fun p => p.kind = .method ∨ p.kind = .field)
      (membersFrom waiting (ps.filterMap ofNode?)) := by
  induction ps generalizing waiting with
  | nil => exact .nil
  | cons p ps ih =>
    by_cases hmethod : p.kind = .method
    · have hp : ofNode? p = some (.member (.ofNode .method p)) := by rw [ofNode?, hmethod]
      rw [List.filter_cons_of_pos (by simp [hmethod]), List.filterMap_cons_some hp]
      exact .cons ⟨waiting, by rw [hmethod]; rfl⟩ (ih [])
    by_cases hfield : p.kind = .field
    · have hp : ofNode? p = some (.member (.ofNode .field p)) := by rw [ofNode?, hfield]
      rw [List.filter_cons_of_pos (by simp [hfield]), List.filterMap_cons_some hp]
      exact .cons ⟨waiting, by rw [hfield]; rfl⟩ (ih [])
    · obtain ⟨waiting', hwaiting⟩ := exists_waiting waiting ps hmethod hfield
      rw [List.filter_cons_of_neg (by simp [hmethod, hfield]), hwaiting]
      exact ih waiting'

/-- The methods and the fields in the body of a class are its members. -/
theorem ClassDeclaration.members_ofNode (n : Node) :
    List.Forall₂ Member.IsReadOff n.memberNodes (ofNode n).members := by
  unfold Node.memberNodes members ofNode
  dsimp only
  cases n.part? .body with
  | none => exact .nil
  | some body => exact BodyPart.membersFrom_filterMap [] body.parts

/-- Only a method is an accessor. -/
lemma Member.IsReadOff.kind_of_accessor {p : Node} {m : Member} (h : m.IsReadOff p)
    (haccessor : m.accessor ≠ none) : m.kind = .method := by
  obtain ⟨before, rfl⟩ := h
  refine Decidable.byContradiction fun hkind => haccessor ?_
  have hfield : MemberKind.ofKind p.kind ≠ .method := hkind
  simp [ofNode, hfield]

lemma ClassDeclaration.kind_of_accessor {n : Node} {m : Member} (hm : m ∈ (ofNode n).members)
    (haccessor : m.accessor ≠ none) : m.kind = .method := by
  obtain ⟨i, hi, rfl⟩ := List.getElem_of_mem hm
  have hlength := (members_ofNode n).length_eq
  exact ((members_ofNode n).get (hlength ▸ hi) hi).kind_of_accessor haccessor

/-! ## What a body returns -/

namespace Tree

/-- One expression is another one in parentheses and casts. -/
inductive Wraps : Tree → Tree → Prop
  | refl (t : Tree) : Wraps t t
  | step {t inner object : Tree} (hkind : t.kind = .parenthesized ∨ t.kind = .cast)
      (hfirst : t.firstChild? = some inner) (hinner : Wraps inner object) : Wraps t object

lemma firstUnwrapped_eq (ts : List Tree) :
    firstUnwrapped ts = (ts.find? fun t => t.kind.counts).map unwrapped := by
  induction ts with
  | nil => rfl
  | cons t ts ih =>
    rw [firstUnwrapped, List.find?_cons, ih]
    cases t.kind.counts <;> rfl

lemma firstChild?_eq (t : Tree) : t.firstChild? = t.parts.find? fun p => p.kind.counts :=
  List.head?_filter

/-- Parentheses and casts are looked through as far as there is something in them. -/
lemma unwrapped_of_wrapper {t : Tree} (hkind : t.kind = .parenthesized ∨ t.kind = .cast) :
    t.unwrapped = (t.firstChild?.map unwrapped).getD t := by
  rw [firstChild?_eq]
  cases t with
  | leaf r k cs => rfl
  | node r k ps => rw [unwrapped, if_pos (show k = _ ∨ k = _ from hkind), firstUnwrapped_eq, parts]

lemma unwrapped_of_not_wrapper {t : Tree} (hkind : ¬(t.kind = .parenthesized ∨ t.kind = .cast)) :
    t.unwrapped = t := by
  cases t with
  | leaf r k cs => rfl
  | node r k ps => rw [unwrapped, if_neg (show ¬(k = _ ∨ k = _) from hkind)]

lemma wraps_unwrapped (t : Tree) : Wraps t t.unwrapped := by
  by_cases hkind : t.kind = .parenthesized ∨ t.kind = .cast
  · rw [unwrapped_of_wrapper hkind]
    cases hfirst : t.firstChild? with
    | none => exact .refl t
    | some inner => exact .step hkind hfirst (wraps_unwrapped inner)
  · rw [unwrapped_of_not_wrapper hkind]
    exact .refl t
termination_by sizeOf t
decreasing_by
  rw [firstChild?_eq] at hfirst
  have hinner := List.mem_of_find?_eq_some hfirst
  cases t with
  | leaf r k cs => cases hinner
  | node r k ps =>
    have := List.sizeOf_lt_of_mem hinner
    simp only [parts, node.sizeOf_spec] at this ⊢
    omega

/-- An object is what is left of an expression exactly if the expression is the object in
parentheses and casts. -/
lemma unwrapped_eq_iff {t object : Tree} (hobject : object.kind = .object) :
    t.unwrapped = object ↔ Wraps t object := by
  constructor
  · rintro rfl
    exact wraps_unwrapped t
  · intro h
    induction h with
    | refl t => exact unwrapped_of_not_wrapper (by simp [hobject])
    | step hkind hfirst _ ih =>
      rw [unwrapped_of_wrapper hkind, hfirst, Option.map_some, Option.getD_some, ih hobject]

/-- A body is exactly one return of an object, up to parentheses and casts, with the given static
keys. -/
def ReturnsKeys (body : Tree) (keys : List String) : Prop :=
  ∃ statement value object, body.children = [statement] ∧ statement.kind = .returnStatement ∧
    statement.firstChild? = some value ∧ Wraps value object ∧ object.kind = .object ∧
    keys = object.children.filterMap objectKey?

lemma returnedKeys?_eq_some_iff {body : Tree} {keys : List String} :
    returnedKeys? body = some keys ↔ body.ReturnsKeys keys := by
  unfold returnedKeys? ReturnsKeys
  constructor
  · intro h
    split at h
    · next statement hchildren =>
      split at h
      · next hreturn =>
        obtain ⟨value, hvalue, h⟩ := Option.bind_eq_some_iff.1 h
        dsimp only at h
        split at h
        · next hobject =>
          exact ⟨statement, value, value.unwrapped, hchildren, hreturn, hvalue,
            wraps_unwrapped value, hobject, (Option.some.inj h).symm⟩
        · cases h
      · cases h
    · cases h
  · rintro ⟨statement, value, object, hchildren, hreturn, hvalue, hwraps, hobject, rfl⟩
    have hunwrapped := (unwrapped_eq_iff hobject).2 hwraps
    rw [hchildren]
    dsimp only
    rw [if_pos hreturn, hvalue, Option.bind_some, hunwrapped, if_pos hobject]

end Tree

/-- The keys that a member returns are those that the body of its part returns. -/
theorem Member.IsReadOff.returned_eq_some_iff {p : Node} {m : Member} (h : m.IsReadOff p)
    {keys : List String} :
    m.returned = some keys ↔ ∃ body, p.tree.part? .body = some body ∧ body.ReturnsKeys keys := by
  obtain ⟨before, rfl⟩ := h
  simp only [ofNode, Option.bind_eq_some_iff, Tree.returnedKeys?_eq_some_iff]

end StoreBindings.Syntax
