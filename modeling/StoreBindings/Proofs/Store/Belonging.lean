import Mathlib.Data.List.DropRight
import StoreBindings.Proofs.Store.Matching
import StoreBindings.Proofs.Syntax.Bodies

/-!
# Which member a decorator belongs to

In a class body decorators stand before the member that they are for, with comments among them. A
decorator belongs to a member if nothing but decorators and comments stands between the two
(`Belongs`); what does not count as a part, such as a semicolon, separates nothing either.

A body is read from front to back, with the decorators that have been met handed on until something
separates them. What is handed on to a place are exactly the decorators that belong there:
`waitingAfter_take`. So each member has the decorators that belong to it, in the order in which they
are written, and those that it holds itself (`members_eq`), and no decorator belongs to two members
(`Belongs.unique`).
-/

namespace StoreBindings.Syntax

/-- Whether a part of a class body separates the decorators before it from what is behind it: all
parts that count do, but for decorators. -/
def Node.separates (p : Node) : Bool := p.kind.counts && p.kind != .decorator

/-- Whether a part of a class body is a member. -/
def Node.isMember (p : Node) : Bool := p.kind == .method || p.kind == .field

/-- The parts of the body of a class, each at its place. -/
def Node.bodyParts (n : Node) : List Node := ((n.part? .body).map Node.parts).getD []

/-- The decorators that a part of a class body holds itself. -/
def Tree.ownDecorators (t : Tree) : List Tree := t.children.filter fun d => d.kind == .decorator

/-- There is a decorator at the place `i`, and nothing separates it from the place `j` behind it. -/
def Belongs (ps : List Node) (i j : Nat) : Prop :=
  i < j ∧ (∃ d ∈ ps[i]?, d.kind = .decorator) ∧ ∀ k < j, i < k → ∀ p ∈ ps[k]?, p.separates = false

instance (ps : List Node) (i j : Nat) : Decidable (Belongs ps i j) :=
  inferInstanceAs (Decidable (_ ∧ _ ∧ _))

/-- The decorators that belong to a place, in the order in which they are written. -/
def belonging (ps : List Node) (j : Nat) : List Node :=
  ((List.range j).filter fun i => Belongs ps i j).filterMap fun i => ps[i]?

/-- The decorators of the member that a part at a place is: those that belong to the place, and then
those that the part holds itself. -/
def carried (ps : List Node) (j : Nat) (p : Node) : List Tree :=
  (belonging ps j).map Node.tree ++ p.tree.ownDecorators

/-- The member at a place, if there is one. -/
def memberAt? (ps : List Node) (j : Nat) : Option Member :=
  (ps[j]?.filter Node.isMember).map fun p =>
    { Member.ofNode (.ofKind p.kind) p with decorators := (carried ps j p).map Decorator.ofTree }

variable {ps : List Node} {i j j' : Nat} {p : Node}

@[simp] lemma Decorator.text_ofTree (t : Tree) : (Decorator.ofTree t).text = t.text := by
  unfold ofTree
  split
  · rfl
  · split <;> rfl

lemma Node.separates_of_isMember (h : p.isMember = true) : p.separates = true := by
  unfold isMember at h
  unfold separates
  rcases Bool.or_eq_true_iff.1 h with h | h <;> rw [beq_iff_eq.1 h] <;> rfl

/-! ## Belonging -/

/-- A decorator belongs to one place more if what is there does not separate it. -/
lemma belongs_succ_iff (hi : i < j) (hp : ps[j]? = some p) :
    Belongs ps i (j + 1) ↔ Belongs ps i j ∧ p.separates = false := by
  unfold Belongs
  constructor
  · rintro ⟨-, hd, hall⟩
    refine ⟨⟨hi, hd, fun k hk => hall k (by omega)⟩, ?_⟩
    exact hall j (by omega) hi p hp
  · rintro ⟨⟨-, hd, hall⟩, hsep⟩
    refine ⟨by omega, hd, fun k hk hik q hq => ?_⟩
    rcases Nat.lt_succ_iff_lt_or_eq.1 hk with hk | rfl
    · exact hall k hk hik q hq
    · rw [hp] at hq
      exact Option.some.inj hq ▸ hsep

/-- Nothing stands between a decorator and the place behind it. -/
lemma belongs_next_iff (hp : ps[j]? = some p) : Belongs ps j (j + 1) ↔ p.kind = .decorator := by
  unfold Belongs
  rw [hp]
  constructor
  · rintro ⟨-, ⟨d, hd, hkind⟩, -⟩
    exact Option.some.inj hd ▸ hkind
  · intro hkind
    exact ⟨by omega, ⟨p, rfl, hkind⟩, fun k hk hjk => by omega⟩

/-- No decorator belongs to two members. -/
theorem Belongs.unique (h : Belongs ps i j) (h' : Belongs ps i j')
    (hj : ∃ p ∈ ps[j]?, p.isMember = true) (hj' : ∃ p ∈ ps[j']?, p.isMember = true) : j = j' := by
  -- the first one of two members would separate the decorator from the second one
  have hnot : ∀ {a b : Nat}, Belongs ps i a → Belongs ps i b →
      (∃ p ∈ ps[a]?, p.isMember = true) → ¬ a < b := by
    rintro a b ha hb ⟨p, hp, hmember⟩ hab
    have hsep := hb.2.2 a hab ha.1 p hp
    rw [Node.separates_of_isMember hmember] at hsep
    cases hsep
  have hle := hnot h h' hj
  have hge := hnot h' h hj'
  omega

/-- What belongs to the next place: what belongs to this one, unless it is separated, and what is
here, if it is a decorator. -/
lemma belonging_succ (hp : ps[j]? = some p) : belonging ps (j + 1) =
    (if p.separates then [] else belonging ps j) ++ if p.kind = .decorator then [p] else [] := by
  -- what has been waiting goes on waiting, unless the new part separates it from what follows
  have hbefore : (List.range j).filter (fun i => Belongs ps i (j + 1)) =
      if p.separates then [] else (List.range j).filter fun i => Belongs ps i j := by
    split
    · next hsep =>
      refine List.filter_eq_nil_iff.2 fun i hi => ?_
      rw [decide_eq_true_eq, belongs_succ_iff (List.mem_range.1 hi) hp, hsep]
      simp
    · next hsep =>
      refine List.filter_congr fun i hi => ?_
      simp [belongs_succ_iff (List.mem_range.1 hi) hp, hsep]
  have hlast : [j].filter (fun i => Belongs ps i (j + 1)) = if p.kind = .decorator then [j] else [] := by
    by_cases hkind : p.kind = .decorator <;> simp [belongs_next_iff hp, hkind]
  unfold belonging
  rw [List.range_succ, List.filter_append, List.filterMap_append, hbefore, hlast]
  congr 1
  · split <;> rfl
  · split
    · rw [List.filterMap_cons_some hp, List.filterMap_nil]
    · rfl

/-- The decorators that belong to a place are those behind the last part before it that separates. -/
lemma belonging_eq_rtakeWhile (hj : j ≤ ps.length) : belonging ps j =
    ((ps.take j).rtakeWhile fun p => !p.separates).filter fun p => p.kind = .decorator := by
  induction j with
  | zero => rfl
  | succ j ih =>
    have hp : ps[j]? = some ps[j] := List.getElem?_eq_getElem hj
    rw [belonging_succ hp, ih (by omega), List.take_add_one, hp, Option.toList_some,
      List.rtakeWhile_concat]
    by_cases hsep : ps[j].separates = true
    · have hkind : ps[j].kind ≠ .decorator := by
        intro hkind
        rw [Node.separates, hkind] at hsep
        cases hsep
      simp [hsep, hkind]
    · by_cases hkind : ps[j].kind = .decorator <;> simp [hsep, hkind]

/-! ## Reading a body -/

namespace BodyPart

/-- The decorators that have been met behind the last part that separates. -/
def waitingAfter (waiting : List Decorator) : List BodyPart → List Decorator
  | [] => waiting
  | .decorator d :: ps => waitingAfter (waiting ++ [d]) ps
  | .comment :: ps => waitingAfter waiting ps
  | .other :: ps => waitingAfter [] ps
  | .member _ :: ps => waitingAfter [] ps

lemma waitingAfter_append (waiting : List Decorator) (ps qs : List BodyPart) :
    waitingAfter waiting (ps ++ qs) = waitingAfter (waitingAfter waiting ps) qs := by
  fun_induction waitingAfter waiting ps with
  | case1 => rfl
  | case2 _ _ _ ih | case3 _ _ ih | case4 _ _ ih | case5 _ _ _ ih => exact ih

/-- What has been met in front is handed on to what is behind. -/
lemma membersFrom_append (waiting : List Decorator) (ps qs : List BodyPart) :
    membersFrom waiting (ps ++ qs) =
      membersFrom waiting ps ++ membersFrom (waitingAfter waiting ps) qs := by
  fun_induction membersFrom waiting ps with
  | case1 => rfl
  | case2 _ _ _ ih | case3 _ _ ih | case4 _ _ ih => exact ih
  | case5 waiting m ps ih =>
    rw [List.cons_append, membersFrom, ih]
    rfl

/-- What one part makes of the decorators that are waiting. -/
lemma waitingAfter_toList (waiting : List Decorator) (p : Node) :
    waitingAfter waiting (ofNode? p).toList = (if p.separates then [] else waiting) ++
      if p.kind = .decorator then [Decorator.ofTree p.tree] else [] := by
  unfold ofNode? Node.separates
  cases p.kind <;> simp [waitingAfter, Kind.counts]

/-- The member that one part is, with the decorators that are waiting. -/
lemma membersFrom_toList (waiting : List Decorator) (p : Node) :
    membersFrom waiting (ofNode? p).toList = if p.isMember then
      [{ Member.ofNode (.ofKind p.kind) p with
        decorators := waiting ++ (Member.ofNode (.ofKind p.kind) p).decorators }] else [] := by
  unfold ofNode? Node.isMember
  cases p.kind <;> simp [membersFrom, MemberKind.ofKind]

end BodyPart

open BodyPart (waitingAfter membersFrom)

lemma take_filterMap_succ (hp : ps[j]? = some p) : (ps.take (j + 1)).filterMap BodyPart.ofNode? =
    (ps.take j).filterMap BodyPart.ofNode? ++ (BodyPart.ofNode? p).toList := by
  rw [List.take_add_one, hp, List.filterMap_append, Option.toList_some]
  cases h : BodyPart.ofNode? p <;> simp [h]

/-- What is handed on to a place are the decorators that belong there. -/
theorem waitingAfter_take (hj : j ≤ ps.length) :
    waitingAfter [] ((ps.take j).filterMap BodyPart.ofNode?) =
      ((belonging ps j).map Node.tree).map Decorator.ofTree := by
  induction j with
  | zero => rfl
  | succ j ih =>
    have hp : ps[j]? = some ps[j] := List.getElem?_eq_getElem hj
    rw [take_filterMap_succ hp, BodyPart.waitingAfter_append, ih (by omega),
      BodyPart.waitingAfter_toList, belonging_succ hp, List.map_append, List.map_append]
    split <;> split <;> rfl

/-- The members in front of a place are those that stand at the places before it. -/
lemma members_take (hj : j ≤ ps.length) :
    BodyPart.members ((ps.take j).filterMap BodyPart.ofNode?) =
      (List.range j).filterMap (memberAt? ps) := by
  induction j with
  | zero => rfl
  | succ j ih =>
    have hp : ps[j]? = some ps[j] := List.getElem?_eq_getElem hj
    have hmember : [j].filterMap (memberAt? ps) =
        membersFrom (((belonging ps j).map Node.tree).map Decorator.ofTree)
          (BodyPart.ofNode? ps[j]).toList := by
      rw [BodyPart.membersFrom_toList]
      by_cases hm : ps[j].isMember = true
      · simp [memberAt?, hp, hm, carried, Member.ofNode, Tree.ownDecorators]
      · simp [memberAt?, hp, hm]
    rw [take_filterMap_succ hp, List.range_succ, List.filterMap_append, hmember, ← ih (by omega),
      BodyPart.members, BodyPart.members, BodyPart.membersFrom_append, waitingAfter_take (by omega)]

/-- The members of a class are those at the places of its body, each with the decorators that belong
there and those that it holds itself. -/
theorem ClassDeclaration.members_eq (n : Node) : (ofNode n).members =
    (List.range n.bodyParts.length).filterMap (memberAt? n.bodyParts) := by
  have hbody : (ofNode n).body = n.bodyParts.filterMap BodyPart.ofNode? := by
    unfold ofNode Node.bodyParts
    cases n.part? .body <;> rfl
  rw [members, hbody, ← members_take (Nat.le_refl _), List.take_length]

/-- Where a member stands, and what it has of the decorators there. -/
lemma exists_of_memberAt? {m : Member} (h : memberAt? ps j = some m) :
    ∃ p ∈ ps[j]?, p.isMember = true ∧ m.decorators = (carried ps j p).map Decorator.ofTree := by
  obtain ⟨p, hp, rfl⟩ := Option.map_eq_some_iff.1 h
  obtain ⟨hp, hmember⟩ := Option.filter_eq_some_iff.1 hp
  exact ⟨p, hp, hmember, rfl⟩

/-- A decorator of a member is one that belongs to its place or one that it holds itself. -/
lemma mem_carried_iff {d : Tree} : d ∈ carried ps j p ↔
    (∃ i, Belongs ps i j ∧ ∃ q ∈ ps[i]?, q.tree = d) ∨ d ∈ p.tree.ownDecorators := by
  rw [carried, List.mem_append, belonging]
  refine or_congr_left ?_
  simp only [List.mem_map, List.mem_filterMap, List.mem_filter, List.mem_range, decide_eq_true_eq]
  constructor
  · rintro ⟨q, ⟨i, ⟨-, hbelongs⟩, hq⟩, rfl⟩
    exact ⟨i, hbelongs, q, hq, rfl⟩
  · rintro ⟨i, hbelongs, q, hq, rfl⟩
    exact ⟨q, ⟨i, ⟨hbelongs.1, hbelongs⟩, hq⟩, rfl⟩

end StoreBindings.Syntax

namespace StoreBindings.Store

open Syntax (Node Tree ClassDeclaration Belongs belonging carried memberAt?)

/-- Each member of a class has the decorators that stand behind the last part before it that is
neither a decorator nor a comment, in the order in which they are written, and behind them its own.
None of them belongs to a second member, and all of them are seen where a member is asked for a
decorator and where its decorators are recorded. -/
theorem decorators_belong (n : Node) :
    let ps := n.bodyParts
    (ClassDeclaration.ofNode n).members = (List.range ps.length).filterMap (memberAt? ps) ∧
      (∀ j ≤ ps.length, belonging ps j =
        ((ps.take j).rtakeWhile fun p => !p.separates).filter fun p => p.kind = .decorator) ∧
      (∀ i j j', Belongs ps i j → Belongs ps i j' → (memberAt? ps j).isSome →
        (memberAt? ps j').isSome → j = j') ∧
      ∀ j m, memberAt? ps j = some m → ∃ p ∈ ps[j]?,
        m.decorators = (carried ps j p).map Syntax.Decorator.ofTree ∧
        (∀ name, m.hasDecorator name = true ↔
          (∃ i, Belongs ps i j ∧ ∃ d ∈ ps[i]?, (Syntax.Decorator.ofTree d.tree).isCalled name) ∨
            ∃ d ∈ p.tree.ownDecorators, (Syntax.Decorator.ofTree d).isCalled name) ∧
        ∀ ix file, Decoration.ofMember ix file m =
          (carried ps j p).filterMap fun d => Decoration.ofSyntax? ix file (.ofTree d) := by
  intro ps
  have hmember : ∀ {j}, (memberAt? ps j).isSome → ∃ p ∈ ps[j]?, p.isMember = true := by
    intro j h
    obtain ⟨m, hm⟩ := Option.isSome_iff_exists.1 h
    obtain ⟨p, hp, hpmember, -⟩ := Syntax.exists_of_memberAt? hm
    exact ⟨p, hp, hpmember⟩
  refine ⟨Syntax.ClassDeclaration.members_eq n, fun j hj => Syntax.belonging_eq_rtakeWhile hj,
    fun i j j' h h' hj hj' => h.unique h' (hmember hj) (hmember hj'), fun j m hm => ?_⟩
  obtain ⟨p, hp, -, hdecorators⟩ := Syntax.exists_of_memberAt? hm
  refine ⟨p, hp, hdecorators, fun name => ?_, fun ix file => ?_⟩
  · simp only [Syntax.Member.hasDecorator, hdecorators, List.any_map, List.any_eq_true,
      Function.comp_apply, Syntax.mem_carried_iff]
    constructor
    · rintro ⟨d, ⟨i, hbelongs, q, hq, rfl⟩ | hown, hcalled⟩
      · exact .inl ⟨i, hbelongs, q, hq, hcalled⟩
      · exact .inr ⟨d, hown, hcalled⟩
    · rintro (⟨i, hbelongs, q, hq, hcalled⟩ | ⟨d, hown, hcalled⟩)
      · exact ⟨q.tree, .inl ⟨i, hbelongs, q, hq, rfl⟩, hcalled⟩
      · exact ⟨d, .inr hown, hcalled⟩
  · rw [Decoration.ofMember, hdecorators, List.filterMap_map]
    rfl

namespace Sample

/-- Two methods and a field, with decorators and a comment among them. -/
def neighbours : String :=
  "class S extends Store()\x7b@A/*c*/@B()a()\x7b\x7d@C c=1;@D b()\x7b\x7d\x7d"

end Sample

/-- The comment stands between the two decorators of the first method, which belong to no other
member; those of its neighbours are not seen. -/
theorem decorators_of_neighbours : ∃ n ∈ (Sample.module Sample.neighbours).root.parts,
    n.kind = .classDeclaration ∧ ∃ m, memberAt? n.bodyParts 4 = some m ∧
      (belonging n.bodyParts 4).map (fun d => d.tree.text) = ["@A", "@B()"] ∧
      m.decorators.map Syntax.Decorator.text = ["@A", "@B()"] ∧
      m.hasDecorator "b" = true ∧ m.hasDecorator "c" = false ∧ m.hasDecorator "d" = false ∧
      ∀ j, Belongs n.bodyParts 1 j → (memberAt? n.bodyParts j).isSome → j = 4 := by
  have hread : ∃ n ∈ (Sample.module Sample.neighbours).root.parts, n.kind = .classDeclaration ∧
      4 ≤ n.bodyParts.length ∧ Belongs n.bodyParts 1 4 ∧
      (((n.bodyParts.take 4).rtakeWhile fun p => !p.separates).filter
        fun p => p.kind = .decorator).map (fun d => d.tree.text) = ["@A", "@B()"] ∧
      ∃ m ∈ memberAt? n.bodyParts 4, ∃ p ∈ n.bodyParts[4]?,
        (carried n.bodyParts 4 p).map Tree.text = ["@A", "@B()"] ∧
          ["b", "c", "d"].map (fun name => m.hasDecorator name) = [true, false, false] := by
    decide +kernel
  obtain ⟨n, hn, hkind, hlength, hbelongs, hbefore, m, hm, p, hp, hcarried, hcalled⟩ := hread
  obtain ⟨-, hbelonging, hunique, hcarries⟩ := decorators_belong n
  obtain ⟨q, hq, hdecorators, -, -⟩ := hcarries 4 m hm
  obtain rfl : p = q := Option.some.inj (hp.symm.trans hq)
  simp only [List.map_cons, List.cons.injEq] at hcalled
  refine ⟨n, hn, hkind, m, hm, ?_, ?_, hcalled.1, hcalled.2.1, hcalled.2.2.1,
    fun j hj hmember => ?_⟩
  · rw [hbelonging 4 hlength, hbefore]
  · rw [hdecorators, List.map_map, ← hcarried]
    exact List.map_congr_left fun d _ => Syntax.Decorator.text_ofTree d
  · exact (hunique 1 4 j hbelongs hj (Option.isSome_iff_exists.2 ⟨m, hm⟩) hmember).symm

end StoreBindings.Store
