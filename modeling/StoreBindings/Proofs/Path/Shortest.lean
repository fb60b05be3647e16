import Mathlib.Algebra.GroupWithZero.Nat
import StoreBindings.Proofs.Path.Relative

/-!
# The way to a path is the shortest one

A text that leads from a directory to a path has to take back, by `..`, whatever of the directory is not
on the way to the path, and to name whatever of the path is not on the way to the directory. That is what
the relative path is made of, so no text that leads there is shorter, in whatever way characters are
counted: `weight_relativePath_le`.

What is left of the way after some components, measured by the text it takes, is their `distance`. A
component makes it smaller by no more than its own text and the slash behind it: `distance_resolveStep`.
-/

namespace StoreBindings.Path

variable (w : Char → Nat) {as bs cs stack : List Component} {c : Component} {p q dir : Path}

/-- What a text weighs if each of its characters has a weight. -/
def weight (cs : List Char) : Nat := (cs.map w).sum

/-- What a component weighs with a slash. -/
def cost (c : Component) : Nat := weight w c.text + w '/'

/-- What the way between two lists of components weighs, with a slash for each component. -/
def distance (as bs : List Component) : Nat := ((wayBetween as bs).map (cost w)).sum

lemma weight_append (a b : List Char) : weight w (a ++ b) = weight w a + weight w b := by
  unfold weight
  rw [List.map_append, List.sum_append]

lemma weight_cons (c : Char) (cs : List Char) : weight w (c :: cs) = w c + weight w cs := by
  unfold weight
  rw [List.map_cons, List.sum_cons]

/-! ## What a step is worth -/

lemma distance_eq (as bs : List Component) : distance w as bs =
    (diverge as bs).1.length * cost w .parent + ((diverge as bs).2.map (cost w)).sum := by
  unfold distance wayBetween
  rw [List.map_append, List.sum_append, List.map_replicate, List.sum_replicate_nat]

lemma distance_self (as : List Component) : distance w as as = 0 := by
  rw [distance_eq, diverge_eq_nil_iff.2 rfl]
  simp

/-- One more component either is the next one down, or has to be gone back over. -/
lemma diverge_concat (c : Component) (as bs : List Component) :
    (∃ rest, diverge as bs = ([], c :: rest) ∧ diverge (as ++ [c]) bs = ([], rest)) ∨
      diverge (as ++ [c]) bs = ((diverge as bs).1 ++ [c], (diverge as bs).2) := by
  -- the new component is compared only if all those before it are shared
  induction as generalizing bs with
  | nil =>
    cases bs with
    | nil => exact .inr rfl
    | cons b bs =>
      rw [diverge_nil_left, List.nil_append, diverge]
      by_cases hcb : c = b
      · left
        rw [if_pos hcb, hcb]
        exact ⟨bs, rfl, diverge_nil_left bs⟩
      · right
        rw [if_neg hcb]
  | cons a as ih =>
    cases bs with
    | nil => exact .inr rfl
    | cons b bs =>
      rw [List.cons_append, diverge, diverge]
      by_cases hab : a = b
      · rw [if_pos hab, if_pos hab]
        exact ih bs
      · right
        rw [if_neg hab, if_neg hab]
        rfl

/-- Going on by a component brings nearer by no more than the component weighs. -/
lemma distance_le_push (c : Component) (as bs : List Component) :
    distance w as bs ≤ cost w c + distance w (as ++ [c]) bs := by
  simp only [distance_eq]
  rcases diverge_concat c as bs with ⟨rest, hbefore, hafter⟩ | hafter
  · simp only [hbefore, hafter, List.map_cons, List.sum_cons]
    omega
  · simp only [hafter, List.length_append, Nat.add_mul]
    omega

/-- Going back by a component brings nearer by no more than `..` weighs. -/
lemma distance_le_pop (c : Component) (as bs : List Component) :
    distance w (as ++ [c]) bs ≤ cost w .parent + distance w as bs := by
  simp only [distance_eq]
  rcases diverge_concat c as bs with ⟨rest, hbefore, hafter⟩ | hafter
  · simp only [hbefore, hafter, List.map_cons, List.sum_cons]
    omega
  · simp only [hafter, List.length_append, List.length_singleton, Nat.add_mul]
    omega

/-- Reading one more component brings nearer by no more than it weighs. -/
theorem distance_resolveStep (hc : c.IsStep) (stack bs : List Component) :
    distance w stack.reverse bs ≤ cost w c + distance w (resolveStep stack c).reverse bs := by
  have hpush : ∀ d : Component, distance w stack.reverse bs ≤
      cost w d + distance w (d :: stack).reverse bs := by
    intro d
    rw [List.reverse_cons]
    exact distance_le_push w d _ _
  cases c with
  | root => exact hc.elim
  | current => exact hc.elim
  | name n => exact hpush (.name n)
  | parent =>
    -- the way to a path gets longer by a step at most: by what is pushed, or by what is popped
    cases stack with
    | nil => exact hpush .parent
    | cons top below =>
      have hpop : distance w (top :: below).reverse bs ≤
          cost w .parent + distance w below.reverse bs := by
        rw [List.reverse_cons]
        exact distance_le_pop w top _ _
      cases top with
      | root => exact hpush .parent
      | current => exact hpop
      | parent => exact hpop
      | name n => exact hpop

/-- Reading components brings nearer by no more than they weigh together. -/
lemma distance_foldl (h : ∀ c ∈ cs, c.IsStep) (stack bs : List Component) :
    distance w stack.reverse bs ≤
      (cs.map (cost w)).sum + distance w (cs.foldl resolveStep stack).reverse bs := by
  induction cs generalizing stack with
  | nil => simp
  | cons c cs ih =>
    have hstep := distance_resolveStep w (h c List.mem_cons_self) stack bs
    have hrest := ih (fun d hd => h d (List.mem_cons_of_mem _ hd)) (resolveStep stack c)
    rw [List.map_cons, List.sum_cons, List.foldl_cons]
    omega

/-! ## What a text weighs -/

/-- Parts with slashes between them weigh what they weigh with a slash each, one slash aside. -/
lemma weight_joined {ps : List (List Char)} (h : ps ≠ []) :
    weight w (joined ps) + w '/' = (ps.map fun q => weight w q + w '/').sum := by
  induction ps with
  | nil => exact absurd rfl h
  | cons q ps ih =>
    cases ps with
    | nil => simp [joined]
    | cons r ps =>
      have hrest := ih (by simp)
      rw [joined, weight_append, weight_cons, List.map_cons, List.sum_cons, ← hrest]
      omega

/-- The steps of a text weigh no more than the text. -/
lemma sum_steps_le (v : List Char) :
    ((⟨v⟩ : Path).steps.map (cost w)).sum ≤ weight w v + w '/' := by
  have hparts : ∀ ps : List (List Char), ((ps.filterMap Component.ofPiece?).map (cost w)).sum ≤
      (ps.map fun q => weight w q + w '/').sum := by
    intro ps
    induction ps with
    | nil => exact Nat.le_refl _
    | cons q ps ih =>
      rw [List.filterMap_cons, List.map_cons, List.sum_cons]
      cases hq : Component.ofPiece? q with
      | none => exact Nat.le_add_left_of_le ih
      | some c =>
        have hcost : cost w c = weight w q + w '/' := by
          unfold cost
          rw [text_of_ofPiece? hq]
        rw [List.map_cons, List.sum_cons, hcost]
        exact Nat.add_le_add_left ih _
  have hjoined := weight_joined w (pieces_ne_nil v)
  rw [joined_pieces] at hjoined
  rw [hjoined]
  exact hparts (pieces v)

lemma weight_relativePath (dir p : Path) (h : way dir p ≠ []) :
    weight w (relativePath dir p) + w '/' =
      distance w dir.normalize.components p.normalize.components := by
  rw [relativePath_eq, weight_joined w (by simpa using h), List.map_map]
  rfl

/-- A text weighs at least what the relative path to where it leads does. A point in front of it may
be left out. -/
theorem weight_relativePath_le (hdir : dir.isAbsolute = true) (hq : q.isAbsolute = false)
    (h : (dir.join q).normalize = p.normalize) {v : List Char} (hv : q.steps = (⟨v⟩ : Path).steps) :
    weight w (relativePath dir p) ≤ weight w v := by
  by_cases hway : way dir p = []
  · rw [relativePath_eq, hway]
    exact Nat.zero_le _
  · have hstack : dir.components.foldl resolveStep [] = dir.normalize.components.reverse := by
      rw [components_normalize, resolve, List.reverse_reverse]
    have hend : (q.steps.foldl resolveStep dir.normalize.components.reverse).reverse =
        p.normalize.components := by
      rw [← h, components_normalize (dir.join q), resolve, components_join hdir hq,
        List.foldl_append, hstack]
    have hgone := distance_foldl w (fun _ => isStep_of_mem_steps (p := q))
      dir.normalize.components.reverse p.normalize.components
    rw [hend, List.reverse_reverse, distance_self, hv] at hgone
    have htext := sum_steps_le w v
    have hweight := weight_relativePath w dir p hway
    omega

end StoreBindings.Path
