import Mathlib.Data.List.Basic
import StoreBindings.Proofs.Text.Position
import StoreBindings.Report.Render

/-!
# The lines of a text

Where two texts meet, the last line of the first and the first line of the second become one line, and
all other lines stay as they are: `splitLines_append`. So the lines of a part of a text are lines of the
text, but for the first one, which may begin in the middle of a line (`getElem?_splitLines_append`), and
the last one, which may end in the middle of one (`exists_splitLines_append`).
-/

namespace StoreBindings.Report

open Text (lineEnds lastLine)

variable {a b cs : List Char}

lemma splitLines_ne_nil (cs : List Char) : splitLines cs ≠ [] := by
  cases cs with
  | nil => exact List.cons_ne_nil _ _
  | cons c cs =>
    unfold splitLines
    split
    · exact List.cons_ne_nil _ _
    · split <;> exact List.cons_ne_nil _ _

lemma splitLines_cons (c : Char) (cs : List Char) : splitLines (c :: cs) =
    if c = '\n' then [] :: splitLines cs else (splitLines cs).modifyHead (c :: ·) := by
  rw [splitLines]
  split
  · rfl
  · cases h : splitLines cs with
    | nil => exact absurd h (splitLines_ne_nil cs)
    | cons l ls => rfl

/-- The lines of a text are the pieces between its line ends. -/
lemma splitLines_eq_splitOn (cs : List Char) : splitLines cs = cs.splitOn '\n' := by
  induction cs with
  | nil => rfl
  | cons c cs ih =>
    rw [splitLines_cons, List.splitOn_eq_splitOnP, List.splitOnP_cons_eq_if_modifyHead,
      ← List.splitOn_eq_splitOnP, ih]
    simp only [beq_iff_eq]

lemma length_splitLines (cs : List Char) : (splitLines cs).length = lineEnds cs + 1 := by
  induction cs with
  | nil => rfl
  | cons c cs ih =>
    rw [splitLines_cons, Text.lineEnds_cons]
    split
    · rw [List.length_cons, ih]
    · rw [List.length_modifyHead, ih]

/-- Where two texts meet, a line of each becomes one line. -/
theorem splitLines_append (a b : List Char) : splitLines (a ++ b) =
    (splitLines a).dropLast ++ (splitLines b).modifyHead (lastLine a ++ ·) := by
  induction a with
  | nil =>
    show splitLines b = (splitLines b).modifyHead fun l => l
    cases splitLines b <;> rfl
  | cons c a ih =>
    rw [List.cons_append, splitLines_cons, splitLines_cons, ih]
    by_cases hc : c = '\n'
    · rw [if_pos hc, if_pos hc, hc, Text.lastLine_lineEnd,
        List.dropLast_cons_of_ne_nil (splitLines_ne_nil a)]
      rfl
    · rw [if_neg hc, if_neg hc]
      by_cases hmem : '\n' ∈ a
      · -- the character goes to a line that ends before the texts meet
        obtain ⟨l, l', ls, hlines⟩ : ∃ l l' ls, splitLines a = l :: l' :: ls := by
          have hlength := length_splitLines a
          have hends : lineEnds a ≠ 0 := fun h => Text.lineEnds_eq_zero_iff.1 h hmem
          match hlines : splitLines a with
          | [] => exact absurd hlines (splitLines_ne_nil a)
          | [l] =>
            rw [hlines, List.length_singleton] at hlength
            omega
          | l :: l' :: ls => exact ⟨l, l', ls, rfl⟩
        rw [hlines, Text.lastLine_cons_of_mem c hmem]
        rfl
      · obtain ⟨l, hlines⟩ : ∃ l, splitLines a = [l] := by
          rw [← List.length_eq_one_iff, length_splitLines, Text.lineEnds_eq_zero_iff.2 hmem]
        have hwhole : '\n' ∉ c :: a := by simp [Ne.symm hc, hmem]
        rw [hlines, Text.lastLine_of_not_mem hmem, Text.lastLine_of_not_mem hwhole]
        cases splitLines b <;> rfl

/-- The last of the lines of a text stands behind its last line end. -/
lemma splitLines_eq_concat (cs : List Char) :
    splitLines cs = (splitLines cs).dropLast ++ [lastLine cs] := by
  have happend := splitLines_append cs []
  rw [List.append_nil] at happend
  rw [happend]
  simp [splitLines]

lemma length_dropLast_splitLines (cs : List Char) :
    (splitLines cs).dropLast.length = lineEnds cs := by
  rw [List.length_dropLast, length_splitLines, Nat.add_sub_cancel]

/-- No line has a line end in it, and all that it is made of stands in the text. -/
lemma of_mem_splitLines {line : List Char} (h : line ∈ splitLines cs) :
    '\n' ∉ line ∧ line ⊆ cs := by
  induction cs generalizing line with
  | nil =>
    rw [List.mem_singleton.1 h]
    exact ⟨List.not_mem_nil, List.nil_subset _⟩
  | cons c cs ih =>
    -- the lines of the rest stay what they are, except that the first may get one more character
    have htail : ∀ l ∈ splitLines cs, '\n' ∉ l ∧ l ⊆ c :: cs := fun l hl =>
      ⟨(ih hl).1, List.subset_cons_of_subset c (ih hl).2⟩
    rw [splitLines_cons] at h
    split at h
    · rcases List.mem_cons.1 h with rfl | h
      · exact ⟨List.not_mem_nil, List.nil_subset _⟩
      · exact htail line h
    · next hc =>
      cases hlines : splitLines cs with
      | nil => exact absurd hlines (splitLines_ne_nil cs)
      | cons l ls =>
        rw [hlines] at h htail
        rcases List.mem_cons.1 h with rfl | h
        · obtain ⟨hends, hsub⟩ := htail l List.mem_cons_self
          exact ⟨by simp [Ne.symm hc, hends],
            List.cons_subset.2 ⟨List.mem_cons_self, hsub⟩⟩
        · exact htail line (List.mem_cons_of_mem _ h)

/-! ## The lines of a part -/

/-- Behind a part at the front the lines go on with the rest of its last line. -/
theorem getElem?_splitLines_append (a b : List Char) (i : Nat) :
    (splitLines (a ++ b))[lineEnds a + i]? =
      (splitLines b)[i]?.map fun l => if i = 0 then lastLine a ++ l else l := by
  have hlength := length_dropLast_splitLines a
  rw [splitLines_append, List.getElem?_append_right (by omega), hlength, Nat.add_sub_cancel_left]
  cases i with
  | zero => simp
  | succ i => simp

/-- The lines of a part at the front are lines of the whole, but for the last one, which goes on. -/
theorem exists_splitLines_append (a b : List Char) {i : Nat} {part : List Char}
    (h : (splitLines a)[i]? = some part) :
    ∃ whole, (splitLines (a ++ b))[i]? = some whole ∧ part <+: whole ∧
      (i + 1 < (splitLines a).length → part = whole) := by
  have hlength := length_dropLast_splitLines a
  rw [splitLines_append, length_splitLines]
  rw [splitLines_eq_concat] at h
  by_cases hi : i < lineEnds a
  · rw [List.getElem?_append_left (by omega)] at h ⊢
    exact ⟨part, h, List.prefix_rfl, fun _ => rfl⟩
  · rw [List.getElem?_append_right (by omega), hlength, List.getElem?_singleton] at h
    split at h
    · next hlast =>
      obtain ⟨l, ls, hlines⟩ := List.exists_cons_of_ne_nil (splitLines_ne_nil b)
      rw [List.getElem?_append_right (by omega), hlength, hlast, hlines, ← Option.some.inj h]
      exact ⟨lastLine a ++ l, rfl, List.prefix_append _ _, fun hlt => absurd hlt (by omega)⟩
    · cases h

end StoreBindings.Report
