import Mathlib.Data.List.TakeWhile
import Mathlib.Data.Prod.Lex
import Mathlib.Order.Monotone.Basic
import StoreBindings.Text.Offset

/-!
# Lines and columns

A position counts the line ends before an offset and the characters behind the last of them, while the
offset counts bytes. `offsetAt?` goes the other way: it skips so many lines with their ends, then so many
characters that end no line, and counts the bytes of both. `position_spec` says that the two undo each
other, that a later offset has a later position, and that every offset past the end has that of the end.

A text can be cut at the end of each part at its front, so both directions are inductions on that part:
`offsetAt?_append`, `exists_of_offsetAt?`.
-/

namespace StoreBindings.Text

variable {cs front more : List Char} {offset line column : Nat}

/-- The byte offset of a line and a column, if there are so many lines, and so many characters in this
one. -/
def offsetAt? : List Char → Nat → Nat → Option Nat
  | _, 0, 0 => some 0
  | [], _, _ => none
  | c :: cs, 0, column + 1 =>
    if c = '\n' then none else (offsetAt? cs 0 column).map (c.utf8Size + ·)
  | c :: cs, line + 1, column =>
    if c = '\n' then (offsetAt? cs line column).map (c.utf8Size + ·)
    else (offsetAt? cs (line + 1) column).map (c.utf8Size + ·)

/-- An offset that is not past the end, and not inside of a character. -/
def IsBoundary (cs : List Char) (offset : Nat) : Prop :=
  ∃ front, front <+: cs ∧ byteLength front = offset

/-! ## The last line of a text -/

lemma lineEnds_append (front more : List Char) :
    lineEnds (front ++ more) = lineEnds front + lineEnds more := List.count_append

lemma lineEnds_eq_zero_iff : lineEnds cs = 0 ↔ '\n' ∉ cs := List.count_eq_zero

lemma lineEnds_cons (c : Char) (cs : List Char) :
    lineEnds (c :: cs) = if c = '\n' then lineEnds cs + 1 else lineEnds cs := by
  unfold lineEnds
  rw [List.count_cons]
  by_cases hc : c = '\n' <;> simp [hc]

lemma ne_of_not_mem_reverse (h : '\n' ∉ cs) : ∀ c ∈ cs.reverse, (c != '\n') = true := by
  intro c hc
  rw [bne_iff_ne]
  rintro rfl
  exact h (List.mem_reverse.1 hc)

/-- What is written behind a text goes on with its last line, unless there is a line end in it. -/
lemma lastLine_append (front more : List Char) : lastLine (front ++ more) =
    if '\n' ∈ more then lastLine more else lastLine front ++ more := by
  unfold lastLine
  rw [List.reverse_append]
  split
  · next hmem =>
    rw [List.takeWhile_append, if_neg]
    intro hlength
    have hwhole := (List.takeWhile_prefix (· != '\n') (l := more.reverse)).eq_of_length hlength
    have hne := List.takeWhile_eq_self_iff.1 hwhole '\n' (List.mem_reverse.2 hmem)
    exact absurd hne (by decide)
  · next hmem =>
    rw [List.takeWhile_append_of_pos (ne_of_not_mem_reverse hmem), List.reverse_append,
      List.reverse_reverse]

lemma lastLine_of_not_mem (h : '\n' ∉ cs) : lastLine cs = cs := by
  have happend := lastLine_append [] cs
  rw [if_neg h] at happend
  exact happend

lemma lastLine_cons_of_mem (c : Char) (h : '\n' ∈ cs) : lastLine (c :: cs) = lastLine cs := by
  have happend := lastLine_append [c] cs
  rw [if_pos h] at happend
  exact happend

/-- Behind a line end the last line is the same as without what stands before it. -/
lemma lastLine_lineEnd (cs : List Char) : lastLine ('\n' :: cs) = lastLine cs := by
  by_cases hmem : '\n' ∈ cs
  · exact lastLine_cons_of_mem _ hmem
  · have happend := lastLine_append ['\n'] cs
    rw [if_neg hmem] at happend
    rw [lastLine_of_not_mem hmem]
    exact happend

/-! ## There and back -/

/-- At the end of a part at the front, a position only depends on that part. -/
lemma position_append (front rest : List Char) :
    position (front ++ rest) (byteLength front) = (lineEnds front, (lastLine front).length) := by
  have hle : byteLength front ≤ byteLength (front ++ rest) := by
    rw [byteLength_append]
    omega
  unfold position
  rw [Nat.min_eq_left hle, splitAt?_append]
  rfl

/-- Skipping the lines and characters that a position counts leads back to the offset. -/
theorem offsetAt?_append (front rest : List Char) :
    offsetAt? (front ++ rest) (lineEnds front) (lastLine front).length = some (byteLength front) := by
  induction front with
  | nil =>
    show offsetAt? rest 0 0 = some 0
    unfold offsetAt?
    rfl
  | cons c front ih =>
    rw [lineEnds_cons, List.cons_append, byteLength_cons]
    by_cases hc : c = '\n'
    · rw [if_pos hc, hc, lastLine_lineEnd, offsetAt?, if_pos rfl, ih]
      rfl
    · rw [if_neg hc]
      by_cases hmem : '\n' ∈ front
      · -- a line end is further on, and the character is skipped on the way to it
        obtain ⟨n, hn⟩ : ∃ n, lineEnds front = n + 1 :=
          Nat.exists_eq_succ_of_ne_zero fun hzero => lineEnds_eq_zero_iff.1 hzero hmem
        rw [lastLine_cons_of_mem c hmem, hn, offsetAt?, if_neg hc, ← hn, ih]
        rfl
      · have hline := lineEnds_eq_zero_iff.2 hmem
        have hwhole : '\n' ∉ c :: front := by simp [Ne.symm hc, hmem]
        rw [hline, lastLine_of_not_mem hmem] at ih
        rw [hline, lastLine_of_not_mem hwhole, List.length_cons, offsetAt?, if_neg hc, ih]
        rfl

/-- Where skipping lines and characters leads to, the text can be cut, and has this position. -/
theorem exists_of_offsetAt? (h : offsetAt? cs line column = some offset) :
    ∃ front, front <+: cs ∧ byteLength front = offset ∧ lineEnds front = line ∧
      (lastLine front).length = column := by
  fun_induction offsetAt? cs line column generalizing offset with
  | case1 cs =>
    cases h
    exact ⟨[], List.nil_prefix, rfl, rfl, rfl⟩
  | case2 => cases h
  | case3 => cases h
  | case4 c cs column hc ih =>
    -- in the line that is looked for the front has no line end
    obtain ⟨n, hn, rfl⟩ := Option.map_eq_some_iff.1 h
    obtain ⟨front, hfront, rfl, hline, hcolumn⟩ := ih hn
    have hmem := lineEnds_eq_zero_iff.1 hline
    have hwhole : '\n' ∉ c :: front := by simp [Ne.symm hc, hmem]
    refine ⟨c :: front, List.cons_prefix_cons.2 ⟨rfl, hfront⟩, rfl, lineEnds_eq_zero_iff.2 hwhole, ?_⟩
    rw [lastLine_of_not_mem hmem] at hcolumn
    rw [lastLine_of_not_mem hwhole, List.length_cons, hcolumn]
  | case5 cs line column ih =>
    obtain ⟨n, hn, rfl⟩ := Option.map_eq_some_iff.1 h
    obtain ⟨front, hfront, rfl, rfl, rfl⟩ := ih hn
    refine ⟨'\n' :: front, List.cons_prefix_cons.2 ⟨rfl, hfront⟩, rfl, ?_, ?_⟩
    · rw [lineEnds_cons, if_pos rfl]
    · rw [lastLine_lineEnd]
  | case6 c cs line column hc ih =>
    obtain ⟨n, hn, rfl⟩ := Option.map_eq_some_iff.1 h
    obtain ⟨front, hfront, rfl, hline, rfl⟩ := ih hn
    have hmem : '\n' ∈ front := by
      by_contra hnot
      rw [lineEnds_eq_zero_iff.2 hnot] at hline
      cases hline
    refine ⟨c :: front, List.cons_prefix_cons.2 ⟨rfl, hfront⟩, rfl, ?_, ?_⟩
    · rw [lineEnds_cons, if_neg hc, hline]
    · rw [lastLine_cons_of_mem c hmem]

/-- Lines and columns stand for the offsets that have these positions, and for nothing else. -/
lemma offsetAt?_eq_some_iff : offsetAt? cs line column = some offset ↔
    IsBoundary cs offset ∧ position cs offset = (line, column) := by
  constructor
  · intro h
    obtain ⟨front, ⟨rest, rfl⟩, rfl, rfl, rfl⟩ := exists_of_offsetAt? h
    exact ⟨⟨front, List.prefix_append _ _, rfl⟩, position_append front rest⟩
  · rintro ⟨⟨front, ⟨rest, rfl⟩, rfl⟩, hposition⟩
    rw [position_append, Prod.mk.injEq] at hposition
    obtain ⟨rfl, rfl⟩ := hposition
    exact offsetAt?_append front rest

/-! ## Order -/

/-- With more characters a text ends on a later line, or further on in the same one. -/
lemma lt_of_append (front : List Char) (hmore : more ≠ []) :
    toLex (lineEnds front, (lastLine front).length) <
      toLex (lineEnds (front ++ more), (lastLine (front ++ more)).length) := by
  rw [Prod.Lex.toLex_lt_toLex, lineEnds_append, lastLine_append]
  by_cases hmem : '\n' ∈ more
  · left
    have hpos : lineEnds more ≠ 0 := fun hzero => lineEnds_eq_zero_iff.1 hzero hmem
    show lineEnds front < lineEnds front + lineEnds more
    omega
  · right
    have hpos := List.length_pos_iff.2 hmore
    rw [if_neg hmem, lineEnds_eq_zero_iff.2 hmem, List.length_append]
    refine ⟨rfl, ?_⟩
    show (lastLine front).length < (lastLine front).length + more.length
    omega

/-- Of two parts at the front of a text, the shorter one is at the front of the longer one. -/
lemma prefix_of_byteLength_lt {front' : List Char} (h : front <+: cs) (h' : front' <+: cs)
    (hlt : byteLength front < byteLength front') : ∃ more, more ≠ [] ∧ front' = front ++ more := by
  rcases List.prefix_or_prefix_of_prefix h h' with ⟨more, rfl⟩ | ⟨more, rfl⟩
  · refine ⟨more, ?_, rfl⟩
    rintro rfl
    rw [List.append_nil] at hlt
    omega
  · rw [byteLength_append] at hlt
    omega

/-- A line and a column say where an offset is: skipping so many lines, and so many characters of the
next one, leads to the offset and to no other one. Later offsets have later positions, and past the end
there is only the position of the end. -/
theorem position_spec (cs : List Char) :
    (∀ line column offset, offsetAt? cs line column = some offset ↔
      IsBoundary cs offset ∧ position cs offset = (line, column)) ∧
    StrictMonoOn (fun offset => toLex (position cs offset)) {offset | IsBoundary cs offset} ∧
    ∀ n, position cs (byteLength cs + n) = position cs (byteLength cs) := by
  refine ⟨fun line column offset => offsetAt?_eq_some_iff, ?_, fun n => ?_⟩
  · rintro _ ⟨front, hfront, rfl⟩ _ ⟨front', hfront', rfl⟩ hlt
    obtain ⟨more, hmore, rfl⟩ := prefix_of_byteLength_lt hfront hfront' hlt
    obtain ⟨rest, rfl⟩ := hfront'
    show toLex (position _ (byteLength front)) < toLex (position _ (byteLength (front ++ more)))
    rw [position_append (front ++ more) rest, List.append_assoc, position_append]
    exact lt_of_append front hmore
  · unfold position
    rw [Nat.min_eq_right (Nat.le_add_right _ n), Nat.min_self]

/-- The second line begins behind two bytes, and its third character is behind five more. -/
example : position "a\nß€x".toList 7 = (1, 2) ∧ offsetAt? "a\nß€x".toList 1 2 = some 7 := by decide

end StoreBindings.Text
