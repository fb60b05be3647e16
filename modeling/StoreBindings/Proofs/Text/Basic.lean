import Mathlib.Data.List.TakeWhile
import StoreBindings.Text.Basic

/-!
# Letters, trimmed texts and written numbers

Letters and digits are ranges of characters (`isAlphanum_iff`). Only blanks are taken off the ends of
a text (`mem_trim`), and only at its end if it begins with no blank. A number is written with digits
only, and different numbers are written differently (`toString_inj`).
-/

namespace StoreBindings.Text

/-! ## Letters and digits -/

lemma isUpper_iff {c : Char} : c.isUpper = true ↔ 65 ≤ c.toNat ∧ c.toNat ≤ 90 :=
  decide_eq_true_iff

lemma isLower_iff {c : Char} : c.isLower = true ↔ 97 ≤ c.toNat ∧ c.toNat ≤ 122 := by
  show (decide _ && decide _) = true ↔ _
  rw [Bool.and_eq_true, decide_eq_true_iff, decide_eq_true_iff]
  rfl

lemma isDigit_iff {c : Char} : c.isDigit = true ↔ 48 ≤ c.toNat ∧ c.toNat ≤ 57 :=
  Char.isDigit_iff_toNat

/-- A letter is an upper or a lower one, or it is a digit. -/
theorem isAlphanum_iff {c : Char} :
    c.isAlphanum = true ↔ c.isUpper = true ∨ c.isLower = true ∨ c.isDigit = true := by
  show ((c.isUpper || c.isLower) || c.isDigit) = true ↔ _
  rw [Bool.or_eq_true, Bool.or_eq_true, or_assoc]

/-- Only upper letters have another lower one. -/
lemma toLower_of_not_isUpper {c : Char} (h : ¬c.isUpper = true) : c.toLower = c :=
  dif_neg fun hupper => h (isUpper_iff.2 hupper)

lemma toLower_of_isDigit {c : Char} (h : c.isDigit = true) : c.toLower = c := by
  refine toLower_of_not_isUpper fun hupper => ?_
  rw [isDigit_iff] at h
  rw [isUpper_iff] at hupper
  omega

/-! ## Trimming -/

/-- What is not asked for is not dropped. -/
lemma mem_dropWhile {p : Char → Bool} {c : Char} {cs : List Char} (hc : c ∈ cs)
    (h : p c = false) : c ∈ cs.dropWhile p := by
  rw [← List.takeWhile_append_dropWhile (p := p) (l := cs), List.mem_append] at hc
  refine hc.resolve_left fun htake => ?_
  rw [List.mem_takeWhile_imp htake] at h
  cases h

/-- Only blanks are trimmed. -/
theorem mem_trim {c : Char} {cs : List Char} (hc : c ∈ cs) (h : isBlank c = false) :
    c ∈ trim cs := by
  have hstart : c ∈ (trimStart cs).reverse := List.mem_reverse.2 (mem_dropWhile hc h)
  exact List.mem_reverse.2 (mem_dropWhile hstart h)

/-- Of a text that begins with no blank, only blanks at the end are trimmed. -/
lemma exists_blanks_of_trim {c : Char} (hc : isBlank c = false) (cs : List Char) :
    ∃ blanks, trim (c :: cs) ++ blanks = c :: cs ∧ ∀ b ∈ blanks, isBlank b = true := by
  have hstart : trimStart (c :: cs) = c :: cs := List.dropWhile_cons_of_neg (by simp [hc])
  refine ⟨((c :: cs).reverse.takeWhile isBlank).reverse, ?_, fun b hb => ?_⟩
  · rw [trim, hstart, trimEnd, ← List.reverse_append, List.takeWhile_append_dropWhile,
      List.reverse_reverse]
  · exact List.mem_takeWhile_imp (List.mem_reverse.1 hb)

/-- Where there are no blanks nothing is trimmed. -/
lemma trim_of_forall {cs : List Char} (h : ∀ c ∈ cs, isBlank c = false) : trim cs = cs := by
  have hkeep {cs : List Char} (h : ∀ c ∈ cs, isBlank c = false) : cs.dropWhile isBlank = cs := by
    cases cs with
    | nil => rfl
    | cons c cs => exact List.dropWhile_cons_of_neg (by simp [h c List.mem_cons_self])
  rw [trim, trimStart, hkeep h, trimEnd, hkeep fun c hc => h c (List.mem_reverse.1 hc),
    List.reverse_reverse]

lemma exists_trim_append {c : Char} (hc : isBlank c = false) (cs : List Char) :
    trim (c :: cs) <+: c :: cs :=
  let ⟨blanks, h, _⟩ := exists_blanks_of_trim hc cs
  ⟨blanks, h⟩

/-! ## Numbers -/

/-- A number is written in digits. -/
lemma isDigit_of_mem_toString {n : Nat} {c : Char} (h : c ∈ (toString n).toList) :
    c.isDigit = true := by
  rw [Nat.toString_eq_repr, Nat.toList_repr] at h
  exact Nat.isDigit_of_mem_toDigits (by decide) (by decide) h

/-- Different numbers are written differently. -/
theorem toString_inj {m n : Nat} (h : toString m = toString n) : m = n := by
  have hdigits : Nat.toDigits 10 m = Nat.toDigits 10 n := by
    rw [← Nat.toList_repr, ← Nat.toList_repr, ← Nat.toString_eq_repr, ← Nat.toString_eq_repr, h]
  rw [← Nat.ofDigitChars_toDigits (b := 10) (n := m) (by decide) (by decide), hdigits,
    Nat.ofDigitChars_toDigits (by decide) (by decide)]

end StoreBindings.Text
