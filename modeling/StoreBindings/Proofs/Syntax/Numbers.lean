import StoreBindings.Proofs.Syntax.Tokens
import StoreBindings.Proofs.Text.Basic
import StoreBindings.Text.Basic

/-!
# Numbers are read as far as they go

Every decimal number at the front of a text, whatever stands behind it, is the front of the token that
is read there: `length_le_takeNumber`. A sign is not part of a number, so one right in front of a number
is a token of its own (`read_of_sign`).
-/

namespace StoreBindings.Syntax

/-! ## Where a number is read -/

/-- Whether a number is read at the front of a text. -/
def startsNumber : List Char → Bool
  | c :: cs => c.isDigit || (c == '.' && (cs.head?.map Char.isDigit).getD false)
  | [] => false

/-- No name begins with a digit. -/
lemma isNameStart_of_isDigit {c : Char} (h : c.isDigit = true) :
    (isNameStart c || c == '\\') = false := by
  have hname : isNameStart c = false := by simp [isNameStart, h]
  have hmark : c ≠ '\\' := by
    rintro rfl
    cases h
  simp [hname, hmark]

/-- Where a number begins, the token is all of it. -/
lemma read_of_startsNumber {cs : List Char} (h : startsNumber cs = true) :
    Token.read cs = (.number, takeNumber cs) := by
  cases cs with
  | nil => cases h
  | cons c cs =>
    have hname : (isNameStart c || c == '\\') = false := by
      rcases Bool.or_eq_true _ _ ▸ h with hdigit | hpoint
      · exact isNameStart_of_isDigit hdigit
      · obtain ⟨hpoint, -⟩ := Bool.and_eq_true _ _ ▸ hpoint
        rw [eq_of_beq hpoint]
        decide
    rw [Token.read]
    dsimp only
    rw [if_neg (by simp [hname])]
    exact if_pos h

/-- Only there is a token a number. -/
lemma startsNumber_of_read {cs : List Char} (h : (Token.read cs).1 = .number) :
    startsNumber cs = true := by
  unfold Token.read at h
  split at h
  · cases h
  · next c cs =>
    dsimp only at h
    repeat' split at h
    all_goals try cases h
    assumption

/-- Directly in front of a number a sign is a token of its own. -/
theorem read_of_sign {s : Char} {cs : List Char} (hs : s = '+' ∨ s = '-')
    (h : startsNumber cs = true) : Token.read (s :: cs) = (.symbol s.toString, [s], cs) := by
  cases cs with
  | nil => cases h
  | cons c cs =>
    have hc : c ≠ '+' ∧ c ≠ '-' ∧ c ≠ '=' := by
      refine ⟨?_, ?_, ?_⟩ <;> (rintro rfl; cases h)
    have hname : isNamePart '+' = false ∧ isNamePart '-' = false := by decide
    rcases hs with rfl | rfl
    · have hmark : symbol? ('+' :: c :: cs) = some "+" := by simp [symbol?, hc]
      simpa [Token.read, hmark, isNameStart, hname] using ⟨rfl, rfl⟩
    · have hmark : symbol? ('-' :: c :: cs) = some "-" := by simp [symbol?, hc]
      simpa [Token.read, hmark, isNameStart, hname] using ⟨rfl, rfl⟩

/-! ## The longest number -/

/-- Digits in front of what is no digit, as they stand in a decimal number. -/
lemma digits_of_isDecimal {cs : List Char} (h : Text.isDecimal cs = true) :
    ∃ whole fraction exponent, cs = whole ++ (fraction ++ exponent) ∧
      (∀ c ∈ whole, c.isDigit = true) ∧ Text.isExponent exponent = true ∧
      (fraction = [] ∧ whole ≠ [] ∨ ∃ digits, fraction = '.' :: digits ∧
        (∀ c ∈ digits, c.isDigit = true) ∧ (whole ≠ [] ∨ digits ≠ [])) := by
  have hall (ds : List Char) : ∀ c ∈ ds.takeWhile Char.isDigit, c.isDigit = true :=
    fun c hc => List.mem_takeWhile_imp hc
  have hcs := List.takeWhile_append_dropWhile (p := Char.isDigit) (l := cs)
  rw [Text.isDecimal, List.span_eq_takeWhile_dropWhile] at h
  dsimp only at h
  split at h
  · next after hrest =>
    rw [List.span_eq_takeWhile_dropWhile] at h
    simp only [Bool.and_eq_true, Bool.not_eq_true', Bool.and_eq_false_iff,
      List.isEmpty_eq_false_iff] at h
    refine ⟨_, _, _, ?_, hall cs, h.2, .inr ⟨_, rfl, hall after, h.1⟩⟩
    rw [List.cons_append, List.takeWhile_append_dropWhile, ← hrest, hcs]
  · simp only [Bool.and_eq_true, Bool.not_eq_true', List.isEmpty_eq_false_iff] at h
    exact ⟨_, [], _, hcs.symm, hall cs, h.2, .inl ⟨rfl, h.1⟩⟩

/-- Digits are taken, and then whatever else can follow them. -/
lemma takeDigits_append_of_isDigit {ds : List Char} (h : ∀ c ∈ ds, c.isDigit = true)
    (cs : List Char) : takeDigits (ds ++ cs) = (ds ++ (takeDigits cs).1, (takeDigits cs).2) := by
  have hds : ∀ c ∈ ds, (c.isDigit || c == '_') = true := fun c hc => by simp [h c hc]
  simp only [takeDigits, List.span_eq_takeWhile_dropWhile, List.takeWhile_append_of_pos hds,
    List.dropWhile_append_of_pos hds]

/-- A sign is taken away. -/
lemma withoutSign_of_sign {s : Char} (h : (s == '+' || s == '-') = true) (cs : List Char) :
    Text.withoutSign (s :: cs) = cs := by
  rcases Bool.or_eq_true _ _ ▸ h with hs | hs <;> rw [eq_of_beq hs] <;> rfl

/-- Anything else stays. -/
lemma withoutSign_of_not_sign {s : Char} (h : (s == '+' || s == '-') = false) (cs : List Char) :
    Text.withoutSign (s :: cs) = s :: cs := by
  obtain ⟨hplus, hminus⟩ := Bool.or_eq_false_iff.1 h
  unfold Text.withoutSign
  split
  · next heq =>
    cases heq
    cases hplus
  · next heq =>
    cases heq
    cases hminus
  · rfl

/-- Whole exponents are taken. -/
lemma length_le_takeExponent {e : List Char} (he : Text.isExponent e = true) (cs : List Char) :
    e.length ≤ (takeExponent (e ++ cs)).1.length := by
  cases e with
  | nil => exact Nat.zero_le _
  | cons x xs =>
    simp only [Text.isExponent, Bool.and_eq_true, Bool.not_eq_true', List.isEmpty_eq_false_iff,
      List.all_eq_true, Bool.or_eq_true, beq_iff_eq] at he
    obtain ⟨⟨hx, hne⟩, hdigits⟩ := he
    have hlower : (x.toLower != 'e') = false := by rcases hx with rfl | rfl <;> decide
    cases xs with
    | nil => cases hne rfl
    | cons s ds =>
      -- the digits begin behind the letter, or behind the sign after it
      cases hsign : (s == '+' || s == '-') with
      | true =>
        rw [withoutSign_of_sign hsign] at hne hdigits
        obtain ⟨d, ds, rfl⟩ := List.exists_cons_of_ne_nil hne
        have htail := takeDigits_append_of_isDigit
          (fun c hc => hdigits c (List.mem_cons_of_mem _ hc)) cs
        simp only [List.cons_append, takeExponent, hlower, hsign, hdigits d List.mem_cons_self,
          htail]
        simp
      | false =>
        rw [withoutSign_of_not_sign hsign] at hdigits
        have hs := hdigits s List.mem_cons_self
        have htail := takeDigits_append_of_isDigit
          (fun c hc => hdigits c (List.mem_cons_of_mem _ hc)) cs
        rw [List.cons_append, List.cons_append]
        cases hrest : ds ++ cs with
        | nil =>
          have hlower : (x.toLower == 'e') = true := by simpa using hlower
          simp [takeExponent, hlower, hs, (List.append_eq_nil_iff.1 hrest).1]
        | cons y ys =>
          rw [hrest] at htail
          simp only [takeExponent, hlower, hsign, hs, htail]
          simp

/-- What stands behind the digits of a decimal number, if anything does, is no digit. -/
lemma takeDigits_exponent {e : List Char} (he : Text.isExponent e = true) (hne : e ≠ [])
    (cs : List Char) :
    takeDigits (e ++ cs) = ([], e ++ cs) ∧ takeFraction (e ++ cs) = ([], e ++ cs) := by
  obtain ⟨x, xs, rfl⟩ := List.exists_cons_of_ne_nil hne
  simp only [Text.isExponent, Bool.and_eq_true, Bool.or_eq_true, beq_iff_eq] at he
  obtain ⟨⟨hx | hx, -⟩, -⟩ := he <;> exact hx ▸ ⟨rfl, rfl⟩

/-- No decimal number goes on beyond what is taken as one. -/
lemma length_le_decimal {number : List Char} (h : Text.isDecimal number = true) (cs : List Char) :
    number.length ≤ (takeNumber.decimal (number ++ cs)).1.length := by
  obtain ⟨whole, fraction, exponent, rfl, hwhole, hexponent, hfraction⟩ := digits_of_isDecimal h
  have hlength (cs : List Char) : (takeDigits cs).1.length +
      ((takeFraction (takeDigits cs).2).1.length +
        (takeExponent (takeFraction (takeDigits cs).2).2).1.length) ≤
      (takeNumber.decimal cs).1.length := by
    fun_cases takeNumber.decimal cs <;> simp_all
  refine Nat.le_trans ?_ (hlength _)
  rw [List.append_assoc, takeDigits_append_of_isDigit hwhole]
  -- with or without a point, the exponent is taken from where the digits end
  rcases hfraction with ⟨rfl, -⟩ | ⟨digits, rfl, hdigits, -⟩
  · by_cases hne : exponent = []
    · simp [hne]
      omega
    · obtain ⟨hnone, hpoint⟩ := takeDigits_exponent hexponent hne cs
      have htaken := length_le_takeExponent hexponent cs
      simp [hnone, hpoint]
      omega
  · have hpoint (rest : List Char) : takeDigits ('.' :: rest) = ([], '.' :: rest) := rfl
    have hbehind (rest : List Char) : takeFraction ('.' :: rest) =
      ('.' :: (takeDigits rest).1, (takeDigits rest).2) := rfl
    simp only [List.append_assoc, List.cons_append, hpoint, hbehind,
      takeDigits_append_of_isDigit hdigits]
    by_cases hne : exponent = []
    · simp [hne]
      omega
    · obtain ⟨hnone, -⟩ := takeDigits_exponent hexponent hne cs
      have htaken := length_le_takeExponent hexponent cs
      simp [hnone]
      omega

/-- Six letters name the base of a number. -/
lemma base_cases {b : Char} (h : "xXoObB".toList.contains b = true) :
    b = 'x' ∨ b = 'X' ∨ b = 'o' ∨ b = 'O' ∨ b = 'b' ∨ b = 'B' := by
  simpa using h

/-- A number of another base is no decimal number. -/
lemma isDecimal_of_base {b : Char} (hb : "xXoObB".toList.contains b = true) (cs : List Char) :
    Text.isDecimal ('0' :: b :: cs) = false := by
  rcases base_cases hb with rfl | rfl | rfl | rfl | rfl | rfl <;> rfl

/-- A decimal number at the front of a text is no longer than the number that is read there. -/
theorem length_le_takeNumber {cs number : List Char} (h : number <+: cs)
    (hnumber : Text.isDecimal number = true) : number.length ≤ (takeNumber cs).1.length := by
  have hdecimal : number.length ≤ (takeNumber.decimal cs).1.length := by
    obtain ⟨rest, rfl⟩ := h
    exact length_le_decimal hnumber rest
  fun_cases takeNumber cs with
  | case1 b rest hb ds rest' _ =>
    obtain - | ⟨_, - | ⟨_, more⟩⟩ := number
    · exact Nat.zero_le _
    · simp
    · obtain ⟨_, hcons⟩ := h
      cases hcons
      rw [isDecimal_of_base hb] at hnumber
      cases hnumber
  | case2 | case3 => exact hdecimal

/-- At the front of every decimal number, whatever is behind it, a number is read. -/
lemma startsNumber_of_isDecimal {cs number : List Char} (h : number <+: cs)
    (hnumber : Text.isDecimal number = true) : startsNumber cs = true := by
  obtain ⟨rest, rfl⟩ := h
  obtain ⟨whole, fraction, exponent, rfl, hwhole, -, hfraction⟩ := digits_of_isDecimal hnumber
  obtain - | ⟨d, whole⟩ := whole
  · obtain ⟨-, h⟩ | ⟨digits, rfl, hdigits, h⟩ := hfraction
    · cases h rfl
    · obtain ⟨d, digits, rfl⟩ := List.exists_cons_of_ne_nil (h.resolve_left (· rfl))
      simp [startsNumber, hdigits d List.mem_cons_self]
  · simp [startsNumber, hwhole d List.mem_cons_self]

/-- There is a digit in every number. -/
lemma exists_isDigit_of_takeNumber {cs : List Char} (h : startsNumber cs = true) :
    ∃ c ∈ (takeNumber cs).1, c.isDigit = true := by
  -- every decimal number in front is taken, so a short one with a digit is enough
  have hfront {number : List Char} (hnumber : number <+: cs)
      (hdecimal : Text.isDecimal number = true) : number <+: (takeNumber cs).1 :=
    List.prefix_of_prefix_length_le hnumber ⟨_, takeNumber_append cs⟩
      (length_le_takeNumber hnumber hdecimal)
  obtain - | ⟨c, cs⟩ := cs
  · cases h
  rcases Bool.or_eq_true _ _ ▸ h with hc | hpoint
  · have hone : Text.isDecimal [c] = true := by
      simp [Text.isDecimal, List.span_eq_takeWhile_dropWhile, hc, Text.isExponent]
    exact ⟨c, (hfront ⟨cs, rfl⟩ hone).subset List.mem_cons_self, hc⟩
  · obtain ⟨hpoint, hdigit⟩ := Bool.and_eq_true _ _ ▸ hpoint
    obtain rfl := eq_of_beq hpoint
    obtain - | ⟨d, cs⟩ := cs
    · cases hdigit
    have hd : d.isDigit = true := hdigit
    have htwo : Text.isDecimal ['.', d] = true := by
      simp [Text.isDecimal, List.span_eq_takeWhile_dropWhile, hd, Text.isExponent]
    exact ⟨d, (hfront ⟨cs, rfl⟩ htwo).subset (by simp), hd⟩

/-- Characters that can be part of a number. -/
def isNumberPart (c : Char) : Bool := isDigitPart c || c == '.' || c == '+' || c == '-'

lemma isNumberPart_of_isAlphanum {c : Char} (h : c.isAlphanum = true) :
    isNumberPart c = true := by
  simp [isNumberPart, isDigitPart, h]

lemma isNumberPart_of_isDigit {c : Char} (h : c.isDigit = true) : isNumberPart c = true :=
  isNumberPart_of_isAlphanum (Text.isAlphanum_iff.2 (.inr (.inr h)))

/-- The letter of an exponent can be part of a number. -/
lemma isNumberPart_of_toLower {c : Char} (h : ¬(c.toLower != 'e') = true) :
    isNumberPart c = true := by
  have hlower : c.toLower = 'e' := by simpa using h
  by_cases hupper : c.isUpper = true
  · exact isNumberPart_of_isAlphanum (Text.isAlphanum_iff.2 (.inl hupper))
  · rw [Text.toLower_of_not_isUpper hupper] at hlower
    rw [hlower]
    rfl

/-- No part of a number is a blank. -/
lemma isSpace_of_isNumberPart {c : Char} (h : isNumberPart c = true) : isSpace c = false := by
  -- number parts are above the blanks of ASCII and below all others
  have hrange : 43 ≤ c.toNat ∧ c.toNat < 0x7f := by
    simp only [isNumberPart, isDigitPart, Bool.or_eq_true, beq_iff_eq, Text.isAlphanum_iff,
      Text.isUpper_iff, Text.isLower_iff, Text.isDigit_iff] at h
    rcases h with (((h | rfl) | rfl) | rfl) | rfl
    · omega
    all_goals decide
  have hjoiner {d : Char} (hd : 0x7f ≤ d.toNat) : (c == d) = false := by
    refine beq_eq_false_iff_ne.2 fun heq => ?_
    rw [heq] at hrange
    omega
  have hblank : Text.isBlank c = false := by
    simp only [Text.isBlank, Bool.or_eq_false_iff, Bool.and_eq_false_iff, decide_eq_false_iff_not,
      beq_eq_false_iff_ne]
    omega
  simp [isSpace, hblank, hjoiner (d := '\uFEFF') (by decide), hjoiner (d := '\u2060') (by decide),
    hjoiner (d := '\u200B') (by decide)]

/-- What is taken as digits can be part of a number. -/
lemma all_takeDigits (cs : List Char) : (takeDigits cs).1.all isNumberPart = true := by
  rw [List.all_eq_true, takeDigits, List.span_eq_takeWhile_dropWhile]
  intro c hc
  rcases Bool.or_eq_true _ _ ▸ List.mem_takeWhile_imp hc with hc | hc
  · exact isNumberPart_of_isDigit hc
  · rw [eq_of_beq hc]
    rfl

/-- So can what is taken as a fraction. -/
lemma all_takeFraction (cs : List Char) : (takeFraction cs).1.all isNumberPart = true := by
  fun_cases takeFraction cs with
  | case1 cs ds rest h =>
    have hds : ds.all isNumberPart = true := by simpa only [h] using all_takeDigits cs
    rw [List.all_cons, hds]
    rfl
  | case2 => rfl

/-- So can what is taken as an exponent. -/
lemma all_takeExponent (cs : List Char) : (takeExponent cs).1.all isNumberPart = true := by
  fun_cases takeExponent cs with
  | case1 | case4 | case6 | case7 => rfl
  | case2 e s d cs he hsign ds rest h =>
    have hds : ds.all isNumberPart = true := by simpa only [h] using all_takeDigits cs
    obtain ⟨hs, hd⟩ := Bool.and_eq_true _ _ ▸ hsign
    have hs : isNumberPart s = true := by
      rcases Bool.or_eq_true _ _ ▸ hs with hs | hs <;> rw [eq_of_beq hs] <;> rfl
    simp only [List.all_cons, isNumberPart_of_toLower he, hs, isNumberPart_of_isDigit hd, hds,
      Bool.and_self]
  | case3 e s d cs he _ hs ds rest h =>
    have hds : ds.all isNumberPart = true := by simpa only [h] using all_takeDigits (d :: cs)
    simp only [List.all_cons, isNumberPart_of_toLower he, isNumberPart_of_isDigit hs, hds,
      Bool.and_self]
  | case5 e d h =>
    obtain ⟨he, hd⟩ := Bool.and_eq_true _ _ ▸ h
    have he : ¬(e.toLower != 'e') = true := by simpa using he
    simp [isNumberPart_of_toLower he, isNumberPart_of_isDigit hd]

/-- So can what is taken as a number. -/
lemma all_takeNumber (cs : List Char) : (takeNumber cs).1.all isNumberPart = true := by
  have hdecimal (cs) : (takeNumber.decimal cs).1.all isNumberPart = true := by
    have hwhole := all_takeDigits cs
    have hfraction := all_takeFraction (takeDigits cs).2
    have hexponent := all_takeExponent (takeFraction (takeDigits cs).2).2
    have hn : isNumberPart 'n' = true := rfl
    fun_cases takeNumber.decimal cs <;> simp_all
  fun_cases takeNumber cs with
  | case1 b rest hb ds rest' h =>
    rw [List.span_eq_takeWhile_dropWhile] at h
    cases h
    have hb : isNumberPart b = true := by
      rcases base_cases hb with rfl | rfl | rfl | rfl | rfl | rfl <;> rfl
    have hds : (rest.takeWhile isDigitPart).all isNumberPart = true :=
      List.all_eq_true.2 fun c hc => by simp [isNumberPart, List.mem_takeWhile_imp hc]
    rw [List.all_cons, List.all_cons, hb, hds]
    rfl
  | case2 | case3 => exact hdecimal _

/-- How a number is spelled: without blanks, and with a digit. -/
def IsNumberText (cs : List Char) : Prop :=
  (∀ c ∈ cs, Text.isBlank c = false) ∧ ∃ c ∈ cs, c.isDigit = true

/-- A token that is a number is spelled like one. -/
lemma isNumberText_of_read {cs : List Char} (h : (Token.read cs).1 = .number) :
    IsNumberText (Token.read cs).2.1 := by
  have hstarts := startsNumber_of_read h
  rw [read_of_startsNumber hstarts]
  refine ⟨fun c hc => ?_, exists_isDigit_of_takeNumber hstarts⟩
  have hspace := isSpace_of_isNumberPart (List.all_eq_true.1 (all_takeNumber cs) c hc)
  simp only [isSpace, Bool.or_eq_false_iff] at hspace
  exact hspace.1.1.1

/-- No blank begins with a part of a number. -/
lemma blank?_of_isNumberPart {c : Char} (hc : isNumberPart c = true) (cs : List Char) :
    blank? (c :: cs) = none := by
  unfold blank?
  split
  · next heq =>
    cases heq
    exact absurd hc (by decide)
  · next heq =>
    cases heq
    exact absurd hc (by decide)
  · next heq =>
    cases heq
    rw [if_neg (by simp [isSpace_of_isNumberPart hc])]
  · rfl

/-- No remark does, if it is no dash. -/
lemma remark?_of_isNumberPart {c : Char} (hc : isNumberPart c = true) (hne : c ≠ '-')
    (cs : List Char) : remark? (c :: cs) = none := by
  unfold remark?
  split
  · next heq =>
    cases heq
    exact absurd hc (by decide)
  · next heq =>
    cases heq
    exact absurd rfl hne
  · rfl

/-- In front of a number there are neither blanks nor remarks. -/
lemma nothing_before_number {cs : List Char} (h : startsNumber cs = true) :
    blank? cs = none ∧ remark? cs = none := by
  obtain - | ⟨c, cs⟩ := cs
  · cases h
  have hc : isNumberPart c = true ∧ c ≠ '-' := by
    rcases Bool.or_eq_true _ _ ▸ h with hdigit | hpoint
    · refine ⟨isNumberPart_of_isDigit hdigit, ?_⟩
      rintro rfl
      cases hdigit
    · obtain ⟨hpoint, -⟩ := Bool.and_eq_true _ _ ▸ hpoint
      rw [eq_of_beq hpoint]
      decide
  exact ⟨blank?_of_isNumberPart hc.1 cs, remark?_of_isNumberPart hc.1 hc.2 cs⟩

end StoreBindings.Syntax
