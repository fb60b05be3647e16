import Mathlib.Data.List.TakeDrop
import Mathlib.Data.List.TakeWhile
import StoreBindings.Syntax.Token

/-!
# What tokens are cut out of a text

Reading a token or the blanks before it cuts a text in two: nothing is left out and nothing added
(`read_append`, `skipBlanks_append`), and behind the blanks there is no white space
(`blank?_skipBlanks`). Every word has a character in it that is no part of a number.
-/

namespace StoreBindings.Syntax

/-! ## Nothing is left out -/

/-- Taking a name cuts the text in two. -/
lemma takeName_append (state : NameState) (cs : List Char) :
    (takeName state cs).1 ++ (takeName state cs).2 = cs := by
  induction cs generalizing state with
  | nil => rfl
  | cons c cs ih =>
    cases state <;> dsimp only [takeName]
    all_goals repeat' split
    all_goals first | rfl | exact congrArg (c :: ·) (ih _)

lemma takeDigits_append (cs : List Char) : (takeDigits cs).1 ++ (takeDigits cs).2 = cs := by
  rw [takeDigits, List.span_eq_takeWhile_dropWhile, List.takeWhile_append_dropWhile]

lemma takeExponent_append (cs : List Char) : (takeExponent cs).1 ++ (takeExponent cs).2 = cs := by
  fun_cases takeExponent cs with
  | case1 | case5 | case7 => rfl
  | case2 e s d cs _ _ ds rest h => 
    rw [← takeDigits_append cs, h]
    rfl
  | case3 e s d cs _ _ _ ds rest h => 
    have := takeDigits_append (d :: cs)
    rw [h] at this
    simp [← this]
  | case4 | case6 => rfl

lemma takeFraction_append (cs : List Char) : (takeFraction cs).1 ++ (takeFraction cs).2 = cs := by
  fun_cases takeFraction cs with
  | case1 cs ds rest h =>
    rw [← takeDigits_append cs, h]
    rfl
  | case2 => rfl

/-- So does taking a number, part by part. -/
lemma takeNumber_append (cs : List Char) : (takeNumber cs).1 ++ (takeNumber cs).2 = cs := by
  have hdecimal (cs) : (takeNumber.decimal cs).1 ++ (takeNumber.decimal cs).2 = cs := by
    have hwhole := takeDigits_append cs
    have hfraction := takeFraction_append (takeDigits cs).2
    have hexponent := takeExponent_append (takeFraction (takeDigits cs).2).2
    fun_cases takeNumber.decimal cs <;> simp_all
  fun_cases takeNumber cs with
  | case1 b rest _ ds rest' h =>
    rw [List.span_eq_takeWhile_dropWhile] at h
    cases h
    simp
  | case2 | case3 => exact hdecimal _

/-- So does taking what is quoted, up to its closing quote. -/
lemma takeQuoted_append {quote : Char} {escaped : Bool} {cs s rest : List Char}
    (h : takeQuoted quote escaped cs = some (s, rest)) : s ++ rest = cs := by
  induction cs generalizing escaped s with
  | nil => cases h
  | cons c cs ih =>
    have hgo {escaped : Bool} (h : ((takeQuoted quote escaped cs).map fun read =>
        (c :: read.1, read.2)) = some (s, rest)) : s ++ rest = c :: cs := by
      obtain ⟨⟨s', rest'⟩, hread, h⟩ := Option.map_eq_some_iff.1 h
      cases h
      rw [List.cons_append, ih hread]
    unfold takeQuoted at h
    repeat' split at h
    all_goals first | exact hgo h | (cases h; rfl) | cases h

/-- So does taking a comment. -/
lemma takeBlockComment_append (cs : List Char) :
    (takeBlockComment cs).1 ++ (takeBlockComment cs).2 = cs := by
  fun_induction takeBlockComment cs <;> simp_all

/-- A blank and what stands behind it are the text that is read. -/
lemma blank?_append {cs rest : List Char} {t : Tree} (h : blank? cs = some (t, rest)) :
    t.chars ++ rest = cs := by
  unfold blank? at h
  split at h
  · rw [List.span_eq_takeWhile_dropWhile] at h
    cases h
    simp [Tree.chars]
  · next cs =>
    cases h
    simp [Tree.chars, takeBlockComment_append]
  · split at h
    · rw [List.span_eq_takeWhile_dropWhile] at h
      cases h
      simp [Tree.chars]
    · cases h
  · cases h

/-- Skipped blanks are the front of the text. -/
theorem skipBlanks_append (fuel : Nat) (cs : List Char) :
    Tree.charsOfAll (skipBlanks fuel cs).1 ++ (skipBlanks fuel cs).2 = cs := by
  fun_induction skipBlanks fuel cs with
  | case1 | case3 => rfl
  | case2 fuel cs leaf rest hblank more rest' h ih =>
    rw [h] at ih
    simp only [Tree.charsOfAll, List.append_assoc]
    rw [ih, blank?_append hblank]

/-- So is a remark. -/
lemma remark?_append {cs rest : List Char} {t : Tree} (h : remark? cs = some (t, rest)) :
    t.chars ++ rest = cs := by
  unfold remark? at h
  split at h
  case h_3 => cases h
  all_goals
    rw [remark?.line, List.span_eq_takeWhile_dropWhile] at h
    cases h
    simp [Tree.chars]

/-- A token and what stands behind it are the text that is read. -/
theorem read_append (cs : List Char) :
    (Token.read cs).2.1 ++ (Token.read cs).2.2 = cs := by
  unfold Token.read
  split
  · rfl
  · next c cs =>
    dsimp only
    repeat' split
    all_goals try rfl
    · exact takeName_append _ _
    · exact takeNumber_append _
    · next h => exact congrArg (c :: ·) (takeQuoted_append h)
    · exact congrArg (c :: ·) (takeName_append _ _)
    · exact List.take_append_drop _ _

/-! ## Behind the blanks -/

/-- A blank is not empty. -/
lemma length_lt_of_blank? {cs rest : List Char} {t : Tree} (h : blank? cs = some (t, rest)) :
    rest.length < cs.length := by
  have ht : t.chars ≠ [] := by
    unfold blank? at h
    repeat' split at h
    all_goals cases h
    all_goals simp [Tree.chars]
  rw [← blank?_append h, List.length_append]
  exact Nat.lt_add_of_pos_left (List.length_pos_iff.2 ht)

/-- With as much fuel as there are characters, all blanks are skipped. -/
theorem blank?_skipBlanks {fuel : Nat} {cs : List Char} (h : cs.length ≤ fuel) :
    blank? (skipBlanks fuel cs).2 = none := by
  fun_induction skipBlanks fuel cs with
  | case1 cs =>
    rw [List.eq_nil_of_length_eq_zero (Nat.le_zero.1 h)]
    rfl
  | case2 fuel cs leaf rest hblank more rest' hmore ih =>
    have hlength := length_lt_of_blank? hblank
    simpa [hmore] using ih (by omega)
  | case3 _ _ hblank => exact hblank

/-- Where no blank is next nothing is skipped. -/
lemma skipBlanks_of_blank? {cs : List Char} (h : blank? cs = none) (fuel : Nat) :
    skipBlanks fuel cs = ([], cs) := by
  cases fuel with
  | zero => rfl
  | succ fuel => rw [skipBlanks, h]

/-- Behind the blanks there is no white space. -/
lemma isSpace_of_blank? {c : Char} {cs : List Char} (h : blank? (c :: cs) = none) :
    isSpace c = false := by
  unfold blank? at h
  split at h
  · cases h
  · cases h
  · next heq =>
    cases heq
    split at h
    · cases h
    · next hspace => exact Bool.eq_false_iff.2 hspace
  · next heq => cases heq

/-! ## What tokens look like -/

/-- A character that is neither of a number nor a point nor a blank. -/
def isTelling (c : Char) : Bool := c != '.' && !Text.isBlank c && !c.isDigit

/-- What begins a name is neither of a number nor a blank. -/
lemma isTelling_of_isNameStart {c : Char} (h : (isNameStart c || c == '\\') = true) :
    isTelling c = true := by
  rcases Bool.or_eq_true _ _ ▸ h with h | h
  · simp only [isNameStart, isNamePart, isSpace, Bool.and_eq_true, Bool.not_eq_true',
      Bool.or_eq_false_iff] at h
    have hpoint : c ≠ '.' := by
      rintro rfl
      exact absurd h.1.2 (by decide)
    simp [isTelling, hpoint, h]
  · rw [eq_of_beq h]
    decide

/-- A word begins with a telling character. -/
lemma isTelling_of_read {cs : List Char} {w : String} (h : (Token.read cs).1 = .word w) :
    ∃ c ∈ (Token.read cs).2.1, isTelling c = true := by
  have happend := read_append cs
  unfold Token.read at h happend ⊢
  split at h
  · cases h
  · next c cs =>
    dsimp only at h happend ⊢
    -- a word is read only where a name or an escape begins
    by_cases hname : (isNameStart c || c == '\\') = true
    · rw [if_pos hname] at h happend ⊢
      split at h
      · cases h
      · next hempty =>
        rw [if_neg hempty] at happend ⊢
        obtain ⟨a, name, hcons⟩ := List.exists_cons_of_ne_nil (mt List.isEmpty_iff.2 hempty)
        simp only [hcons, List.cons_append, List.cons.injEq] at happend ⊢
        exact ⟨a, List.mem_cons_self, happend.1 ▸ isTelling_of_isNameStart hname⟩
    · rw [if_neg hname] at h
      repeat' split at h
      all_goals cases h

/-- A punctuation mark has a character. -/
lemma ne_nil_of_read {cs : List Char} {s : String} (h : (Token.read cs).1 = .symbol s) :
    s.toList ≠ [] := by
  have hmark {cs : List Char} (hmark : symbol? cs = some s) : s.toList ≠ [] := by
    unfold symbol? at hmark
    repeat' split at hmark
    all_goals cases hmark
    all_goals simp
  unfold Token.read at h
  split at h
  · cases h
  · dsimp only at h
    repeat' split at h
    all_goals cases h
    next h => exact hmark h

end StoreBindings.Syntax
