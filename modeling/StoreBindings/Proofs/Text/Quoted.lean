import Mathlib.Data.List.Basic
import Mathlib.Data.Option.Basic
import StoreBindings.Json.Reader
import StoreBindings.Text.Basic

/-!
# Quoted text is read back

What is written between quotes is JSON: reading it gives the text, and nothing of what follows the
closing quote is touched (`readText_escaped`). So it can be told where a quoted text ends, whatever
the text holds, and which text it was: `quoted_append_inj`. And it stays on one line, since a line feed
is escaped as well: `feed_not_mem_quoted`.

Where a text ends that is not quoted is told by the first character that cannot belong to it:
`append_inj_of_forall`.
-/

namespace StoreBindings.Text

open Json (Piece readPieces readText assemble hexNumber? escaped?)

/-! ## Escapes -/

/-- The part of a quoted text that a character is written as. -/
def pieceOf (c : Char) : Piece :=
  if c.toNat < 0x20 ∧ c ∉ ['\x08', '\x0c', '\n', '\r', '\t'] then .code c.toNat else .char c

lemma hexNumber?_hexDigits : ∀ n < 0x20,
    hexNumber? ['0', '0', hexDigit (n / 16), hexDigit (n % 16)] = some n := by
  decide

/-- A line feed is written as two other characters. -/
lemma feed_not_mem_escape (c : Char) : '\n' ∉ escape c := by
  by_cases hlow : c.toNat < 0x20
  · have hcontrols : ∀ n < 0x20, '\n' ∉ escape (Char.ofNat n) := by decide
    rw [← Char.ofNat_toNat c]
    exact hcontrols _ hlow
  · have hc : '\n' ≠ c := by
      rintro rfl
      exact hlow (by decide)
    unfold escape
    rw [if_neg hlow]
    repeat' split
    all_goals simp [hc]

/-- So what is escaped stays on its line. -/
lemma feed_not_mem_escaped (cs : List Char) : '\n' ∉ cs.flatMap escape := by
  rw [List.mem_flatMap]
  rintro ⟨c, -, hc⟩
  exact feed_not_mem_escape c hc

/-- So does a quoted text. -/
lemma feed_not_mem_quoted (cs : List Char) : '\n' ∉ quoted cs := by
  simp [quoted, feed_not_mem_escape]

/-- A part is read off the front, and what follows is read as it would be without it. -/
lemma readPieces_escape (c : Char) (rest : List Char) :
    readPieces (escape c ++ rest) =
      (readPieces rest).map fun (ps, after) => (pieceOf c :: ps, after) := by
  have hbind : ∀ p, ((readPieces rest).bind fun (ps, after) => some (p :: ps, after)) =
      (readPieces rest).map fun (ps, after) => (p :: ps, after) := fun p => by
    cases readPieces rest <;> rfl
  by_cases hletter : c ∈ ['"', '\\', '\x08', '\x0c', '\n', '\r', '\t']
  · -- a backslash and a letter for each of these
    simp only [List.mem_cons, List.not_mem_nil, or_false] at hletter
    rcases hletter with rfl | rfl | rfl | rfl | rfl | rfl | rfl <;> exact hbind _
  · simp only [List.mem_cons, List.not_mem_nil, or_false, not_or] at hletter
    obtain ⟨hquote, hback, hletters⟩ := hletter
    by_cases hlow : c.toNat < 0x20
    · have hescape : escape c =
          ['\\', 'u', '0', '0', hexDigit (c.toNat / 16), hexDigit (c.toNat % 16)] := by
        simp [escape, hquote, hback, hletters, hlow]
      have hpiece : pieceOf c = .code c.toNat := by simp [pieceOf, hlow, hletters]
      rw [hescape, hpiece, ← hbind]
      simp [readPieces, hexNumber?_hexDigits c.toNat hlow]
    · have hescape : escape c = [c] := by simp [escape, hquote, hback, hletters, hlow]
      have hpiece : pieceOf c = .char c := by simp [pieceOf, hlow]
      rw [hescape, hpiece, ← hbind]
      simp [readPieces, hback, guard, Nat.not_lt.1 hlow]

lemma readPieces_escaped (cs rest : List Char) :
    readPieces (cs.flatMap escape ++ '"' :: rest) = some (cs.map pieceOf, rest) := by
  induction cs with
  | nil => rfl
  | cons c cs ih =>
    rw [List.flatMap_cons, List.append_assoc, readPieces_escape, ih]
    rfl

/-- A code that is no half of a character stands for itself. -/
lemma assemble_code {n : Nat} (h : n < 0x20) (ps : List Piece) :
    assemble (.code n :: ps) = (assemble ps).map (Char.ofNat n :: ·) := by
  have hhigh : Json.isHigh n = false := by simp [Json.isHigh, show ¬0xD800 ≤ n by omega]
  have hlow : Json.isLow n = false := by simp [Json.isLow, show ¬0xDC00 ≤ n by omega]
  match ps with
  | [] | .char c :: ps | .code m :: ps => simp [assemble, hhigh, hlow]

lemma assemble_pieces (cs : List Char) : assemble (cs.map pieceOf) = some cs := by
  induction cs with
  | nil => rfl
  | cons c cs ih =>
    rw [List.map_cons, pieceOf]
    split
    · next h => rw [assemble_code h.1, ih, Option.map_some, Char.ofNat_toNat]
    · rw [assemble, ih, Option.map_some]

/-- A quoted text is read back, and what follows it is left. -/
theorem readText_escaped (cs rest : List Char) :
    readText (cs.flatMap escape ++ '"' :: rest) = some (some (String.ofList cs), rest) := by
  simp [readText, readPieces_escaped, assemble_pieces]

/-- It can be told where a quoted text ends. -/
theorem quoted_append_inj {cs cs' r r' : List Char} (h : quoted cs ++ r = quoted cs' ++ r') :
    cs = cs' ∧ r = r' := by
  have hread : readText (cs.flatMap escape ++ '"' :: r) =
      readText (cs'.flatMap escape ++ '"' :: r') := by
    simp only [quoted, List.cons_append, List.append_assoc, List.nil_append] at h
    rw [(List.cons.inj h).2]
  rw [readText_escaped, readText_escaped] at hread
  simpa [String.ofList_inj] using hread

/-- It can be told where a text ends if what follows it begins with a character that the text does
not have. -/
theorem append_inj_of_forall (p : Char → Bool) {a b r s : List Char} (ha : ∀ c ∈ a, p c = true)
    (hb : ∀ c ∈ b, p c = true) (hr : r.head?.all (!p ·) = true) (hs : s.head?.all (!p ·) = true)
    (h : a ++ r = b ++ s) : a = b ∧ r = s := by
  have htake : ∀ {l t : List Char}, (∀ c ∈ l, p c = true) → t.head?.all (!p ·) = true →
      (l ++ t).takeWhile p = l := by
    intro l t hl ht
    rw [List.takeWhile_append_of_pos hl]
    cases t with
    | nil => simp
    | cons x t => simp_all
  have hab : a = b := by rw [← htake ha hr, h, htake hb hs]
  subst hab
  exact ⟨rfl, List.append_cancel_left h⟩

end StoreBindings.Text
