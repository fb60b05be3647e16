import Mathlib.Data.List.TakeDrop
import Mathlib.Data.List.TakeWhile
import Mathlib.Data.Option.Basic
import StoreBindings.Json.Reader

/-!
# The leaves of JSON

The spaces, texts and numbers of JSON as languages of their own (`IsSpaced`, `IsText`, `IsNumber`),
apart from the functions that read them. Each function reads what its language says, and nothing
else: of every pair of lemmas one says that what is written is read, and one that what is read is
so written.

No function knows where to stop on its own. A number goes on as long as it can, so it is read back
only where nothing follows that could continue it: `Ends`.
-/

namespace StoreBindings.Json

/-! ## Spaces -/

lemma isSpace_iff {c : Char} :
    isSpace c = true ↔ c = ' ' ∨ c = '\n' ∨ c = '\t' ∨ c = '\r' := by
  simp [isSpace, or_assoc]

/-- The spaces of JSON are blanks. -/
lemma isBlank_of_isSpace {c : Char} (h : isSpace c = true) : Text.isBlank c = true := by
  rcases isSpace_iff.1 h with rfl | rfl | rfl | rfl <;> rfl

/-- What is no blank is no space of JSON. -/
lemma isSpace_eq_false_of_isBlank {c : Char} (h : Text.isBlank c = false) : isSpace c = false :=
  Bool.eq_false_iff.2 fun hc => by simp [isBlank_of_isSpace hc] at h

/-- What holds of no space and of a character tells it from a space. -/
lemma isSpace_eq_false (p : Char → Bool) {c : Char} (h : p c = true)
    (hp : ([' ', '\n', '\t', '\r'].any p) = false) : isSpace c = false := by
  rw [Bool.eq_false_iff]
  intro hc
  have hmem : c ∈ [' ', '\n', '\t', '\r'] := by simpa using isSpace_iff.1 hc
  exact List.any_eq_false.1 hp c hmem h

/-- Spaces alone. -/
def IsSpaced (cs : List Char) : Prop := ∀ c ∈ cs, isSpace c = true

/-- Spaces are skipped. -/
lemma skip_append {spaces : List Char} (h : IsSpaced spaces) (rest : List Char) :
    skip (spaces ++ rest) = skip rest := List.dropWhile_append_of_pos h

/-- Nothing is skipped where no space is next. -/
lemma skip_eq_self {cs : List Char} (h : cs.head?.all (!isSpace ·) = true) : skip cs = cs := by
  cases cs with
  | nil => rfl
  | cons c cs => exact List.dropWhile_cons_of_neg (by simpa using h)

/-- Only spaces are skipped. -/
lemma exists_isSpaced (cs : List Char) : ∃ spaces, IsSpaced spaces ∧ cs = spaces ++ skip cs :=
  ⟨cs.takeWhile isSpace, fun _ => List.mem_takeWhile_imp, List.takeWhile_append_dropWhile.symm⟩

/-- The characters with a property are split off up to one without it. -/
lemma span_append (p : Char → Bool) {l rest : List Char} (hl : ∀ c ∈ l, p c = true)
    (hrest : rest.head?.all (!p ·) = true) : (l ++ rest).span p = (l, rest) := by
  have hnone : rest.takeWhile p = [] ∧ rest.dropWhile p = rest := by
    cases rest with
    | nil => exact ⟨rfl, rfl⟩
    | cons c rest =>
      have hc : ¬p c = true := by simpa using hrest
      exact ⟨List.takeWhile_cons_of_neg hc, List.dropWhile_cons_of_neg hc⟩
  rw [List.span_eq_takeWhile_dropWhile, List.takeWhile_append_of_pos hl,
    List.dropWhile_append_of_pos hl, hnone.1, hnone.2, List.append_nil]

/-! ## Texts -/

/-- What stands between the quotes of a text, and the parts that it is written for. -/
inductive IsText : List Char → List Piece → Prop
  | nil : IsText [] []
  | char {c cs ps} : 0x20 ≤ c.toNat → c ≠ '"' → c ≠ '\\' → IsText cs ps →
      IsText (c :: cs) (.char c :: ps)
  | escape {e c cs ps} : escaped? e = some c → IsText cs ps → IsText ('\\' :: e :: cs) (.char c :: ps)
  | code {a b c d n cs ps} : hexNumber? [a, b, c, d] = some n → IsText cs ps →
      IsText ('\\' :: 'u' :: a :: b :: c :: d :: cs) (.code n :: ps)

/-- The text that parts stand for, if each half of a character meets its other half. -/
def textOf (ps : List Piece) : Option String := (assemble ps).map String.ofList

/-- What stands between quotes is read up to the closing one. -/
lemma IsText.readPieces {body : List Char} {ps : List Piece} (h : IsText body ps)
    (rest : List Char) : readPieces (body ++ '"' :: rest) = some (ps, rest) := by
  induction h with
  | nil => rfl
  | char hlow _ hslash _ ih => simp [Json.readPieces, guard, hlow, hslash, ih]
  | @escape e c cs ps he _ ih =>
    have hu : e ≠ 'u' := by
      rintro rfl
      simp [escaped?] at he
    simp [Json.readPieces, hu, he, ih]
  | code hn _ ih => simp [Json.readPieces, hn, ih]

/-- What has been read stands in front of a closing quote. -/
lemma isText_of_readPieces {cs rest : List Char} {ps : List Piece}
    (h : readPieces cs = some (ps, rest)) : ∃ body, IsText body ps ∧ cs = body ++ '"' :: rest := by
  fun_induction readPieces cs generalizing ps with
  | case1 => simp at h
  | case2 cs =>
    simp only [Option.some.injEq, Prod.mk.injEq] at h
    exact ⟨[], h.1 ▸ .nil, by simp [h.2]⟩
  | case3 a b c d cs ih =>
    simp only [Option.bind_eq_bind, Option.bind_eq_some_iff, Option.pure_def, Option.some.injEq,
      Prod.mk.injEq, Prod.exists] at h
    obtain ⟨n, hn, qs, _, hqs, rfl, rfl⟩ := h
    obtain ⟨body, hbody, rfl⟩ := ih hqs
    exact ⟨_, .code hn hbody, rfl⟩
  | case4 e cs _ ih =>
    simp only [Option.bind_eq_bind, Option.bind_eq_some_iff, Option.pure_def, Option.some.injEq,
      Prod.mk.injEq, Prod.exists] at h
    obtain ⟨c, hc, qs, _, hqs, rfl, rfl⟩ := h
    obtain ⟨body, hbody, rfl⟩ := ih hqs
    exact ⟨_, .escape hc hbody, rfl⟩
  | case5 c cs hquote _ _ ih =>
    simp only [Option.bind_eq_bind, Option.bind_eq_some_iff, Option.guard_eq_some', Option.pure_def,
      Option.some.injEq, Prod.mk.injEq, Prod.exists, Bool.and_eq_true, decide_eq_true_eq,
      bne_iff_ne] at h
    obtain ⟨_, ⟨hlow, hslash⟩, qs, _, hqs, rfl, rfl⟩ := h
    obtain ⟨body, hbody, rfl⟩ := ih hqs
    exact ⟨_, .char hlow hquote hslash hbody, rfl⟩

/-- So the language of texts can be decided by reading. -/
lemma isText_iff {body : List Char} {ps : List Piece} :
    IsText body ps ↔ readPieces (body ++ ['"']) = some (ps, []) := by
  refine ⟨fun h => h.readPieces [], fun h => ?_⟩
  obtain ⟨body', hbody, heq⟩ := isText_of_readPieces h
  rwa [List.append_cancel_right heq]

instance (body : List Char) (ps : List Piece) : Decidable (IsText body ps) :=
  decidable_of_iff _ isText_iff.symm

/-! ## Numbers -/

/-- At least one digit. -/
def IsDigits (ds : List Char) : Prop := ds ≠ [] ∧ ∀ c ∈ ds, c.isDigit = true

/-- The whole part of a number, without a leading zero. -/
inductive IsWhole : List Char → Prop
  | zero : IsWhole ['0']
  | digits {d ds} : IsDigits (d :: ds) → d ≠ '0' → IsWhole (d :: ds)

/-- The part of a number behind its point, if there is one. -/
inductive IsFraction : List Char → Prop
  | nil : IsFraction []
  | point {ds} : IsDigits ds → IsFraction ('.' :: ds)

/-- The exponent of a number, if there is one. -/
inductive IsExponent : List Char → Prop
  | nil : IsExponent []
  | plain {e ds} : e = 'e' ∨ e = 'E' → IsDigits ds → IsExponent (e :: ds)
  | signed {e s ds} : e = 'e' ∨ e = 'E' → s = '+' ∨ s = '-' → IsDigits ds →
      IsExponent (e :: s :: ds)

/-- A number. -/
inductive IsNumber : List Char → Prop
  | positive {whole fraction exponent} : IsWhole whole → IsFraction fraction →
      IsExponent exponent → IsNumber (whole ++ (fraction ++ exponent))
  | negative {whole fraction exponent} : IsWhole whole → IsFraction fraction →
      IsExponent exponent → IsNumber ('-' :: (whole ++ (fraction ++ exponent)))

/-- Whether a number can go on with a character. -/
def continuesNumber (c : Char) : Bool := c.isDigit || c == '.' || c == 'e' || c == 'E'

/-- A number does not go on. -/
def Ends (cs : List Char) : Prop := cs.head?.all (!continuesNumber ·) = true

/-- What ends a number is no digit, no point and no `e`. -/
lemma Ends.head {c : Char} {cs : List Char} (h : Ends (c :: cs)) :
    c.isDigit = false ∧ c ≠ '.' ∧ c ≠ 'e' ∧ c ≠ 'E' := by
  simpa [Ends, continuesNumber, and_assoc] using h

/-- Digits are read up to something else. -/
lemma IsDigits.readDigits {ds rest : List Char} (h : IsDigits ds)
    (hrest : rest.head?.all (!Char.isDigit ·) = true) :
    readDigits (ds ++ rest) = some (ds, rest) := by
  rw [Json.readDigits, span_append Char.isDigit h.2 hrest]
  simp [h.1]

/-- What has been read as digits are digits, and at least one. -/
lemma isDigits_of_readDigits {cs ds rest : List Char} (h : readDigits cs = some (ds, rest)) :
    IsDigits ds ∧ cs = ds ++ rest := by
  rw [readDigits, List.span_eq_takeWhile_dropWhile] at h
  dsimp only at h
  split at h
  · simp at h
  · next hne =>
    simp only [Option.some.injEq, Prod.mk.injEq] at h
    obtain ⟨rfl, rfl⟩ := h
    exact ⟨⟨by simpa using hne, fun _ => List.mem_takeWhile_imp⟩,
      List.takeWhile_append_dropWhile.symm⟩

/-- A number that could go on with digits, a point or an exponent does not. -/
lemma Ends.digits {cs : List Char} (h : Ends cs) : cs.head?.all (!Char.isDigit ·) = true := by
  cases cs with
  | nil => rfl
  | cons c cs => simp [h.head.1]

/-- A whole part is read up to what is no digit. -/
lemma IsWhole.readWhole {whole rest : List Char} (h : IsWhole whole)
    (hrest : rest.head?.all (!Char.isDigit ·) = true) :
    readWhole (whole ++ rest) = some (whole, rest) := by
  cases h with
  | zero =>
    have hdigit : rest.head?.any Char.isDigit = false := by
      cases rest with
      | nil => rfl
      | cons c rest => simpa using hrest
    simp [Json.readWhole, hdigit]
  | @digits d ds hds hzero =>
    have hread := hds.readDigits hrest
    simpa [Json.readWhole, hzero] using hread

/-- What has been read as a whole part is one. -/
lemma isWhole_of_readWhole {cs whole rest : List Char}
    (h : readWhole cs = some (whole, rest)) : IsWhole whole ∧ cs = whole ++ rest := by
  unfold readWhole at h
  split at h
  · next cs =>
    split at h
    · simp at h
    · simp only [Option.some.injEq, Prod.mk.injEq] at h
      obtain ⟨rfl, rfl⟩ := h
      exact ⟨.zero, rfl⟩
  · next hzero =>
    obtain ⟨hds, rfl⟩ := isDigits_of_readDigits h
    cases whole with
    | nil => exact absurd rfl hds.1
    | cons d ds => exact ⟨.digits hds fun hd => hzero (ds ++ rest) (by rw [hd]; rfl), rfl⟩

/-- A fraction is read up to what is neither digit nor point. -/
lemma IsFraction.readFraction {fraction rest : List Char} (h : IsFraction fraction)
    (hdigit : rest.head?.all (!Char.isDigit ·) = true) (hpoint : rest.head? ≠ some '.') :
    readFraction (fraction ++ rest) = some (fraction, rest) := by
  cases h with
  | nil =>
    rw [List.nil_append, Json.readFraction]
    rintro cs rfl
    exact hpoint rfl
  | point hds => simp [Json.readFraction, hds.readDigits hdigit]

/-- What has been read as a fraction is one, or nothing. -/
lemma isFraction_of_readFraction {cs fraction rest : List Char}
    (h : readFraction cs = some (fraction, rest)) : IsFraction fraction ∧ cs = fraction ++ rest := by
  unfold readFraction at h
  split at h
  · next cs =>
    simp only [Option.bind_eq_bind, Option.bind_eq_some_iff, Option.pure_def, Option.some.injEq,
      Prod.mk.injEq, Prod.exists] at h
    obtain ⟨ds, _, hread, rfl, rfl⟩ := h
    obtain ⟨hds, rfl⟩ := isDigits_of_readDigits hread
    exact ⟨.point hds, rfl⟩
  · simp only [Option.some.injEq, Prod.mk.injEq] at h
    obtain ⟨rfl, rfl⟩ := h
    exact ⟨.nil, rfl⟩

/-- An exponent is read up to what ends a number. -/
lemma IsExponent.readExponent {exponent rest : List Char} (h : IsExponent exponent)
    (hrest : Ends rest) : readExponent (exponent ++ rest) = some (exponent, rest) := by
  cases h with
  | nil =>
    match rest with
    | [] => rfl
    | [e] => simp [Json.readExponent, hrest.head]
    | e :: s :: rest => simp [Json.readExponent, hrest.head]
  | @plain e ds he hds =>
    match ds with
    | [] => exact absurd rfl hds.1
    | s :: ds =>
      -- the first digit is no sign, so the unsigned form is read
      have hsign : s ≠ '+' ∧ s ≠ '-' := by
        have hs := hds.2 s List.mem_cons_self
        constructor <;> (rintro rfl; simp [Char.isDigit] at hs)
      have hread := hds.readDigits hrest.digits
      rw [List.cons_append] at hread
      simp [Json.readExponent, he, hsign, hread]
  | signed he hs hds => simp [Json.readExponent, he, hs, hds.readDigits hrest.digits]

/-- What has been read as an exponent is one, or nothing. -/
lemma isExponent_of_readExponent {cs exponent rest : List Char}
    (h : readExponent cs = some (exponent, rest)) : IsExponent exponent ∧ cs = exponent ++ rest := by
  fun_cases readExponent cs with
  | case1 e s cs he hs =>
    simp only [readExponent, if_pos he, if_pos hs, Option.bind_eq_bind, Option.bind_eq_some_iff,
      Option.pure_def, Option.some.injEq, Prod.mk.injEq, Prod.exists] at h
    obtain ⟨ds, _, hread, rfl, rfl⟩ := h
    obtain ⟨hds, rfl⟩ := isDigits_of_readDigits hread
    exact ⟨.signed (by simpa using he) (by simpa using hs) hds, rfl⟩
  | case2 e s cs he hs =>
    simp only [readExponent, if_pos he, if_neg hs, Option.bind_eq_bind, Option.bind_eq_some_iff,
      Option.pure_def, Option.some.injEq, Prod.mk.injEq, Prod.exists] at h
    obtain ⟨ds, _, hread, rfl, rfl⟩ := h
    obtain ⟨hds, heq⟩ := isDigits_of_readDigits hread
    exact ⟨.plain (by simpa using he) hds, by rw [heq, List.cons_append]⟩
  | case3 e s cs he =>
    simp only [readExponent, if_neg he, Option.some.injEq, Prod.mk.injEq] at h
    obtain ⟨rfl, rfl⟩ := h
    exact ⟨.nil, rfl⟩
  | case4 e he =>
    rw [readExponent, if_pos he] at h
    cases h
  | case5 e he =>
    simp only [readExponent, if_neg he, Option.some.injEq, Prod.mk.injEq] at h
    obtain ⟨rfl, rfl⟩ := h
    exact ⟨.nil, rfl⟩
  | case6 =>
    simp only [readExponent, Option.some.injEq, Prod.mk.injEq] at h
    obtain ⟨rfl, rfl⟩ := h
    exact ⟨.nil, rfl⟩

/-- Whether a character can stand in a word: `null`, `true`, `false` or a number. -/
def isWordChar (c : Char) : Bool := c.isAlphanum || c == '-' || c == '+' || c == '.'

lemma isWordChar_of_isDigit {c : Char} (h : c.isDigit = true) : isWordChar c = true := by
  simp [isWordChar, Char.isAlphanum, h]

/-- Digits can stand in a word. -/
lemma IsDigits.isWordChar {ds : List Char} (h : IsDigits ds) : ds.all Json.isWordChar = true :=
  List.all_eq_true.2 fun c hc => isWordChar_of_isDigit (h.2 c hc)

/-- So can a whole part. -/
lemma IsWhole.isWordChar {whole : List Char} (h : IsWhole whole) :
    whole.all Json.isWordChar = true := by
  cases h with
  | zero => decide
  | digits hds => exact hds.isWordChar

/-- So can a fraction with its point. -/
lemma IsFraction.isWordChar {fraction : List Char} (h : IsFraction fraction) :
    fraction.all Json.isWordChar = true := by
  cases h with
  | nil => rfl
  | point hds => exact hds.isWordChar

/-- So can an exponent with its sign. -/
lemma IsExponent.isWordChar {exponent : List Char} (h : IsExponent exponent) :
    exponent.all Json.isWordChar = true := by
  cases h with
  | nil => rfl
  | plain he hds => rcases he with rfl | rfl <;> exact hds.isWordChar
  | signed he hs hds =>
    rcases he with rfl | rfl <;> rcases hs with rfl | rfl <;> exact hds.isWordChar

/-- A number is a word. -/
lemma IsNumber.isWordChar {ds : List Char} (h : IsNumber ds) : ds.all Json.isWordChar = true := by
  cases h with
  | positive hw hf he =>
    rw [List.all_append, List.all_append, hw.isWordChar, hf.isWordChar, he.isWordChar]
    rfl
  | negative hw hf he =>
    rw [List.all_cons, List.all_append, List.all_append, hw.isWordChar, hf.isWordChar,
      he.isWordChar]
    rfl

/-- Whether a number can begin with a character. -/
def beginsNumber (c : Char) : Bool := c.isDigit || c == '-'

/-- No number begins with a blank. -/
lemma isBlank_of_beginsNumber {c : Char} (h : beginsNumber c = true) : Text.isBlank c = false := by
  rcases Bool.or_eq_true_iff.1 h with h | h
  · rw [Char.isDigit, Bool.and_eq_true, decide_eq_true_eq, decide_eq_true_eq] at h
    have hlow : 48 ≤ c.toNat := h.1
    have hhigh : c.toNat ≤ 57 := h.2
    simp only [Text.isBlank, Bool.or_eq_false_iff, Bool.and_eq_false_iff, decide_eq_false_iff_not,
      beq_eq_false_iff_ne]
    omega
  · rw [eq_of_beq h]
    rfl

/-- A whole part begins with a digit. -/
lemma IsWhole.exists_cons {whole : List Char} (h : IsWhole whole) :
    ∃ c cs, whole = c :: cs ∧ c.isDigit = true := by
  cases h with
  | zero => exact ⟨_, _, rfl, by decide⟩
  | digits hds => exact ⟨_, _, rfl, hds.2 _ List.mem_cons_self⟩

/-- A number begins with a digit or a sign. -/
lemma IsNumber.exists_cons {ds : List Char} (h : IsNumber ds) :
    ∃ c cs, ds = c :: cs ∧ beginsNumber c = true := by
  cases h with
  | positive hw hf he =>
    obtain ⟨c, cs, rfl, hc⟩ := hw.exists_cons
    exact ⟨c, _, rfl, by simp [beginsNumber, hc]⟩
  | negative => exact ⟨'-', _, rfl, by decide⟩

/-- The parts of a number behind its sign are read one after the other. -/
lemma readWhole_append {whole fraction exponent rest : List Char} (hw : IsWhole whole)
    (hf : IsFraction fraction) (he : IsExponent exponent) (hrest : Ends rest) :
    readWhole (whole ++ (fraction ++ (exponent ++ rest))) =
        some (whole, fraction ++ (exponent ++ rest)) ∧
      readFraction (fraction ++ (exponent ++ rest)) = some (fraction, exponent ++ rest) ∧
      readExponent (exponent ++ rest) = some (exponent, rest) := by
  have hexponent : (exponent ++ rest).head?.all (!Char.isDigit ·) = true ∧
      (exponent ++ rest).head? ≠ some '.' := by
    cases he with
    | nil =>
      refine ⟨hrest.digits, fun hpoint => ?_⟩
      rw [List.nil_append] at hpoint
      simp [Ends, hpoint, continuesNumber] at hrest
    | plain he _ | signed he _ _ => rcases he with rfl | rfl <;> exact ⟨rfl, by simp⟩
  have hfraction : (fraction ++ (exponent ++ rest)).head?.all (!Char.isDigit ·) = true := by
    cases hf with
    | nil => exact hexponent.1
    | point => rfl
  exact ⟨hw.readWhole hfraction, hf.readFraction hexponent.1 hexponent.2, he.readExponent hrest⟩

/-- A number is read where nothing could continue it. -/
lemma IsNumber.readNumber {ds rest : List Char} (h : IsNumber ds) (hrest : Ends rest) :
    readNumber (ds ++ rest) = some (ds, rest) := by
  cases h with
  | @positive whole fraction exponent hw hf he =>
    obtain ⟨hwhole, hfraction, hexponent⟩ := readWhole_append hw hf he hrest
    have hsign : ∀ cs, whole ++ (fraction ++ exponent) ++ rest ≠ '-' :: cs := by
      obtain ⟨c, cs, rfl, hc⟩ := hw.exists_cons
      rintro cs' heq
      obtain rfl : c = '-' := (List.cons.inj heq).1
      exact absurd hc (by decide)
    simp only [List.append_assoc] at hsign ⊢
    simp [Json.readNumber, hwhole, hfraction, hexponent]
  | negative hw hf he =>
    obtain ⟨hwhole, hfraction, hexponent⟩ := readWhole_append hw hf he hrest
    simp [Json.readNumber, hwhole, hfraction, hexponent]

/-- What has been read as a number is one. -/
lemma isNumber_of_readNumber {cs ds rest : List Char} (h : readNumber cs = some (ds, rest)) :
    IsNumber ds ∧ cs = ds ++ rest := by
  simp only [readNumber, Option.bind_eq_bind, Option.bind_eq_some_iff, Option.pure_def,
    Option.some.injEq, Prod.mk.injEq, Prod.exists] at h
  obtain ⟨whole, _, hwhole, fraction, _, hfraction, exponent, _, hexponent, rfl, rfl⟩ := h
  obtain ⟨hw, hcs⟩ := isWhole_of_readWhole hwhole
  obtain ⟨hf, rfl⟩ := isFraction_of_readFraction hfraction
  obtain ⟨he, rfl⟩ := isExponent_of_readExponent hexponent
  split at hcs
  · next cs =>
    dsimp only at hcs
    exact ⟨by simpa using IsNumber.negative hw hf he, by simp [hcs]⟩
  · dsimp only at hcs
    exact ⟨by simpa using IsNumber.positive hw hf he, by simp [hcs]⟩

end StoreBindings.Json
