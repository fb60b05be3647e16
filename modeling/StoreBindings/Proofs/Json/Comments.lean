import Mathlib.Data.List.Chain
import StoreBindings.Config.Compiler
import StoreBindings.Proofs.Json.Grammar
import StoreBindings.Proofs.Text.Basic

/-!
# Taking comments out

A document with comments is tokens with other parts anywhere between them: spaces, comments of both
kinds, and commas before closing brackets (`Document`, `Loose`). `plain` leaves out of it what these
parts are, and nothing else (`plain_written`); what remains is read as any other layout of the
tokens.

All of the work is done on the marks. A part is marked in the same way wherever it stands
(`mark_parts`), so what is left out of a document is what is left out of its parts (`keep_parts`).
The one look ahead, that of a comma, is a look at the next part that counts: `endsNext_parts`.
-/

namespace StoreBindings.Json

/-! ## Documents with comments -/

/-- A part of a document. -/
inductive Part
  | token (t : Token)
  | space (c : Char)
  /-- A comment up to the end of its line, which belongs to it. -/
  | line (body : List Char)
  /-- A comment with an end of its own. -/
  | block (body : List Char)
  /-- A comma behind the last entry of a list. -/
  | comma
deriving DecidableEq, Repr

namespace Part

def written : Part → List Char
  | token t => t.chars
  | space c => [c]
  | line body => '/' :: '/' :: body ++ ['\n']
  | block body => '/' :: '*' :: body ++ ['*', '/']
  | comma => [',']

/-- What is left of a part. The end of a line stays. -/
def kept : Part → List Char
  | token t => t.chars
  | space c => [c]
  | line _ => ['\n']
  | block _ => []
  | comma => []

def token? : Part → Option Token
  | token t => some t
  | _ => none

end Part

/-- Whether a closing bracket is the next of the parts that is neither a space nor a comment. -/
def closesNext : List Part → Bool
  | [] => false
  | .token t :: _ => t.closes
  | .comma :: _ => false
  | _ :: ps => closesNext ps

/-- Spaces are spaces, comments end where they seem to end, and the commas that are parts of their
own stand before closing brackets: one at most before each, with spaces and comments on either
side. A bracket that closes an empty list is no exception. -/
inductive Loose : List Part → Prop
  | nil : Loose []
  | token {t ps} : Loose ps → Loose (.token t :: ps)
  | space {c ps} : isSpace c = true → Loose ps → Loose (.space c :: ps)
  | line {body ps} : '\n' ∉ body → Loose ps → Loose (.line body :: ps)
  | block {body ps} : ¬['*', '/'] <:+: body → Loose ps → Loose (.block body :: ps)
  | comma {ps} : closesNext ps = true → Loose ps → Loose (.comma :: ps)

/-- A document: its parts, and the comment that it ends in, if that has no end of its line. -/
structure Document where
  parts : List Part
  ending : Option (List Char)
deriving DecidableEq, Repr

namespace Document

def endingChars (d : Document) : List Char :=
  match d.ending with
  | some body => '/' :: '/' :: body
  | none => []

def written (d : Document) : List Char := d.parts.flatMap Part.written ++ d.endingChars

/-- What is left of a document without its comments and its last commas. -/
def kept (d : Document) : List Char := d.parts.flatMap Part.kept

def tokens (d : Document) : List Token := d.parts.filterMap Part.token?

/-- The document is loose in its parts, and its end is one line. -/
structure IsLoose (d : Document) : Prop where
  parts : Loose d.parts
  ending : ∀ body ∈ d.ending, '\n' ∉ body

end Document

/-! ## Marks -/

namespace Token

def marks : Token → List (Mark × Char)
  | sign c => [(.code, c)]
  | text body => ('"' :: body ++ ['"']).map (.quoted, ·)
  | word cs => cs.map (.code, ·)

end Token

namespace Part

def marks : Part → List (Mark × Char)
  | token t => t.marks
  | space c => [(.code, c)]
  | line body => ('/' :: '/' :: body).map (.comment, ·) ++ [(.code, '\n')]
  | block body => ('/' :: '*' :: body ++ ['*', '/']).map (.comment, ·)
  | comma => [(.code, ',')]

end Part

/-- Code is code up to a quote or a slash. -/
lemma mark_code {c : Char} (hquote : c ≠ '"') (hslash : c ≠ '/') (cs : List Char) :
    mark .code (c :: cs) = (.code, c) :: mark .code cs := by
  simp [mark, hslash]

/-- A word is code throughout. -/
lemma mark_word {ws : List Char} (h : ws.all isWordChar = true) (cs : List Char) :
    mark .code (ws ++ cs) = ws.map (.code, ·) ++ mark .code cs := by
  induction ws with
  | nil => rfl
  | cons w ws ih =>
    rw [List.all_cons, Bool.and_eq_true] at h
    have hne : w ≠ '"' ∧ w ≠ '/' := by
      constructor <;> (rintro rfl; exact absurd h.1 (by decide))
    rw [List.cons_append, mark_code hne.1 hne.2, ih h.2]
    rfl

/-- No hexadecimal digit ends or escapes anything. -/
lemma ne_of_hexDigit? {c : Char} {n : Nat} (h : hexDigit? c = some n) : c ≠ '"' ∧ c ≠ '\\' := by
  constructor <;> (rintro rfl; cases h)

/-- No character of a hexadecimal number ends or escapes anything. -/
lemma ne_of_hexNumber? {cs : List Char} {m n : Nat}
    (h : cs.foldlM (fun n c => (hexDigit? c).map (16 * n + ·)) m = some n) :
    ∀ c ∈ cs, c ≠ '"' ∧ c ≠ '\\' := by
  induction cs generalizing m with
  | nil => simp
  | cons c cs ih =>
    simp only [List.foldlM_cons, Option.bind_eq_bind, Option.bind_eq_some_iff,
      Option.map_eq_some_iff] at h
    obtain ⟨_, ⟨_, hc, -⟩, hcs⟩ := h
    exact List.forall_mem_cons.2 ⟨ne_of_hexDigit? hc, ih hcs⟩

/-- A quoted character is quoted, unless it ends the text or escapes the next one. -/
lemma mark_quoted_cons {c : Char} (hquote : c ≠ '"') (hslash : c ≠ '\\') (cs : List Char) :
    mark .quoted (c :: cs) = (.quoted, c) :: mark .quoted cs := by
  simp [mark, hslash]

/-- A text is quoted up to its closing quote, whatever is escaped in it. -/
lemma mark_quoted {body : List Char} {ps : List Piece} (h : IsText body ps) (rest : List Char) :
    mark .quoted (body ++ '"' :: rest) = (body ++ ['"']).map (.quoted, ·) ++ mark .code rest := by
  induction h with
  | nil => rfl
  | char _ hquote hslash _ ih =>
    rw [List.cons_append, mark_quoted_cons hquote hslash, ih]
    rfl
  | escape _ _ ih => simpa [mark] using ih
  | @code a b c d n cs ps hn _ ih =>
    have hne := ne_of_hexNumber? hn
    simp only [List.forall_mem_cons] at hne
    obtain ⟨ha, hb, hc, hd, -⟩ := hne
    -- the digits are neither a quote nor a backslash, so the text goes on behind them
    have hcode : mark .quoted (a :: b :: c :: d :: (cs ++ '"' :: rest)) =
        (a :: b :: c :: d :: (cs ++ ['"'])).map (.quoted, ·) ++ mark .code rest := by
      rw [mark_quoted_cons ha.1 ha.2, mark_quoted_cons hb.1 hb.2, mark_quoted_cons hc.1 hc.2,
        mark_quoted_cons hd.1 hd.2, ih]
      rfl
    simpa [mark] using hcode

/-- A token is marked by what it is alone. -/
lemma mark_token {t : Token} (h : IsToken t) (cs : List Char) :
    mark .code (t.chars ++ cs) = t.marks ++ mark .code cs := by
  cases t with
  | sign c =>
    obtain ⟨hc⟩ := h
    rcases mem_signs hc with rfl | rfl | rfl | rfl | rfl | rfl <;> rfl
  | text body =>
    obtain - | hbody := h
    have hmark := mark_quoted hbody cs
    simpa [Token.chars, Token.marks, mark] using hmark
  | word ws => exact mark_word h.isWordChar cs

/-- A comment goes on up to the end of its line, which is code again. -/
lemma mark_lineComment {body : List Char} (h : '\n' ∉ body) (cs : List Char) :
    mark .lineComment (body ++ cs) = body.map (.comment, ·) ++ mark .lineComment cs := by
  induction body with
  | nil => rfl
  | cons c body ih =>
    rw [List.mem_cons, not_or] at h
    simp [mark, Ne.symm h.1, ih h.2]

/-- A comment goes on up to the first end of one. -/
lemma mark_blockComment {body : List Char} (h : ¬['*', '/'] <:+: body) (cs : List Char) :
    mark .blockComment (body ++ '*' :: '/' :: cs) =
      (body ++ ['*', '/']).map (.comment, ·) ++ mark .code cs := by
  induction body with
  | nil => rfl
  | cons c body ih =>
    have hbody : ¬['*', '/'] <:+: body := fun hin => h (List.infix_cons hin)
    have hcons : mark .blockComment (c :: (body ++ '*' :: '/' :: cs)) =
        (.comment, c) :: mark .blockComment (body ++ '*' :: '/' :: cs) := by
      by_cases hc : c = '*'
      · -- the comment ends here if a slash is next, which is neither in the body nor behind it
        subst hc
        cases body with
        | nil => rfl
        | cons d body =>
          have hd : d ≠ '/' := by
            rintro rfl
            exact h ⟨[], body, rfl⟩
          simp [mark, hd]
      · simp [mark, hc]
    rw [List.cons_append, hcons, ih hbody]
    rfl

/-- Every part is marked in the same way wherever it stands. -/
theorem mark_parts {ps : List Part} (h : Loose ps)
    (hts : ∀ t ∈ ps.filterMap Part.token?, IsToken t) (cs : List Char) :
    mark .code (ps.flatMap Part.written ++ cs) = ps.flatMap Part.marks ++ mark .code cs := by
  induction h with
  | nil => rfl
  | @token t ps _ ih =>
    obtain ⟨ht, hts⟩ := List.forall_mem_cons.1 hts
    rw [List.flatMap_cons, List.append_assoc, Part.written, mark_token ht, ih hts,
      List.flatMap_cons, List.append_assoc]
    rfl
  | @space c ps hc _ ih =>
    -- blank characters do not begin a text or a comment
    have hne : c ≠ '"' ∧ c ≠ '/' := by
      constructor <;> (rintro rfl; exact absurd hc (by decide))
    rw [List.flatMap_cons, List.append_assoc, Part.written, List.singleton_append,
      mark_code hne.1 hne.2, ih hts]
    rfl
  | @line body ps hbody _ ih =>
    have hmark := mark_lineComment hbody ('\n' :: (ps.flatMap Part.written ++ cs))
    simp [Part.written, Part.marks, mark, hmark, ih hts]
  | @block body ps hbody _ ih =>
    have hmark := mark_blockComment hbody (ps.flatMap Part.written ++ cs)
    simp [Part.written, Part.marks, mark, hmark, ih hts]
  | comma _ _ ih =>
    rw [List.flatMap_cons, List.append_assoc, Part.written, List.singleton_append,
      mark_code (by decide) (by decide), ih hts]
    rfl

/-! ## What is next -/

/-- The look ahead goes past comments. -/
lemma endsNext_comment (cs : List Char) (ms : List (Mark × Char)) :
    endsNext (cs.map (.comment, ·) ++ ms) = endsNext ms := by
  have hnext : nextSign? (cs.map (.comment, ·) ++ ms) = nextSign? ms := by
    induction cs with
    | nil => rfl
    | cons c cs ih => simpa [nextSign?] using ih
  rw [endsNext, endsNext, hnext]

/-- It goes past blanks. -/
lemma endsNext_blank {c : Char} (h : Text.isBlank c = true) (ms : List (Mark × Char)) :
    endsNext ((.code, c) :: ms) = endsNext ms := by
  simp [endsNext, nextSign?, h]

/-- It stops at any other code and asks for a closing bracket. -/
lemma endsNext_code {c : Char} (h : Text.isBlank c = false) (ms : List (Mark × Char)) :
    endsNext ((.code, c) :: ms) = (c == ']' || c == '\x7d') := by
  have hnext : nextSign? ((.code, c) :: ms) = some (.code, c) := by simp [nextSign?, h]
  rw [Bool.eq_iff_iff, endsNext, hnext]
  simp [or_comm]

/-- A token that is next decides it. -/
lemma endsNext_token {t : Token} (h : IsToken t) (ms : List (Mark × Char)) :
    endsNext (t.marks ++ ms) = t.closes := by
  obtain ⟨c, cs, hchars, hblank⟩ := h.exists_cons
  cases t with
  | sign d =>
    obtain rfl : d = c := (List.cons.inj hchars).1
    exact endsNext_code hblank ms
  | text body => rfl
  | word ws =>
    obtain rfl : ws = c :: cs := hchars
    have hc : isWordChar c = true := List.all_eq_true.1 h.isWordChar c List.mem_cons_self
    have hne : c ≠ ']' ∧ c ≠ '\x7d' := by
      constructor <;> (rintro rfl; exact absurd hc (by decide))
    rw [Token.marks, List.map_cons, List.cons_append, endsNext_code hblank]
    simp [hne, Token.closes]

/-- The look ahead at the marks is one at the parts. -/
theorem endsNext_parts {ps : List Part} (h : Loose ps)
    (hts : ∀ t ∈ ps.filterMap Part.token?, IsToken t) (cs : List Char) :
    endsNext (ps.flatMap Part.marks ++ cs.map (.comment, ·)) = closesNext ps := by
  -- only the first part that is not blank and no comment decides
  induction h with
  | nil =>
    have hnext := endsNext_comment cs []
    rwa [List.append_nil] at hnext
  | token _ ih =>
    obtain ⟨ht, hts⟩ := List.forall_mem_cons.1 hts
    rw [List.flatMap_cons, List.append_assoc, Part.marks, endsNext_token ht]
    rfl
  | space hc _ ih =>
    rw [List.flatMap_cons, List.append_assoc, Part.marks, List.singleton_append,
      endsNext_blank (isBlank_of_isSpace hc), ih hts]
    rfl
  | line _ _ ih =>
    rw [List.flatMap_cons, List.append_assoc, Part.marks, List.append_assoc, endsNext_comment,
      List.singleton_append, endsNext_blank rfl, ih hts]
    rfl
  | block _ _ ih =>
    rw [List.flatMap_cons, List.append_assoc, Part.marks, endsNext_comment, ih hts]
    rfl
  | comma => rfl

/-! ## What is left out -/

/-- Comments are left out. -/
lemma keep_comment (cs : List Char) (ms : List (Mark × Char)) :
    keep (cs.map (.comment, ·) ++ ms) = keep ms := by
  induction cs with
  | nil => rfl
  | cons c cs ih => simpa [keep] using ih

/-- What is quoted is kept. -/
lemma keep_quoted (cs : List Char) (ms : List (Mark × Char)) :
    keep (cs.map (.quoted, ·) ++ ms) = cs ++ keep ms := by
  induction cs with
  | nil => rfl
  | cons c cs ih => simpa [keep] using ih

/-- Code is kept, but for commas. -/
lemma keep_code {c : Char} (h : c ≠ ',') (ms : List (Mark × Char)) :
    keep ((.code, c) :: ms) = c :: keep ms := by
  simp [keep, h]

/-- A word is kept, as it has no comma. -/
lemma keep_word {ws : List Char} (h : ws.all isWordChar = true) (ms : List (Mark × Char)) :
    keep (ws.map (.code, ·) ++ ms) = ws ++ keep ms := by
  induction ws with
  | nil => rfl
  | cons w ws ih =>
    rw [List.all_cons, Bool.and_eq_true] at h
    have hne : w ≠ ',' := by
      rintro rfl
      exact absurd h.1 (by decide)
    rw [List.map_cons, List.cons_append, keep_code hne, ih h.2]
    rfl

/-- A token is kept, unless it is a comma with a closing bracket behind it. -/
lemma keep_token {t : Token} (h : IsToken t) {ms : List (Mark × Char)}
    (hcomma : t = .sign ',' → endsNext ms = false) : keep (t.marks ++ ms) = t.chars ++ keep ms := by
  cases t with
  | sign c =>
    by_cases hc : c = ','
    · subst hc
      simp [Token.marks, Token.chars, keep, hcomma rfl]
    · exact keep_code hc ms
  | text body => exact keep_quoted _ ms
  | word ws => exact keep_word h.isWordChar ms

/-- No comma stands right before a closing bracket. -/
def Separates (t u : Token) : Prop := t = .sign ',' → u.closes = false

/-- Whatever is no comma may stand anywhere. -/
lemma isChain_cons {t : Token} {ts : List Token} (ht : t ≠ .sign ',')
    (h : ts.IsChain Separates) : (t :: ts).IsChain Separates :=
  List.isChain_cons.2 ⟨fun _ _ heq => absurd heq ht, h⟩

/-- A comma may stand before what is spelled, which does not begin with a closing bracket. -/
lemma Spells.isChain_comma {us rest : List Token} {p : Phrase} (h : Spells us p)
    (hrest : (us ++ rest).IsChain Separates) :
    (.sign ',' :: (us ++ rest)).IsChain Separates := by
  obtain ⟨u, us, rfl, hu⟩ := h.exists_cons
  refine List.isChain_cons.2 ⟨fun y hy _ => ?_, hrest⟩
  obtain rfl : u = y := by simpa using hy
  exact hu

/-- In the grammar of JSON a comma separates. -/
lemma Spells.isChain {ts : List Token} {p : Phrase} (h : Spells ts p) {rest : List Token}
    (hrest : rest.IsChain Separates) : (ts ++ rest).IsChain Separates := by
  induction h generalizing rest with
  | null | true | false | number | text => exact isChain_cons (by simp) hrest
  | emptyArray | emptyObject => exact isChain_cons (by simp) (isChain_cons (by simp) hrest)
  | array _ ih =>
    have hts := ih (isChain_cons (t := .sign ']') (by simp) hrest)
    rw [List.cons_append, List.append_assoc]
    exact isChain_cons (by simp) hts
  | object _ ih =>
    have hts := ih (isChain_cons (t := .sign '\x7d') (by simp) hrest)
    rw [List.cons_append, List.append_assoc]
    exact isChain_cons (by simp) hts
  | item _ ih => exact ih hrest
  | items _ hus ih ih' =>
    rw [List.append_assoc]
    exact ih (hus.isChain_comma (ih' hrest))
  | entry _ _ ih => exact isChain_cons (by simp) (isChain_cons (by simp) (ih hrest))
  | entries _ _ hus ih ih' =>
    rw [List.cons_append, List.cons_append, List.append_assoc]
    exact isChain_cons (by simp) (isChain_cons (by simp) (ih (hus.isChain_comma (ih' hrest))))

/-- If a closing bracket is next, the first token that is left is one. -/
lemma exists_of_closesNext {ps : List Part} (h : closesNext ps = true) :
    ∃ t ts, ps.filterMap Part.token? = t :: ts ∧ t.closes = true := by
  fun_induction closesNext ps with
  | case1 => cases h
  | case2 t ps => exact ⟨t, _, rfl, h⟩
  | case3 => cases h
  | case4 p ps htoken hcomma ih =>
    cases p with
    | token t => exact absurd rfl (htoken t)
    | comma => exact absurd rfl hcomma
    | space | line | block => exact ih h

/-- What is left out of a document is what is left out of its parts. -/
theorem keep_parts {ps : List Part} (h : Loose ps)
    (hts : ∀ t ∈ ps.filterMap Part.token?, IsToken t)
    (hchain : (ps.filterMap Part.token?).IsChain Separates) (cs : List Char) :
    keep (ps.flatMap Part.marks ++ cs.map (.comment, ·)) = ps.flatMap Part.kept := by
  induction h with
  | nil =>
    have hkeep := keep_comment cs []
    rwa [List.append_nil] at hkeep
  | @token t ps hps ih =>
    obtain ⟨ht, hts⟩ := List.forall_mem_cons.1 hts
    obtain ⟨hnext, hchain⟩ := List.isChain_cons.1 hchain
    -- a comma of the grammar stands before another token, and no closing sign can follow it
    have hcomma : t = .sign ',' → endsNext (ps.flatMap Part.marks ++ cs.map (.comment, ·)) = false := by
      intro heq
      rw [endsNext_parts hps hts, Bool.eq_false_iff]
      intro hcloses
      obtain ⟨u, us, hus, hu⟩ := exists_of_closesNext hcloses
      have hnone := hnext u (by rw [hus]; rfl) heq
      rw [hu] at hnone
      cases hnone
    rw [List.flatMap_cons, List.append_assoc, Part.marks, keep_token ht hcomma, ih hts hchain]
    rfl
  | @space c ps hc _ ih =>
    have hne : c ≠ ',' := by
      rintro rfl
      exact absurd hc (by decide)
    rw [List.flatMap_cons, List.append_assoc, Part.marks, List.singleton_append, keep_code hne,
      ih hts hchain]
    rfl
  | line _ _ ih =>
    rw [List.flatMap_cons, List.append_assoc, Part.marks, List.append_assoc, keep_comment,
      List.singleton_append, keep_code (by decide), ih hts hchain]
    rfl
  | block _ _ ih =>
    rw [List.flatMap_cons, List.append_assoc, Part.marks, keep_comment, ih hts hchain]
    rfl
  | @comma ps hcloses hps ih =>
    have hnext := endsNext_parts hps hts cs
    rw [hcloses] at hnext
    rw [List.flatMap_cons, List.append_assoc, Part.marks, List.singleton_append, keep,
      if_pos (.inr ⟨rfl, rfl, hnext⟩), ih hts hchain]
    rfl

/-! ## Documents without comments -/

/-- Spaces before a document make no difference. -/
lemma LaysOut.of_spaces {spaces cs : List Char} {ts : List Token} (hspaces : IsSpaced spaces)
    (h : LaysOut ts cs) : LaysOut ts (spaces ++ cs) := by
  obtain ⟨rest, hrest, hlaid⟩ := h
  cases ts with
  | nil =>
    cases hlaid
    exact ⟨spaces ++ cs, List.forall_mem_append.2 ⟨hspaces, hrest⟩, .nil⟩
  | cons t ts => exact ⟨rest, hrest, hlaid.of_spaces hspaces (by simp)⟩

/-- What is left of a document are its tokens with spaces around them. -/
lemma laysOut_parts {ps : List Part} (h : Loose ps) :
    LaysOut (ps.filterMap Part.token?) (ps.flatMap Part.kept) := by
  induction h with
  | nil => exact ⟨[], by simp [IsSpaced], .nil⟩
  | token _ ih =>
    obtain ⟨rest, hrest, hlaid⟩ := ih
    exact ⟨rest, hrest, hlaid.next⟩
  | @space c ps hc _ ih =>
    have hspaces : IsSpaced [c] := by simpa [IsSpaced] using hc
    exact ih.of_spaces hspaces
  | line _ _ ih =>
    have hspaces : IsSpaced ['\n'] := by simp [IsSpaced, isSpace]
    exact ih.of_spaces hspaces
  | block _ _ ih => exact ih
  | comma _ _ ih => exact ih

/-- Parts that nothing is left out of, the tokens among them and the text that they are. -/
structure IsPlain (ps : List Part) (ts : List Token) (cs : List Char) : Prop where
  loose : Loose ps
  tokens : ps.filterMap Part.token? = ts
  written : ps.flatMap Part.written = cs
  kept : ps.flatMap Part.kept = cs

/-- Spaces are parts that nothing is left out of. -/
lemma IsPlain.of_spaces {spaces cs : List Char} {ps : List Part} {ts : List Token}
    (hspaces : IsSpaced spaces) (h : IsPlain ps ts cs) :
    IsPlain (spaces.map .space ++ ps) ts (spaces ++ cs) := by
  induction spaces with
  | nil => exact h
  | cons c spaces ih =>
    obtain ⟨hc, hspaces⟩ := List.forall_mem_cons.1 hspaces
    obtain ⟨hloose, htokens, hwritten, hkept⟩ := ih hspaces
    exact ⟨.space hc hloose, htokens, congrArg (c :: ·) hwritten, congrArg (c :: ·) hkept⟩

/-- Tokens with spaces around them are parts that nothing is left out of. -/
lemma LaidOut.exists_isPlain {ts : List Token} {cs rest : List Char} (h : LaidOut ts cs rest)
    (hrest : IsSpaced rest) : ∃ ps, IsPlain ps ts cs := by
  induction h with
  | @nil rest =>
    have hnone : IsPlain [] [] [] := ⟨.nil, rfl, rfl, rfl⟩
    have hplain := hnone.of_spaces hrest
    rw [List.append_nil, List.append_nil] at hplain
    exact ⟨_, hplain⟩
  | @cons t ts spaces cs rest hspaces _ ih =>
    obtain ⟨ps, hloose, htokens, hwritten, hkept⟩ := ih hrest
    exact ⟨_, .of_spaces hspaces ⟨.token hloose, congrArg (t :: ·) htokens,
      congrArg (t.chars ++ ·) hwritten, congrArg (t.chars ++ ·) hkept⟩⟩

/-! ## The result -/

namespace Document

variable {d : Document}

/-- A comment at the end of a document is one up to its end. -/
lemma mark_endingChars (h : d.IsLoose) :
    mark .code d.endingChars = d.endingChars.map (.comment, ·) := by
  rw [endingChars]
  split
  · next body hbody =>
    have hmark := mark_lineComment (h.ending body hbody) []
    simpa [mark] using hmark
  · rfl

/-- The comments and the commas are left out, and nothing else. -/
lemma plain_eq_kept (h : d.IsLoose) {p : Phrase} (hp : Spells d.tokens p) :
    plain d.written = d.kept := by
  have hchain := hp.isChain List.IsChain.nil
  rw [List.append_nil] at hchain
  rw [plain, marked, written, mark_parts h.parts hp.isToken, mark_endingChars h]
  exact keep_parts h.parts hp.isToken hchain _

end Document

/-- Nothing is left out of a document of the grammar. -/
lemma plain_eq_self {ts : List Token} {p : Phrase} {cs : List Char} (hp : Spells ts p)
    (h : LaysOut ts cs) : plain cs = cs := by
  obtain ⟨rest, hrest, hlaid⟩ := h
  obtain ⟨ps, hloose, rfl, hwritten, hkept⟩ := hlaid.exists_isPlain hrest
  have hplain := Document.plain_eq_kept (d := ⟨ps, none⟩) ⟨hloose, by simp⟩ hp
  rwa [Document.written, Document.endingChars, List.append_nil, Document.kept, hwritten, hkept]
    at hplain

/-- A document of the grammar is not blank. -/
lemma trim_ne_nil {ts : List Token} {p : Phrase} {cs : List Char} (hp : Spells ts p)
    (h : LaysOut ts cs) : Text.trim cs ≠ [] := by
  obtain ⟨t, us, rfl, -⟩ := hp.exists_cons
  obtain ⟨rest, -, hlaid⟩ := h
  obtain ⟨c, _, hchars, hc⟩ := (hp.isToken t List.mem_cons_self).exists_cons
  have hmem : c ∈ cs := by
    obtain - | ⟨-, -⟩ := hlaid
    simp [hchars]
  exact List.ne_nil_of_mem (Text.mem_trim hmem hc)

/-- The configuration that a document of the grammar gives. -/
lemma ofText_eq {cs text : List Char} {ts : List Token} {v : Json} (hv : Spells ts (.value v))
    (h : LaysOut ts cs) (htext : plain text = cs) (file : Path) :
    Config.Compiler.ofText file text =
      match Config.Compiler.ofJson? file v with
      | some c => .ok c
      | none => .error (.badCompilerConfig file) := by
  have hblank : (Text.trim cs).isEmpty = false := by simpa using trim_ne_nil hv h
  have hparse : parse? cs = some v := parse?_eq_some_iff.2 ⟨ts, hv, h⟩
  rw [Config.Compiler.ofText, htext, hparse]
  simp only [hblank, Option.bind_some]
  rfl

/-- A document of the grammar stays as it is. Of any document with comments that has the same tokens
exactly these are left out, with the commas before closing brackets, and it is read as the one
without them. -/
theorem plain_written {ts : List Token} {v : Json} (hv : Spells ts (.value v)) {cs : List Char}
    (hcs : LaysOut ts cs) :
    plain cs = cs ∧ parse? cs = some v ∧
      ∀ d : Document, d.IsLoose → d.tokens = ts → plain d.written = d.kept ∧ LaysOut ts d.kept ∧
        ∀ file, Config.Compiler.ofText file d.written = Config.Compiler.ofText file cs := by
  have hself := plain_eq_self hv hcs
  refine ⟨hself, parse?_eq_some_iff.2 ⟨ts, hv, hcs⟩, ?_⟩
  rintro d hd rfl
  have hplain := Document.plain_eq_kept hd hv
  have hkept : LaysOut d.tokens d.kept := laysOut_parts hd.parts
  refine ⟨hplain, hkept, fun file => ?_⟩
  rw [ofText_eq hv hkept hplain, ofText_eq hv hcs hself]

namespace Sample

/-- A text with what looks like a bracket, comments, and their ends. -/
def name : List Char := "a,]//\\\"*/.ts".toList

/-- The tokens of a configuration. -/
def tokens : List Token :=
  [.sign '\x7b', .text "files".toList, .sign ':', .sign '[', .text name, .sign ']', .sign '\x7d']

/-- The configuration with comments of both kinds, with commas before both closing brackets, and
with a comment at its end. -/
def commented : Document where
  parts := [.line " \"files\" [".toList, .token (.sign '\x7b'), .space '\n',
    .token (.text "files".toList), .block " : ".toList, .token (.sign ':'), .space ' ',
    .token (.sign '['), .token (.text name), .block "* ,] \"".toList, .comma, .line [],
    .token (.sign ']'), .comma, .space '\t', .block [], .token (.sign '\x7d')]
  ending := some " [".toList

/-- The comments of the sample end where they seem to, and its commas stand before brackets. -/
lemma isLoose_commented : commented.IsLoose where
  parts := by
    refine .line (by decide) (.token (.space rfl (.token (.block (by decide +kernel) (.token ?_)))))
    refine .space rfl (.token (.token (.block (by decide +kernel) (.comma rfl ?_))))
    exact .line (by decide) (.token (.comma rfl (.space rfl (.block (by decide) (.token .nil)))))
  ending := by decide

/-- Its tokens stand for an object with a list of one text. -/
lemma spells_tokens :
    Spells tokens (.value (.object [(some "files", .array [.text (some "a,]//\"*/.ts")])])) := by
  have hfiles : IsText "files".toList ("files".toList.map .char) := by decide
  have hname : IsText name ("a,]//\"*/.ts".toList.map .char) := by decide +kernel
  have hitems : Spells [.text name] (.items [.text (some "a,]//\"*/.ts")]) := .item (.text hname)
  have hentries : Spells [.text "files".toList, .sign ':', .sign '[', .text name, .sign ']']
      (.entries [(some "files", .array [.text (some "a,]//\"*/.ts")])]) :=
    .entry hfiles (.array hitems)
  exact .object hentries

/-- Written one after the other, the tokens are a document. -/
lemma laysOut_tokens : LaysOut tokens (tokens.flatMap Token.chars) := by
  have hlaid := LaidOut.chars tokens []
  rw [List.append_nil] at hlaid
  exact ⟨[], by simp [IsSpaced], hlaid⟩

end Sample

/-- The comments and commas of the configuration are left out, and it is read as without them. -/
theorem plain_commented :
    Spells Sample.tokens
      (.value (.object [(some "files", .array [.text (some "a,]//\"*/.ts")])])) ∧
    LaysOut Sample.tokens (Sample.tokens.flatMap Token.chars) ∧
    Sample.commented.IsLoose ∧ Sample.commented.tokens = Sample.tokens ∧
    Sample.commented.written = ("// \"files\" [\n\x7b\n\"files\"/* : */: [\"a,]//\\\"*/.ts\"" ++
      "/** ,] \"*/,//\n],\t/**/\x7d// [").toList ∧
    plain Sample.commented.written = "\n\x7b\n\"files\": [\"a,]//\\\"*/.ts\"\n]\t\x7d".toList ∧
    ∀ file, Config.Compiler.ofText file Sample.commented.written =
      .ok ⟨file, some ["a,]//\"*/.ts"], none, none⟩ := by
  have htokens : Sample.commented.tokens = Sample.tokens := rfl
  obtain ⟨-, -, hread⟩ := plain_written Sample.spells_tokens Sample.laysOut_tokens
  obtain ⟨hplain, -, hfile⟩ := hread Sample.commented Sample.isLoose_commented htokens
  refine ⟨Sample.spells_tokens, Sample.laysOut_tokens, Sample.isLoose_commented, htokens, by decide,
    hplain.trans (by decide), fun file => ?_⟩
  rw [hfile]
  rfl

end StoreBindings.Json
