import Mathlib.Data.List.Basic
import StoreBindings.Json.Reader
import StoreBindings.Syntax.Token

/-!
# Text between single quotes

A text literal of a module: characters that stand for themselves, and escapes behind a backslash. What it
spells is a list of units of sixteen bits, of which a character takes one or two; an escape can spell
halves of characters too. `Spells` holds between a literal and the text that it spells.

Every escape takes more units to write than it spells: `Reads.length_le`. So a text that spells something
that takes no fewer units has no escape in it and spells itself: `eq_of_reads`.
-/

namespace StoreBindings.Text.Literal

open Json (hexNumber?)
open Syntax (endsLine)

/-! ## Units -/

/-- The units that a code point takes. -/
def unitsOf (n : Nat) : List Nat :=
  if n < 0x10000 then [n] else [0xD800 + (n - 0x10000) / 0x400, 0xDC00 + (n - 0x10000) % 0x400]

/-- The units that a text takes. -/
def units (cs : List Char) : List Nat := cs.flatMap fun c => unitsOf c.toNat

variable {c d : Char} {cs v : List Char} {us us' : List Nat}

lemma units_cons (c : Char) (cs : List Char) : units (c :: cs) = unitsOf c.toNat ++ units cs := rfl

lemma length_unitsOf (n : Nat) : 1 ≤ (unitsOf n).length ∧ (unitsOf n).length ≤ 2 := by
  unfold unitsOf
  split <;> simp

/-- No character is half of one. -/
lemma toNat_lt_or_lt (c : Char) : c.toNat < 0xD800 ∨ 0xDFFF < c.toNat ∧ c.toNat < 0x110000 := c.valid

/-- The first character can be told from the units. -/
lemma unitsOf_append_inj (h : unitsOf c.toNat ++ us = unitsOf d.toNat ++ us') : c = d ∧ us = us' := by
  have hc := toNat_lt_or_lt c
  have hd := toNat_lt_or_lt d
  have hsame : c.toNat = d.toNat → us = us' → c = d ∧ us = us' :=
    fun hn hus => ⟨Char.toNat_inj.1 hn, hus⟩
  unfold unitsOf at h
  split at h <;> split at h <;>
    simp only [List.cons_append, List.nil_append, List.cons.injEq] at h
  · exact hsame h.1 h.2
  · omega
  · omega
  · exact hsame (by omega) h.2.2

/-- A text whose units begin with those of a character begins with the character. -/
lemma exists_cons_of_units (h : units v = unitsOf c.toNat ++ us) :
    ∃ v', v = c :: v' ∧ us = units v' := by
  cases v with
  | nil =>
    have hlength := congrArg List.length h
    have hpos := (length_unitsOf c.toNat).1
    simp only [units, List.flatMap_nil, List.length_nil, List.length_append] at hlength
    omega
  | cons d v' =>
    obtain ⟨rfl, rfl⟩ := unitsOf_append_inj ((units_cons d v').symm.trans h)
    exact ⟨v', rfl, rfl⟩

lemma units_injective : Function.Injective units := by
  intro cs
  induction cs with
  | nil =>
    intro ds h
    cases ds with
    | nil => rfl
    | cons d ds =>
      obtain ⟨_, hnil, -⟩ := exists_cons_of_units h
      cases hnil
  | cons c cs ih =>
    intro ds h
    obtain ⟨ds', rfl, hds⟩ := exists_cons_of_units h.symm
    rw [ih hds]

/-! ## Literals -/

/-- The characters that letters stand for behind a backslash. -/
def letters : List (Char × Nat) :=
  [('b', 0x08), ('t', 0x09), ('n', 0x0A), ('v', 0x0B), ('f', 0x0C), ('r', 0x0D)]

/-- What may stand behind a backslash, and the units that it spells. -/
inductive Escape : List Char → List Nat → Prop
  | letter {c : Char} {n : Nat} (h : (c, n) ∈ letters) : Escape [c] [n]
  /-- A character that means nothing else there stands for itself, as quotes and backslashes do. -/
  | self {c : Char} (hletter : c ∉ letters.map Prod.fst) (hdigit : c.isDigit = false)
      (hcode : c ≠ 'x' ∧ c ≠ 'u') (hline : endsLine c = false) : Escape [c] (unitsOf c.toNat)
  | zero : Escape ['0'] [0]
  | byte {a b : Char} {n : Nat} (h : hexNumber? [a, b] = some n) : Escape ['x', a, b] [n]
  | unit {a b c d : Char} {n : Nat} (h : hexNumber? [a, b, c, d] = some n) : Escape ['u', a, b, c, d] [n]
  | point {ds : List Char} {n : Nat} (hne : ds ≠ []) (h : hexNumber? ds = some n) (hle : n ≤ 0x10FFFF) :
      Escape ('u' :: '\x7b' :: (ds ++ ['\x7d'])) (unitsOf n)
  /-- The end of a line is passed over. -/
  | line {c : Char} (h : endsLine c = true) : Escape [c] []
  | lineFeed : Escape ['\r', '\n'] []

/-- A character that stands for itself: the quote, the backslash and two ends of lines do not. -/
def isPlain (c : Char) : Bool := !(['\'', '\\', '\n', '\r'].elem c)

/-- What stands between the quotes, and the units that it spells. -/
inductive Reads : List Char → List Nat → Prop
  | nil : Reads [] []
  | plain {c : Char} {cs : List Char} {us : List Nat} (hc : isPlain c = true) (h : Reads cs us) :
      Reads (c :: cs) (unitsOf c.toNat ++ us)
  /-- A zero may be escaped only where no other digit follows. -/
  | escape {e cs : List Char} {es us : List Nat} (he : Escape e es)
      (hzero : e = ['0'] → cs.head?.all (!·.isDigit) = true) (h : Reads cs us) : Reads ('\\' :: (e ++ cs)) (es ++ us)

/-- A text is a literal between single quotes, and spells another text. -/
def Spells (literal v : List Char) : Prop :=
  ∃ body, literal = '\'' :: (body ++ ['\'']) ∧ Reads body (units v)

/-- Plain characters spell themselves. -/
lemma reads_of_forall (h : ∀ c ∈ cs, isPlain c = true) : Reads cs (units cs) := by
  induction cs with
  | nil => exact .nil
  | cons c cs ih =>
    exact .plain (h c List.mem_cons_self) (ih fun d hd => h d (List.mem_cons_of_mem _ hd))

/-- An escape spells no more units than stand behind its backslash. -/
theorem Escape.length_le {e : List Char} {es : List Nat} (h : Escape e es) :
    es.length ≤ (units e).length := by
  have hpos : ∀ c : Char, 1 ≤ (unitsOf c.toNat).length := fun c => (length_unitsOf _).1
  cases h with
  | @letter c _ _ => simpa [units] using hpos c
  | self => simp [units]
  | zero => decide
  | @byte a b _ _ =>
    have ha := hpos a
    simp only [units_cons, List.length_append, List.length_singleton]
    omega
  | @unit a _ _ _ _ _ =>
    have ha := hpos a
    simp only [units_cons, List.length_append, List.length_singleton]
    omega
  | @point ds n =>
    have hn := (length_unitsOf n).2
    have hu := hpos 'u'
    have hbrace := hpos '\x7b'
    simp only [units_cons, List.length_append]
    omega
  | line => exact Nat.zero_le _
  | lineFeed => exact Nat.zero_le _

/-- What is spelled takes no more units than the text that spells it, and as many only if that text is
plain. -/
theorem Reads.length_le (h : Reads cs us) : us.length ≤ (units cs).length ∧
    (us.length = (units cs).length → (∀ c ∈ cs, isPlain c = true) ∧ us = units cs) := by
  induction h with
  | nil => exact ⟨Nat.le_refl _, fun _ => ⟨nofun, rfl⟩⟩
  | @plain c cs us hc _ ih =>
    rw [units_cons, List.length_append, List.length_append]
    refine ⟨Nat.add_le_add_left ih.1 _, fun heq => ?_⟩
    obtain ⟨hplain, rfl⟩ := ih.2 (by omega)
    exact ⟨List.forall_mem_cons.2 ⟨hc, hplain⟩, rfl⟩
  | @escape e cs es us he _ _ ih =>
    -- the backslash is one unit that nothing is spelled for
    have hless : (es ++ us).length < (units ('\\' :: (e ++ cs))).length := by
      have hback := (length_unitsOf ('\\' : Char).toNat).1
      have hsplit : units (e ++ cs) = units e ++ units cs := List.flatMap_append
      rw [units_cons, hsplit, List.length_append, List.length_append, List.length_append]
      have hescape := he.length_le
      omega
    exact ⟨Nat.le_of_lt hless, fun heq => absurd heq (Nat.ne_of_lt hless)⟩

/-- A text that spells something no shorter is plain, and spells itself. -/
theorem eq_of_reads (h : Reads cs (units v)) (hle : (units cs).length ≤ (units v).length) :
    (∀ c ∈ cs, isPlain c = true) ∧ v = cs := by
  obtain ⟨hlength, hsame⟩ := h.length_le
  obtain ⟨hplain, heq⟩ := hsame (Nat.le_antisymm hlength hle)
  exact ⟨hplain, units_injective heq⟩

/-- A plain character in front spells the character in front. -/
lemma exists_of_reads_cons (hc : isPlain c = true) (h : Reads (c :: cs) (units v)) :
    ∃ v', v = c :: v' ∧ Reads cs (units v') := by
  generalize hus : units v = us at h
  cases h with
  | plain _ h =>
    obtain ⟨v', rfl, rfl⟩ := exists_cons_of_units hus
    exact ⟨v', rfl, h⟩
  | escape => cases hc

end StoreBindings.Text.Literal
