import StoreBindings.Proofs.Store.Matching
import StoreBindings.Proofs.Syntax.ParameterNames
import StoreBindings.Proofs.Syntax.Places
import StoreBindings.Proofs.Syntax.Spans

/-!
# The types of parameters

A parameter without a type of its own has the type that is seen in its default. What the default is
is told by its kind, as far as literals without a sign go, and by its text else. A text that is a
decimal number, perhaps with a sign, is never that of anything but a literal: the type of a value tells
only this far (`isNumeral_of_not_literal`). But the names of numbers are read as numbers too, and signs
are understood only right in front of decimal numbers: `type_eq_widenedType_iff`.
-/

namespace StoreBindings

open Syntax (Tree)

/-! ## Numbers and their names -/

namespace Text

lemma mem_withoutSign {c : Char} {cs : List Char} (hc : c ∈ cs) (h : c ≠ '+' ∧ c ≠ '-') :
    c ∈ withoutSign cs := by
  unfold withoutSign
  split
  · exact (List.mem_cons.1 hc).resolve_left h.1
  · exact (List.mem_cons.1 hc).resolve_left h.2
  · exact hc

lemma ne_sign_of_isDigit {c : Char} (h : c.isDigit = true) : c ≠ '+' ∧ c ≠ '-' := by
  constructor
  all_goals
    rintro rfl
    cases h

/-- What has a digit in it is no name of a number. -/
lemma not_mem_numberNames {cs : List Char} (h : ∃ c ∈ cs, c.isDigit = true ∧ isBlank c = false) :
    (withoutSign (trim cs)).map Char.toLower ∉ numberNames := by
  obtain ⟨c, hc, hdigit, hblank⟩ := h
  intro hname
  have hmem : c ∈ (withoutSign (trim cs)).map Char.toLower :=
    List.mem_map.2 ⟨c, mem_withoutSign (mem_trim hc hblank) (ne_sign_of_isDigit hdigit),
      toLower_of_isDigit hdigit⟩
  have hletters : (numberNames.all fun name => name.all fun c => !c.isDigit) = true := by decide
  simp only [List.all_eq_true, Bool.not_eq_true'] at hletters
  rw [hletters _ hname c hmem] at hdigit
  cases hdigit

lemma isNumeral_iff {cs : List Char} : isNumeral cs = true ↔
    isDecimal (withoutSign (trim cs)) = true ∨
      (withoutSign (trim cs)).map Char.toLower ∈ numberNames := by
  rw [isNumeral]
  simp only [Bool.or_eq_true, List.contains_iff_mem]

/-- The mark of a big number is in no decimal number. -/
lemma not_mem_of_isDecimal {cs : List Char} (h : isDecimal cs = true) : 'n' ∉ cs := by
  have hdigit {ds : List Char} (hds : ∀ c ∈ ds, c.isDigit = true) : 'n' ∉ ds :=
    fun hn => absurd (hds 'n' hn) (by decide)
  obtain ⟨whole, fraction, exponent, rfl, hwhole, hexponent, hfraction⟩ :=
    Syntax.digits_of_isDecimal h
  -- the only letter in a decimal number is the one in front of its exponent
  simp only [List.mem_append, not_or]
  refine ⟨hdigit hwhole, ?_, ?_⟩
  · rcases hfraction with ⟨rfl, -⟩ | ⟨digits, rfl, hdigits, -⟩
    · simp
    · simpa using hdigit hdigits
  · cases exponent with
    | nil => simp
    | cons e ds =>
      simp only [isExponent, Bool.and_eq_true, Bool.or_eq_true, beq_iff_eq, List.all_eq_true]
        at hexponent
      obtain ⟨⟨he, -⟩, hds⟩ := hexponent
      intro hn
      rcases List.mem_cons.1 hn with rfl | hn
      · rcases he with he | he <;> cases he
      · exact hdigit hds (mem_withoutSign hn (by decide))

end Text

lemma Syntax.Tree.Formed.isNumberText {t : Tree} (h : t.Formed) (hkind : t.kind = .number) :
    Syntax.IsNumberText t.chars := by
  cases h with
  | leaf r k cs hspells =>
    cases hkind
    exact hspells
  | node hfits =>
    cases hkind
    cases hfits

namespace Store

/-! ## Literals -/

/-- The type of a number. -/
def numberType (n : Tree) : String := if n.chars.getLast? = some 'n' then "bigint" else "number"

/-- The type of a value that is a literal by itself. -/
def plainType? (v : Tree) : Option String :=
  match v.kind with
  | .number => some (numberType v)
  | .string | .template => some "string"
  | .trueLiteral | .falseLiteral => some "boolean"
  | _ => none

/-- The number that a value consists of together with a sign in front. -/
def signedNumber? (v : Tree) : Option Tree :=
  match v.parts.head?, v.children with
  | some sign, [n] =>
    if v.kind = .other ∧ sign.kind = .keyword ∧ (sign.chars = ['+'] ∨ sign.chars = ['-']) ∧
        n.kind = .number then some n
    else none
  | _, _ => none

/-- The type that a value has as a literal, with or without a sign; other values can be anything. -/
def widenedType (v : Tree) : String :=
  ((plainType? v).or ((signedNumber? v).map numberType)).getD "any"

lemma numberType_of_isDecimal {n : Tree} (h : Text.isDecimal n.chars = true) :
    numberType n = "number" :=
  if_neg fun hlast => Text.not_mem_of_isDecimal h (List.mem_of_getLast? hlast)

lemma literalType?_eq (v : Tree) : literalType? v =
    (plainType? v).or (if Text.isNumeral v.chars then some "number" else none) := by
  unfold literalType? plainType?
  cases v.kind <;> rfl

/-! ## Numbers with a sign -/

section signed

variable {v n : Tree}

lemma signedNumber?_eq_some_iff : signedNumber? v = some n ↔
    v.kind = .other ∧ n.kind = .number ∧ v.children = [n] ∧
      ∃ sign, v.parts.head? = some sign ∧ sign.kind = .keyword ∧
        (sign.chars = ['+'] ∨ sign.chars = ['-']) := by
  unfold signedNumber?
  constructor
  · intro h
    split at h
    · next sign n' hsign hchildren =>
      split at h
      · next hv =>
        cases h
        exact ⟨hv.1, hv.2.2.2, hchildren, sign, hsign, hv.2.1, hv.2.2.1⟩
      · cases h
    · cases h
  · rintro ⟨hv, hn, hchildren, sign, hsign, hkind, hchars⟩
    rw [hsign, hchildren]
    exact if_pos ⟨hv, hkind, hchars, hn⟩

lemma plainType?_of_signedNumber? (h : signedNumber? v = some n) : plainType? v = none := by
  rw [plainType?, (signedNumber?_eq_some_iff.1 h).1]

lemma exists_sign (h : signedNumber? v = some n) :
    ∃ s, (s = '+' ∨ s = '-') ∧ v.chars = s :: v.chars.tail := by
  obtain ⟨-, -, -, sign, hsign, -, hchars⟩ := signedNumber?_eq_some_iff.1 h
  cases v with
  | leaf => cases hsign
  | node r k parts =>
    obtain ⟨rest, rfl⟩ := List.head?_eq_some_iff.1 hsign
    rw [Tree.chars, Tree.charsOfAll]
    rcases hchars with hchars | hchars
    · exact ⟨'+', .inl rfl, by rw [hchars]; rfl⟩
    · exact ⟨'-', .inr rfl, by rw [hchars]; rfl⟩

/-- What is a number, perhaps with a sign, is a literal. -/
lemma signedNumber?_of_isNumeral (h : v.IsNumeral) (hplain : plainType? v = none) :
    ∃ n, signedNumber? v = some n ∧ v.chars.tail = n.chars := by
  -- without its own type the numeral cannot be a bare number, so there is a sign in front of it
  rcases h with hnumber | ⟨s, n, hs, hn, hv, hparts⟩
  · rw [plainType?, hnumber] at hplain
    cases hplain
  · refine ⟨n, signedNumber?_eq_some_iff.2 ⟨hv, hn, ?_, _, by rw [hparts]; rfl, rfl, ?_⟩, ?_⟩
    · have hcounts : n.kind.counts = true := by rw [hn]; rfl
      rw [Tree.children, hparts]
      show [n].filter (fun p => p.kind.counts) = [n]
      rw [List.filter_singleton, hcounts]
      rfl
    · rcases hs with rfl | rfl
      · exact .inl rfl
      · exact .inr rfl
    · cases v with
      | leaf => cases hparts
      | node r k parts =>
        cases hparts
        simp [Tree.chars, Tree.charsOfAll]

end signed

/-! ## What is recorded -/

section recorded

variable {p : Syntax.Parameter} {v : Tree}

lemma type_ofSyntax (htype : p.type = none) (hv : p.fallback = some v) (place : Nat) :
    (Parameter.ofSyntax place p).type =
      ((plainType? v).or (if Text.isNumeral v.chars then some "number" else none)).getD
        (if p.isRest then "any[]" else "any") := by
  rw [Parameter.ofSyntax, Parameter.typeOf, htype, hv, Option.none_or, Option.bind_some,
    literalType?_eq]

/-- A number with a sign is read as one if it is a decimal number, right behind its sign. -/
lemma isNumeral_of_signedNumber? {n : Tree} (hn : Syntax.IsNumberText n.chars)
    (hsuits : Tree.Suits .value v) (h : signedNumber? v = some n) :
    Text.isNumeral v.chars = true ↔
      v.chars.tail = n.chars ∧ Text.isDecimal n.chars = true := by
  obtain ⟨s, hs, hchars⟩ := exists_sign h
  have hsign : Text.isBlank s = false := by rcases hs with rfl | rfl <;> rfl
  have hunsigned (htail : v.chars.tail = n.chars) :
      Text.withoutSign (Text.trim v.chars) = n.chars := by
    rw [hchars, htail, Text.trim_of_forall (List.forall_mem_cons.2 ⟨hsign, hn.1⟩)]
    rcases hs with rfl | rfl <;> rfl
  -- a number has a digit in it, and the names of numbers have none
  have hname : (Text.withoutSign (Text.trim v.chars)).map Char.toLower ∉ Text.numberNames := by
    obtain ⟨c, hc, hdigit⟩ := hn.2
    obtain ⟨-, -, hchildren, -⟩ := signedNumber?_eq_some_iff.1 h
    have hmem : n ∈ v.children := hchildren ▸ List.mem_singleton_self n
    exact Text.not_mem_numberNames
      ⟨c, Tree.mem_chars_of_mem_parts (List.mem_filter.1 hmem).1 hc, hdigit, hn.1 c hc⟩
  rw [Text.isNumeral_iff, or_iff_left hname]
  constructor
  · intro hdecimal
    obtain ⟨n', hn', htail⟩ :=
      signedNumber?_of_isNumeral (hsuits hdecimal) (plainType?_of_signedNumber? h)
    obtain rfl : n = n' := Option.some.inj (h.symm.trans hn')
    exact ⟨htail, hunsigned htail ▸ hdecimal⟩
  · rintro ⟨htail, hdecimal⟩
    rwa [hunsigned htail]

/-- Of what is no literal, only the names of numbers are read as numbers. -/
theorem isNumeral_of_not_literal (hsuits : Tree.Suits .value v) (hplain : plainType? v = none)
    (hsigned : signedNumber? v = none) : Text.isNumeral v.chars = true ↔
      (Text.withoutSign (Text.trim v.chars)).map Char.toLower ∈ Text.numberNames := by
  -- a value that is spelled like a decimal number was read as a literal
  have hdecimal : Text.isDecimal (Text.withoutSign (Text.trim v.chars)) = false := by
    refine Bool.eq_false_iff.2 fun hdecimal => ?_
    obtain ⟨n, hn, -⟩ := signedNumber?_of_isNumeral (hsuits hdecimal) hplain
    rw [hsigned] at hn
    cases hn
  rw [Text.isNumeral_iff, hdecimal]
  exact or_iff_right Bool.false_ne_true

/-- The type of a literal without a sign is seen. -/
lemma type_of_plain (htype : p.type = none) (hv : p.fallback = some v) (place : Nat)
    (hplain : plainType? v ≠ none) : (Parameter.ofSyntax place p).type = widenedType v := by
  obtain ⟨type, hseen⟩ := Option.ne_none_iff_exists'.1 hplain
  rw [type_ofSyntax htype hv place, widenedType, hseen]
  rfl

lemma type_of_signed_iff (htype : p.type = none) (hv : p.fallback = some v) (place : Nat)
    {n : Tree} (hn : Syntax.IsNumberText n.chars) (hsuits : Tree.Suits .value v)
    (h : signedNumber? v = some n) : (Parameter.ofSyntax place p).type = widenedType v ↔
      v.chars.tail = n.chars ∧ Text.isDecimal n.chars = true := by
  have hplain := plainType?_of_signedNumber? h
  have hwidened : widenedType v = numberType n := by
    rw [widenedType, hplain, h]
    rfl
  have hread := isNumeral_of_signedNumber? hn hsuits h
  rw [type_ofSyntax htype hv place, hwidened, hplain, Option.none_or, ← hread]
  by_cases hnumeral : Text.isNumeral v.chars = true
  · rw [if_pos hnumeral, numberType_of_isDecimal (hread.1 hnumeral).2]
    exact iff_of_true rfl hnumeral
  · -- what is not read as a number can be anything, which no number can
    rw [if_neg hnumeral]
    refine iff_of_false (fun heq => ?_) hnumeral
    unfold numberType at heq
    split at heq <;> split at heq <;> exact absurd heq (by decide)

lemma type_of_other_iff (htype : p.type = none) (hv : p.fallback = some v) (place : Nat)
    (hsuits : Tree.Suits .value v) (hplain : plainType? v = none)
    (hsigned : signedNumber? v = none) : (Parameter.ofSyntax place p).type = widenedType v ↔
      p.isRest = false ∧
        (Text.withoutSign (Text.trim v.chars)).map Char.toLower ∉ Text.numberNames := by
  have hwidened : widenedType v = "any" := by
    rw [widenedType, hplain, hsigned]
    rfl
  rw [type_ofSyntax htype hv place, hwidened, hplain, Option.none_or,
    ← isNumeral_of_not_literal hsuits hplain hsigned]
  by_cases hnumeral : Text.isNumeral v.chars = true
  · rw [if_pos hnumeral]
    have hany : "number" ≠ "any" := by decide
    exact iff_of_false hany fun h => h.2 hnumeral
  · rw [if_neg hnumeral]
    cases p.isRest <;> simp [hnumeral]

end recorded

/-- The type of a parameter of a function in a source that has a default and no type of its own. A
literal without a sign is always seen. A number with a sign is seen exactly if it is a decimal number
right behind its sign. Whatever else there is can be anything, exactly if it is none of the names of
numbers and the parameter does not take all further arguments. -/
theorem type_eq_widenedType_iff {path : Path} {text before after : List Char} {f v : Tree}
    (hf : Tree.PartAt before f after (Syntax.Module.read path text).tree) {p : Syntax.Parameter}
    (hp : p ∈ Syntax.Parameter.ofFunction f) (htype : p.type = none) (hv : p.fallback = some v)
    (place : Nat) :
    let recorded := (Parameter.ofSyntax place p).type
    (plainType? v ≠ none → recorded = widenedType v) ∧
      (∀ n, signedNumber? v = some n →
        (recorded = widenedType v ↔ v.chars.tail = n.chars ∧ Text.isDecimal n.chars = true)) ∧
      (plainType? v = none → signedNumber? v = none →
        (recorded = widenedType v ↔ p.isRest = false ∧
          (Text.withoutSign (Text.trim v.chars)).map Char.toLower ∉ Text.numberNames)) := by
  obtain ⟨child, hchild, rfl⟩ : ∃ child : Tree, child.Formed ∧ p = .ofTree child := by
    refine (Syntax.Parameter.exists_of_mem_ofFunction
      (hf.formed (Syntax.formed_parse _ _)) hp).resolve_left ?_
    rintro ⟨sole, -, rfl⟩
    cases hv
  have hformed : v.Formed := hchild.of_part? hv
  have hsuits : Tree.Suits .value v := hchild.suits_of_part? hv
  refine ⟨type_of_plain htype hv place, fun n hn => ?_, type_of_other_iff htype hv place hsuits⟩
  obtain ⟨-, hkind, hchildren, -⟩ := signedNumber?_eq_some_iff.1 hn
  have hn' : n.Formed := hformed.of_mem_children (hchildren ▸ List.mem_singleton_self n)
  exact type_of_signed_iff htype hv place (hn'.isNumberText hkind) hsuits hn

namespace Sample

/-- A method with a negative number as a default. -/
def negative : String := "class S extends Store(){a(x=-1){}}"

/-- Whether a node is a function with a decimal number as a default, right behind its sign. -/
def hasSigned (n : Syntax.Node) : Bool :=
  (Syntax.Parameter.ofFunction n.tree).any fun p => p.type = none && p.fallback.any fun v =>
    (signedNumber? v).any fun number => v.chars.tail = number.chars &&
      Text.isDecimal number.chars && numberType number = "number"

/-- Names of numbers, and numbers that are not decimal or not right behind their signs. -/
def mistaken : String :=
  "class S extends Store(){a(a=NaN,b=Infinity,c=-10n,d=-0x10,e=- 1){}}"

end Sample

/-- The type of a negative number is seen. -/
theorem type_of_negative : ∃ before f after,
    Tree.PartAt before f after (Sample.module Sample.negative).tree ∧
      ∃ p ∈ Syntax.Parameter.ofFunction f, p.type = none ∧ p.fallback ≠ none ∧
        ∀ place, (Parameter.ofSyntax place p).type = "number" := by
  have hplaces : Syntax.Node.placesIn Sample.hasSigned 0
      (Sample.module Sample.negative).tree ≠ [] := by decide +kernel
  obtain ⟨before, f, after, hpart, hsigned⟩ := Syntax.Node.exists_partAt_of_places hplaces
  simp only [Sample.hasSigned, List.any_eq_true, Bool.and_eq_true, decide_eq_true_eq,
    Option.any_eq_true] at hsigned
  obtain ⟨p, hp, htype, v, hv, n, hn, ⟨htail, hdecimal⟩, hnumber⟩ := hsigned
  refine ⟨before, f, after, hpart, p, hp, htype, by simp [hv], fun place => ?_⟩
  obtain ⟨-, hsigned, -⟩ := type_eq_widenedType_iff hpart hp htype hv place
  rw [(hsigned n hn).2 ⟨htail, hdecimal⟩, widenedType, plainType?_of_signedNumber? hn, hn]
  exact hnumber

/-- Names of numbers are taken for numbers, and most numbers with a sign for anything. -/
theorem types_of_mistaken : ∃ c ∈ Sample.classes Sample.mistaken, ∃ method ∈ c.members,
    (method.parameters.mapIdx Parameter.ofSyntax).map Parameter.type =
        ["number", "number", "any", "any", "any"] ∧
      method.parameters.map (fun p => p.fallback.map widenedType) =
        [some "any", some "any", some "bigint", some "number", some "number"] := by
  decide +kernel

end Store

end StoreBindings
