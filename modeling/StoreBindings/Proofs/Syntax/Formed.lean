import StoreBindings.Proofs.Syntax.Numbers
import StoreBindings.Syntax.Cursor

/-!
# Trees that are put together as their kinds say

A tree may be any nesting of parts. The trees that are read from a source are not: a property is what
it belongs to, a point and a name (`Tree.Fits`), a call is a function and its arguments, and nothing
but white space, comments and type arguments stands between these. `Tree.Formed` says so of all nodes
of a tree, and `Cursor.Good` of all that has been read at a place in a source.
-/

namespace StoreBindings.Syntax

namespace Tree

/-! ## Parts without a meaning of their own -/

/-- White space or a comment, as it stands between two tokens. -/
inductive IsGap : Tree → Prop
  | blank (c : Char) (cs : List Char) (h : ∀ d ∈ c :: cs, isSpace d = true) :
      IsGap (leaf .plain .blank (c :: cs))
  | line (cs : List Char) : IsGap (leaf .plain .comment ('/' :: '/' :: cs))
  | block (cs : List Char) : IsGap (leaf .plain .comment ('/' :: '*' :: cs))

/-- A punctuation mark. -/
def mark (s : String) : Tree := leaf .plain .symbol s.toList

/-- A node of a given kind, whatever it consists of. -/
def IsNode (kind : Kind) (t : Tree) : Prop := ∃ parts, t = node .plain kind parts

/-- Types in angle brackets. -/
def IsTypeList (t : Tree) : Prop :=
  ∃ parts, t = node .plain .other parts ∧ (charsOfAll parts).head? = some '<'

/-- What can stand between a function and the arguments that it is called with. -/
def IsBetween (t : Tree) : Prop := t.IsGap ∨ t = mark "?." ∨ t.IsTypeList

/-- Parts between two marks: something that counts is among them, or only white space, comments and
commas are. -/
def Enclosed (opening closing : String) (parts : List Tree) : Prop :=
  (∃ t ∈ parts, t.kind.counts = true) ∨ ∃ inside,
    parts = mark opening :: (inside ++ [mark closing]) ∧ ∀ t ∈ inside, t.IsGap ∨ t = mark ","

/-! ## Nodes -/

/-- A call of what is a name or a property, if it is a call. -/
def CallsName (t : Tree) : Prop := t.kind = .call → ∃ function rest, t.parts = function :: rest ∧
  function.role = .function ∧ (function.kind = .identifier ∨ function.kind = .member)

/-- What a node of a given kind consists of, as far as calls and what they are made of go. -/
def Fits : Kind → List Tree → Prop
  | .member, parts => ∃ object before point after property,
      parts = object :: (before ++ mark point :: (after ++ [property])) ∧
        object.role = .object ∧ property.role = .property ∧ (point = "." ∨ point = "?.") ∧
        (∀ t ∈ before, t.IsGap) ∧ ∀ t ∈ after, t.IsGap
  | .call, parts => ∃ function between kind inside,
      parts = function :: (between ++ [node .arguments kind inside]) ∧ function.role = .function ∧
        (kind = .arguments ∨ kind = .template) ∧ ∀ t ∈ between, t.IsBetween
  | .arguments, parts => Enclosed "(" ")" parts
  | .template, parts => Enclosed "\x60" "\x60" parts
  | .decorator, parts => ∃ before expression, parts = mark "@" :: (before ++ [expression]) ∧
      (∀ t ∈ before, t.IsGap) ∧ expression.kind.counts = true ∧ expression.CallsName
  | .number, _ => False
  | _, _ => True

/-- How a leaf of a given kind is spelled, as far as numbers go. -/
def Spells : Kind → List Char → Prop
  | .number, cs => IsNumberText cs
  | _, _ => True

/-- A number, or a sign with a number right behind it. -/
def IsNumeral (t : Tree) : Prop :=
  t.kind = .number ∨ ∃ s n, (s = '+' ∨ s = '-') ∧ n.kind = .number ∧ t.kind = .other ∧
    t.parts = [leaf .plain .keyword [s], n]

/-- Whether a tree has a character in it that is no part of a number. -/
def IsTelling (t : Tree) : Prop := ∃ c ∈ t.chars, isTelling c = true

/-- What a part in a given role can be, as far as numbers go: a parameter is not spelled like a number,
and a value that is spelled like a number is one. -/
def Suits : Role → Tree → Prop
  | .parameter, t | .pattern, t => t.IsTelling
  | .value, t => Text.isDecimal (Text.withoutSign (Text.trim t.chars)) = true → t.IsNumeral
  | _, _ => True

/-- A tree all nodes of which consist of what belongs to their kinds and roles. -/
inductive Formed : Tree → Prop
  | leaf (r : Role) (k : Kind) (cs : List Char) (hspells : Spells k cs)
      (hsuits : Suits r (.leaf r k cs)) : Formed (.leaf r k cs)
  | node {r : Role} {k : Kind} {parts : List Tree} (hfits : Fits k parts)
      (hparts : ∀ p ∈ parts, Formed p) (hsuits : Suits r (.node r k parts)) :
      Formed (.node r k parts)

/-- A well-formed tree suits its role. -/
lemma Formed.suits {t : Tree} (h : t.Formed) : Suits t.role t := by
  cases h <;> assumption

/-- A role says nothing about the role that a part had before. -/
lemma suits_withRole {r r' : Role} {t : Tree} : Suits r (t.withRole r') ↔ Suits r t := by
  cases t <;> cases r <;> rfl

/-- A well-formed tree may be put in any role that it suits. -/
lemma Formed.withRole {t : Tree} (h : t.Formed) {r : Role} (hr : Suits r t) :
    (t.withRole r).Formed := by
  cases h with
  | leaf _ _ _ hspells => exact .leaf _ _ _ hspells (suits_withRole.2 hr)
  | node hfits hparts => exact .node hfits hparts (suits_withRole.2 hr)

/-- Blanks and comments are well-formed. -/
lemma IsGap.formed {t : Tree} (h : t.IsGap) : t.Formed := by
  cases h <;> exact .leaf _ _ _ trivial trivial

@[simp] lemma role_withRole (r : Role) (t : Tree) : (t.withRole r).role = r := by
  cases t <;> rfl

/-! ## Parts by their roles -/

@[simp] lemma role_mark (s : String) : (Tree.mark s).role = .plain := rfl

/-- Blanks and comments have no role. -/
lemma role_of_isGap {t : Tree} (h : t.IsGap) : t.role = .plain := by
  cases h <;> rfl

/-- What stands between a function and its arguments has none either. -/
lemma role_of_isBetween {t : Tree} (h : t.IsBetween) : t.role = .plain := by
  rcases h with h | rfl | ⟨parts, rfl, -⟩
  · exact role_of_isGap h
  · rfl
  · rfl

/-- The first part is found by its role. -/
lemma part?_cons {r r' : Role} {k : Kind} {right : List Tree} {p : Tree} (hp : p.role = r) :
    (Tree.node r' k (p :: right)).part? r = some p :=
  List.find?_cons_of_pos (by simp [hp])

/-- A part is found by its role if no part before it has that role. -/
lemma part?_append {r r' : Role} {k : Kind} {left right : List Tree} {p : Tree}
    (hleft : ∀ t ∈ left, t.role ≠ r) (hp : p.role = r) :
    (Tree.node r' k (left ++ p :: right)).part? r = some p := by
  show (left ++ p :: right).find? (fun p => p.role == r) = some p
  rw [List.find?_append, List.find?_eq_none.2 fun t ht => by simpa using hleft t ht]
  simp [hp]

/-- Blanks and comments do not count. -/
lemma counts_of_isGap {t : Tree} (h : t.IsGap) : t.kind.counts = false := by
  cases h <;> rfl

/-- The last part is the first one that counts if none before it does. -/
lemma firstChild?_append {r : Role} {k : Kind} {left : List Tree} {p : Tree}
    (hleft : ∀ t ∈ left, t.kind.counts = false) (hp : p.kind.counts = true) :
    (Tree.node r k (left ++ [p])).firstChild? = some p := by
  have hnone : left.filter (fun t => t.kind.counts) = [] :=
    List.filter_eq_nil_iff.2 fun t ht => by simp [hleft t ht]
  simp [firstChild?, children, parts, hnone, hp]

/-- The arguments of a call are found behind what can stand before them. -/
lemma part?_arguments {r : Role} {k kind : Kind} {function : Tree} {between inside : List Tree}
    (hrole : function.role = .function) (hbetween : ∀ t ∈ between, t.IsBetween) :
    (Tree.node r k (function :: (between ++ [.node .arguments kind inside]))).part? .arguments =
      some (.node .arguments kind inside) := by
  rw [← List.cons_append]
  refine part?_append (fun t ht => ?_) rfl
  rcases List.mem_cons.1 ht with rfl | ht
  · rw [hrole]
    decide
  · rw [role_of_isBetween (hbetween t ht)]
    decide

end Tree

/-- The kinds of nodes that may consist of anything. -/
@[reducible] def Kind.isLoose : Kind → Bool
  | .blank | .comment | .symbol | .keyword | .member | .call | .arguments | .template => false
  | .decorator | .number => false
  | _ => true

/-- The kinds of leaves that may be spelled in any way. -/
@[reducible] def Kind.isFree : Kind → Bool
  | .number => false
  | _ => true

/-- A leaf of a free kind may be spelled in any way. -/
lemma Tree.spells_of_isFree {k : Kind} (h : k.isFree = true) (cs : List Char) : Spells k cs := by
  cases k <;> trivial

/-- The roles of parts that may be anything. -/
@[reducible] def Role.isFree : Role → Bool
  | .parameter | .pattern | .value => false
  | _ => true

/-- In a free role a part may be anything. -/
lemma Tree.suits_of_isFree {r : Role} (h : r.isFree = true) (t : Tree) : Suits r t := by
  cases r <;> trivial

/-- The roles of parts that may be any word. -/
@[reducible] def Role.isNamed : Role → Bool
  | .value => false
  | _ => true

/-- What has a telling character suits every role that a word suits. -/
lemma Tree.IsTelling.suits {r : Role} (h : r.isNamed = true) {t : Tree} (ht : t.IsTelling) :
    Suits r t := by
  cases r with
  | value => cases h
  | parameter | pattern => exact ht
  | _ => trivial

/-- Nodes that may consist of anything count. -/
lemma Kind.counts_of_isLoose {k : Kind} (h : k.isLoose = true) : k.counts = true := by
  cases k <;> trivial

/-- Any parts fit a loose kind. -/
lemma Tree.fits_of_isLoose {k : Kind} (h : k.isLoose = true) (parts : List Tree) :
    Fits k parts := by
  cases k <;> trivial

/-! ## What is read of blanks and marks -/

/-- What is read as a blank or a comment is one. -/
lemma isGap_of_blank? {cs rest : List Char} {t : Tree} (h : blank? cs = some (t, rest)) :
    t.IsGap := by
  unfold blank? at h
  split at h
  · cases h
    exact .line _
  · cases h
    exact .block _
  · next c cs =>
    split at h
    · next hc =>
      rw [List.span_eq_takeWhile_dropWhile] at h
      cases h
      refine .blank _ _ fun d hd => ?_
      rcases List.mem_cons.1 hd with rfl | hd
      · exact hc
      · exact List.mem_takeWhile_imp hd
    · cases h
  · cases h

/-- Only blanks and comments are skipped. -/
lemma isGap_of_mem_skipBlanks {fuel : Nat} {cs : List Char} {t : Tree}
    (h : t ∈ (skipBlanks fuel cs).1) : t.IsGap := by
  fun_induction skipBlanks fuel cs with
  | case1 => cases h
  | case2 cs n leaf rest hblank more rest' heq ih =>
    simp [heq] at ih
    rcases List.mem_cons.1 h with rfl | h
    · exact isGap_of_blank? hblank
    · exact ih h
  | case3 => cases h

/-- A mark that is read stands at the front. -/
lemma prefix_of_symbol? {cs : List Char} {s : String} (h : symbol? cs = some s) :
    s.toList <+: cs := by
  unfold symbol? at h
  split at h
  all_goals try split at h
  all_goals cases h
  all_goals simp

/-- The characters of a punctuation mark are the mark. -/
lemma chars_of_read {cs : List Char} {s : String} (h : (Token.read cs).1 = .symbol s) :
    (Token.read cs).2.1 = s.toList := by
  unfold Token.read at h ⊢
  split at h
  · cases h
  · next c cs =>
    dsimp only at h ⊢
    -- only the last of the cases that are told apart is that of a punctuation mark
    repeat' split at h
    all_goals cases h
    next hname hnumber hquote hprivate _ hmark =>
    rw [if_neg hname, if_neg hnumber, if_neg hquote, if_neg hprivate]
    exact (List.prefix_iff_eq_take.1 (prefix_of_symbol? hmark)).symm

end StoreBindings.Syntax
