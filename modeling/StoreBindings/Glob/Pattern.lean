/-!
# Patterns for paths

A pattern describes paths by wildcards: `?` for any character, `*` for any number of characters,
`[...]` and `[!...]` for one character out of a set or outside of it, and `**` for any number of
directories. `**` has to be a whole part of a path; a pattern in which it is not, or in which a set
has no end, is no pattern at all.

A pattern that is matched against a whole text does not care about slashes: `*`, `?` and the sets
match them like any other character.
-/

namespace StoreBindings.Glob

/-- A part of a pattern. -/
inductive Token
  | char (c : Char)
  | anyChar
  | anySequence
  | anyDirectories
  /-- A character in one of several ranges. -/
  | inside (ranges : List (Char × Char))
  | outside (ranges : List (Char × Char))
deriving DecidableEq, Repr

abbrev Pattern := List Token

/-- The ranges of a set: single characters, and two characters with a dash between them. -/
def rangesOf : List Char → List (Char × Char)
  | a :: '-' :: b :: cs => (a, b) :: rangesOf cs
  | a :: cs => (a, a) :: rangesOf cs
  | [] => []

/-- What follows the bracket that closes a set. -/
def afterSet? (cs : List Char) : Option (List Char) :=
  match cs.dropWhile (· != ']') with
  | [] => none
  | _ :: rest => some rest

/-- The characters before the bracket that closes a set. -/
def insideSet (cs : List Char) : List Char := cs.takeWhile (· != ']')

/-- A set behind its opening bracket, and what follows it. The first character counts whatever it
is. -/
def readSet? : List Char → Option (Token × List Char)
  | '!' :: first :: cs =>
    (afterSet? cs).map fun rest => (.outside (rangesOf (first :: insideSet cs)), rest)
  | '!' :: [] => none
  | first :: cs =>
    (afterSet? cs).map fun rest => (.inside (rangesOf (first :: insideSet cs)), rest)
  | [] => none

theorem length_of_afterSet? {cs rest : List Char} (h : afterSet? cs = some rest) :
    rest.length < cs.length := by
  have hle := (List.dropWhile_sublist (fun c => c != ']') (l := cs)).length_le
  unfold afterSet? at h
  split at h
  · simp at h
  · next hd =>
    rw [hd] at hle
    simp only [Option.some.injEq] at h
    subst h
    simp only [List.length_cons] at hle
    omega

/-- What is left after a set is shorter. -/
theorem length_of_readSet? {cs rest : List Char} {t : Token} (h : readSet? cs = some (t, rest)) :
    rest.length < cs.length := by
  unfold readSet? at h
  split at h
  · obtain ⟨r, hr, he⟩ := Option.map_eq_some_iff.1 h
    have := length_of_afterSet? hr
    obtain ⟨_, rfl⟩ := Prod.mk.injEq .. ▸ he
    simp only [List.length_cons]
    omega
  · simp at h
  · obtain ⟨r, hr, he⟩ := Option.map_eq_some_iff.1 h
    have := length_of_afterSet? hr
    obtain ⟨_, rfl⟩ := Prod.mk.injEq .. ▸ he
    simp only [List.length_cons]
    omega
  · simp at h

/-- The tokens of a pattern of which the character `previous` has been read last. -/
def compileAfter? (previous : Option Char) (cs : List Char) : Option Pattern :=
  let atStart := previous = none ∨ previous = some '/'
  match cs with
  | [] => some []
  | '?' :: cs => (compileAfter? (some '?') cs).map (.anyChar :: ·)
  | '*' :: '*' :: [] => if atStart then some [.anyDirectories] else none
  | '*' :: '*' :: '/' :: cs =>
    if atStart then (compileAfter? (some '/') cs).map (.anyDirectories :: ·) else none
  | '*' :: '*' :: _ :: _ => none
  | '*' :: cs => (compileAfter? (some '*') cs).map (.anySequence :: ·)
  | '[' :: cs =>
    match h : readSet? cs with
    | some (t, rest) =>
      have := length_of_readSet? h
      (compileAfter? (some ']') rest).map (t :: ·)
    | none => none
  | c :: cs => (compileAfter? (some c) cs).map (.char c :: ·)
termination_by cs.length

/-- The pattern that a text spells. -/
def compile? (cs : List Char) : Option Pattern := compileAfter? none cs

/-! ## Matching -/

/-- Whether a character is in one of several ranges. -/
def isIn (ranges : List (Char × Char)) (c : Char) : Bool := ranges.any fun (a, b) => a ≤ c && c ≤ b

/-- Whether a token that stands for one character stands for this one. -/
def Token.accepts : Token → Char → Bool
  | char d, c => c == d
  | anyChar, _ => true
  | inside rs, c => isIn rs c
  | outside rs, c => !isIn rs c
  | anySequence, _ | anyDirectories, _ => false

/-- A text and all that is left of it after some of its characters. -/
def suffixes : List Char → List (List Char)
  | [] => [[]]
  | c :: cs => (c :: cs) :: suffixes cs

/-- What is left of a text after each of its slashes. -/
def afterSlashes : List Char → List (List Char)
  | [] => []
  | c :: cs => if c = '/' then cs :: afterSlashes cs else afterSlashes cs

/-- Whether a pattern describes a text. -/
def matchesText : Pattern → List Char → Bool
  | [], cs => cs.isEmpty
  | .anySequence :: ts, cs => (suffixes cs).any (matchesText ts)
  | .anyDirectories :: ts, cs => (cs :: (afterSlashes cs ++ [[]])).any (matchesText ts)
  | t :: ts, c :: cs => t.accepts c && matchesText ts cs
  | _ :: _, [] => false

end StoreBindings.Glob
