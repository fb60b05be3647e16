import StoreBindings.Json.Basic

/-!
# Reading JSON

The grammar of JSON, read strictly: four blanks and no others, no control characters in texts, no
leading zeros, no comma too many. First the leaves (blanks, texts with their escapes, numbers),
then values, and `parse?` for a whole document.
-/

namespace StoreBindings.Json

/-! ## Leaves -/

/-- The characters that may stand between the parts of a document. -/
def isSpace (c : Char) : Bool := c == ' ' || c == '\n' || c == '\t' || c == '\r'

def skip (cs : List Char) : List Char := cs.dropWhile isSpace

/-- The value of a hexadecimal digit. -/
def hexDigit? (c : Char) : Option Nat :=
  if c.isDigit then some (c.toNat - '0'.toNat)
  else if 'a' ≤ c ∧ c ≤ 'f' then some (c.toNat - 'a'.toNat + 10)
  else if 'A' ≤ c ∧ c ≤ 'F' then some (c.toNat - 'A'.toNat + 10)
  else none

/-- The number that hexadecimal digits spell. -/
def hexNumber? (cs : List Char) : Option Nat :=
  cs.foldlM (fun n c => (hexDigit? c).map (16 * n + ·)) 0

/-- A part of a text: a character, or an escaped code of sixteen bits. -/
inductive Piece
  | char (c : Char)
  | code (n : Nat)
deriving DecidableEq, Repr

/-- The character behind a backslash. -/
def escaped? : Char → Option Char
  | '"' => some '"'
  | '\\' => some '\\'
  | '/' => some '/'
  | 'b' => some '\x08'
  | 'f' => some '\x0c'
  | 'n' => some '\n'
  | 'r' => some '\r'
  | 't' => some '\t'
  | _ => none

/-- The parts of a text up to its closing quote, and what follows. -/
def readPieces : List Char → Option (List Piece × List Char)
  | [] => none
  | '"' :: cs => some ([], cs)
  | '\\' :: 'u' :: a :: b :: c :: d :: cs => do
    let n ← hexNumber? [a, b, c, d]
    let (ps, rest) ← readPieces cs
    return (.code n :: ps, rest)
  | '\\' :: e :: cs => do
    let c ← escaped? e
    let (ps, rest) ← readPieces cs
    return (.char c :: ps, rest)
  | c :: cs => do
    guard (0x20 ≤ c.toNat && c != '\\')
    let (ps, rest) ← readPieces cs
    return (.char c :: ps, rest)

/-- Whether a code is the first half of a character. -/
def isHigh (n : Nat) : Bool := 0xD800 ≤ n && n ≤ 0xDBFF

/-- Whether a code is the second half of a character. -/
def isLow (n : Nat) : Bool := 0xDC00 ≤ n && n ≤ 0xDFFF

/-- The characters that the parts of a text stand for, if each half meets its other half. -/
def assemble : List Piece → Option (List Char)
  | [] => some []
  | .char c :: ps => (assemble ps).map (c :: ·)
  | .code n :: .code m :: ps =>
    if isHigh n then
      if isLow m then
        (assemble ps).map (Char.ofNat (0x10000 + (n - 0xD800) * 0x400 + (m - 0xDC00)) :: ·)
      else none
    else if isLow n then none
    else (assemble (.code m :: ps)).map (Char.ofNat n :: ·)
  | .code n :: ps => if isHigh n || isLow n then none else (assemble ps).map (Char.ofNat n :: ·)

/-- A text behind its opening quote. -/
def readText (cs : List Char) : Option (Option String × List Char) := do
  let (ps, rest) ← readPieces cs
  return ((assemble ps).map String.ofList, rest)

/-- At least one digit. -/
def readDigits (cs : List Char) : Option (List Char × List Char) :=
  let (ds, rest) := cs.span Char.isDigit
  if ds.isEmpty then none else some (ds, rest)

/-- The whole part of a number: no leading zero. -/
def readWhole : List Char → Option (List Char × List Char)
  | '0' :: cs => if cs.head?.any Char.isDigit then none else some (['0'], cs)
  | cs => readDigits cs

/-- The part of a number behind its point, if there is one. -/
def readFraction : List Char → Option (List Char × List Char)
  | '.' :: cs => do
    let (ds, rest) ← readDigits cs
    return ('.' :: ds, rest)
  | cs => some ([], cs)

/-- The exponent of a number, if there is one. -/
def readExponent : List Char → Option (List Char × List Char)
  | e :: s :: cs =>
    if e == 'e' || e == 'E' then
      if s == '+' || s == '-' then do
        let (ds, rest) ← readDigits cs
        return (e :: s :: ds, rest)
      else do
        let (ds, rest) ← readDigits (s :: cs)
        return (e :: ds, rest)
    else some ([], e :: s :: cs)
  | [e] => if e == 'e' || e == 'E' then none else some ([], [e])
  | [] => some ([], [])

/-- A number. -/
def readNumber (cs : List Char) : Option (List Char × List Char) := do
  let (sign, cs) := match cs with
    | '-' :: cs => (['-'], cs)
    | cs => ([], cs)
  let (whole, cs) ← readWhole cs
  let (fraction, cs) ← readFraction cs
  let (exponent, cs) ← readExponent cs
  return (sign ++ whole ++ fraction ++ exponent, cs)

/-! ## Values -/

mutual

/-- A value whose parts are nested less deep than `depth`, and what follows it. -/
def readValue (depth : Nat) (cs : List Char) : Option (Json × List Char) :=
  match depth with
  | 0 => none
  | depth + 1 =>
    match skip cs with
    | 'n' :: 'u' :: 'l' :: 'l' :: rest => some (.null, rest)
    | 't' :: 'r' :: 'u' :: 'e' :: rest => some (.bool true, rest)
    | 'f' :: 'a' :: 'l' :: 's' :: 'e' :: rest => some (.bool false, rest)
    | '"' :: cs => do
      let (s, rest) ← readText cs
      return (.text s, rest)
    | '[' :: cs =>
      match skip cs with
      | ']' :: rest => some (.array [], rest)
      | cs => do
        let (items, rest) ← readItems depth cs
        return (.array items, rest)
    | '\x7b' :: cs =>
      match skip cs with
      | '\x7d' :: rest => some (.object [], rest)
      | cs => do
        let (entries, rest) ← readEntries depth cs
        return (.object entries, rest)
    | cs => do
      let (digits, rest) ← readNumber cs
      return (.number digits, rest)

/-- At least one item of an array and its end. -/
def readItems (depth : Nat) (cs : List Char) : Option (List Json × List Char) :=
  match depth with
  | 0 => none
  | depth + 1 => do
    let (item, cs) ← readValue depth cs
    match skip cs with
    | ']' :: rest => return ([item], rest)
    | ',' :: cs =>
      let (items, rest) ← readItems depth cs
      return (item :: items, rest)
    | _ => none

/-- At least one entry of an object and its end. -/
def readEntries (depth : Nat) (cs : List Char) : Option (List (Option String × Json) × List Char) :=
  match depth with
  | 0 => none
  | depth + 1 => do
    let '"' :: cs := skip cs | none
    let (key, cs) ← readText cs
    let ':' :: cs := skip cs | none
    let (value, cs) ← readValue depth cs
    match skip cs with
    | '\x7d' :: rest => return ([(key, value)], rest)
    | ',' :: cs =>
      let (entries, rest) ← readEntries depth cs
      return ((key, value) :: entries, rest)
    | _ => none

end

/-- The value that a document holds, if it holds one and nothing else. Each level of nesting takes
a character, and so does each item after the first, so the depth suffices. -/
def parse? (cs : List Char) : Option Json := do
  let (value, rest) ← readValue (2 * cs.length + 2) cs
  guard (skip rest).isEmpty
  return value

end StoreBindings.Json
