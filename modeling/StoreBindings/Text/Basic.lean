/-!
# Letters, blanks, numerals and quoted texts

Names of decorators and of the store factory are compared with the twenty-six letters folded and every
other character as it is: `sameLetters`.

White space is what Unicode defines it to be (the property `White_Space`), and texts are trimmed by it.
Core's `Char.isWhitespace` knows four characters only, so the property has a table of its own: `isBlank`.

A numeral is a text that is read as a decimal number: `isNumeral`.

Between double quotes the quote, the backslash and the control characters are escaped, as in JSON: five
of them by a letter, the others by four hexadecimal digits. Everything else stands for itself: `quoted`.
-/

namespace StoreBindings.Text

/-! ## Letters -/

/-- Two texts that differ at most in the case of ASCII letters. -/
def sameLetters (s t : String) : Bool :=
  s.toList.map Char.toLower == t.toList.map Char.toLower

@[simp] theorem sameLetters_self (s : String) : sameLetters s s = true := by
  simp [sameLetters]

/-! ## Blanks -/

/-- The characters with the Unicode property `White_Space`. -/
def isBlank (c : Char) : Bool :=
  let n := c.toNat
  (9 ≤ n && n ≤ 13) || n == 0x20 || n == 0x85 || n == 0xA0 || n == 0x1680 ||
    (0x2000 ≤ n && n ≤ 0x200A) || n == 0x2028 || n == 0x2029 || n == 0x202F || n == 0x205F ||
    n == 0x3000

/-- What is left of a text after its leading blanks. -/
def trimStart (cs : List Char) : List Char := cs.dropWhile isBlank

/-- What is left of a text before its trailing blanks. -/
def trimEnd (cs : List Char) : List Char := (cs.reverse.dropWhile isBlank).reverse

/-- A text without its leading and trailing blanks. -/
def trim (cs : List Char) : List Char := trimEnd (trimStart cs)

/-! ## Numerals -/

/-- A text without a sign in front. -/
def withoutSign : List Char → List Char
  | '+' :: cs => cs
  | '-' :: cs => cs
  | cs => cs

/-- The names of infinity and of what is no number. -/
def numberNames : List (List Char) := ["inf".toList, "infinity".toList, "nan".toList]

/-- Whether a text is an exponent, or empty. -/
def isExponent : List Char → Bool
  | [] => true
  | c :: cs =>
    let digits := withoutSign cs
    (c == 'e' || c == 'E') && !digits.isEmpty && digits.all Char.isDigit

/-- Whether a text is a decimal number: at least one digit, a point anywhere before, after or
between the digits, and then perhaps an exponent. -/
def isDecimal (cs : List Char) : Bool :=
  let (whole, rest) := cs.span Char.isDigit
  match rest with
  | '.' :: after =>
    let (fraction, exponent) := after.span Char.isDigit
    !(whole.isEmpty && fraction.isEmpty) && isExponent exponent
  | exponent => !whole.isEmpty && isExponent exponent

/-- Whether a text, blanks around it aside, is read as a number. -/
def isNumeral (cs : List Char) : Bool :=
  let unsigned := withoutSign (trim cs)
  isDecimal unsigned || numberNames.contains (unsigned.map Char.toLower)

/-! ## Quoted texts -/

/-- The lower-case hexadecimal digit for a number below sixteen. -/
def hexDigit (n : Nat) : Char := Nat.digitChar n

/-- How a character is written between quotes. -/
def escape (c : Char) : List Char :=
  if c == '"' then ['\\', '"']
  else if c == '\\' then ['\\', '\\']
  else if c == '\x08' then ['\\', 'b']
  else if c == '\x0c' then ['\\', 'f']
  else if c == '\n' then ['\\', 'n']
  else if c == '\r' then ['\\', 'r']
  else if c == '\t' then ['\\', 't']
  else if c.toNat < 0x20 then
    ['\\', 'u', '0', '0', hexDigit (c.toNat / 16), hexDigit (c.toNat % 16)]
  else [c]

/-- A text between quotes. -/
def quoted (cs : List Char) : List Char := '"' :: (cs.flatMap escape ++ ['"'])

/-- A string between quotes. -/
def quote (s : String) : String := String.ofList (quoted s.toList)

end StoreBindings.Text
