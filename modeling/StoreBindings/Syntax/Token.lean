import StoreBindings.Text.Basic
import StoreBindings.Syntax.Tree

/-!
# Tokens of a TypeScript source

One step of reading: what stands at the front of a text, and what is left after it. Blanks and
comments are read by `skipBlanks`, everything else by `Token.read`. A few tokens depend on where
they stand and are left to the grammar: a slash may open a regular expression, a backquote opens a
template, and `>` is always read alone, so that `>>` closes two type argument lists as easily as
it shifts a number.
-/

namespace StoreBindings.Syntax

/-! ## Character classes -/

/-- White space between tokens: the blanks, the byte order mark and the invisible joiners. -/
def isSpace (c : Char) : Bool :=
  Text.isBlank c || c == '\uFEFF' || c == '\u2060' || c == '\u200B'

/-- The punctuation characters, none of which can be part of a name. -/
def punctuation : List Char := ":;\x60\"'@#.,|^&<=>+-*/\\%?!~()[]\x7b\x7d".toList

/-- Any character but a control, a blank or punctuation can be part of a name. -/
def isNamePart (c : Char) : Bool :=
  0x20 < c.toNat && !isSpace c && !punctuation.contains c

/-- A name does not start with a digit. -/
def isNameStart (c : Char) : Bool := isNamePart c && !c.isDigit

/-- What ends a line comment. -/
def endsLine (c : Char) : Bool := c == '\n' || c == '\r' || c == '\u2028' || c == '\u2029'

/-! ## Names, numbers and strings -/

/-- How far the reading of an escape such as `\u0041` or `\u` with braces inside a name has come. -/
inductive NameState
  | plain | backslash | letter | braces
deriving DecidableEq

/-- The longest name at the front of a text, and the rest. -/
def takeName : NameState → List Char → List Char × List Char
  | _, [] => ([], [])
  | state, c :: cs =>
    let go (next : NameState) : List Char × List Char :=
      let (name, rest) := takeName next cs
      (c :: name, rest)
    match state with
    | .plain => if isNamePart c then go .plain else if c == '\\' then go .backslash else ([], c :: cs)
    | .backslash => if c == 'u' then go .letter else ([], c :: cs)
    | .letter =>
      if c == '\x7b' then go .braces
      else if isNamePart c then go .plain
      else if c == '\\' then go .backslash
      else ([], c :: cs)
    | .braces => go (if c == '\x7d' then .plain else .braces)

/-- Digits of any base up to sixteen, with separators. -/
def isDigitPart (c : Char) : Bool := c.isAlphanum || c == '_'

/-- The decimal digits and separators at the front of a text, and the rest. -/
def takeDigits (cs : List Char) : List Char × List Char :=
  cs.span fun c => c.isDigit || c == '_'

/-- An exponent at the front of a text, if one stands there, and the rest. -/
def takeExponent : List Char → List Char × List Char
  | e :: s :: d :: cs =>
    if e.toLower != 'e' then ([], e :: s :: d :: cs)
    else if (s == '+' || s == '-') && d.isDigit then
      let (ds, rest) := takeDigits cs
      (e :: s :: d :: ds, rest)
    else if s.isDigit then
      let (ds, rest) := takeDigits (d :: cs)
      (e :: s :: ds, rest)
    else ([], e :: s :: d :: cs)
  | [e, d] => if e.toLower == 'e' && d.isDigit then ([e, d], []) else ([], [e, d])
  | cs => ([], cs)

/-- A decimal point and the digits after it, if one stands at the front of a text. -/
def takeFraction : List Char → List Char × List Char
  | '.' :: cs => let (ds, rest) := takeDigits cs; ('.' :: ds, rest)
  | cs => ([], cs)

/-- The numeric literal at the front of a text, which starts with a digit or with a point and a
digit, and the rest. -/
def takeNumber (cs : List Char) : List Char × List Char :=
  match cs with
  | '0' :: b :: rest =>
    if "xXoObB".toList.contains b then
      let (ds, rest) := rest.span isDigitPart
      ('0' :: b :: ds, rest)
    else decimal cs
  | _ => decimal cs
where
  decimal (cs : List Char) : List Char × List Char :=
    let (whole, rest) := takeDigits cs
    let (fraction, rest) := takeFraction rest
    let (exponent, rest) := takeExponent rest
    match rest with
    | 'n' :: rest => (whole ++ fraction ++ exponent ++ ['n'], rest)
    | _ => (whole ++ fraction ++ exponent, rest)

/-- The inside of a string literal and its closing quote, and the rest; `none` if the line or the
text ends first. A backslash takes the character after it along. -/
def takeQuoted (quote : Char) : Bool → List Char → Option (List Char × List Char)
  | _, [] => none
  | escaped, c :: cs =>
    let go (escaped : Bool) := (takeQuoted quote escaped cs).map fun (s, rest) => (c :: s, rest)
    if escaped then go false
    else if c == '\\' then go true
    else if c == quote then some ([c], cs)
    else if c == '\n' then none
    else go false

/-! ## Blanks and comments -/

/-- The text of a block comment after its opening mark, up to and with its closing mark. -/
def takeBlockComment : List Char → List Char × List Char
  | '*' :: '/' :: rest => (['*', '/'], rest)
  | [] => ([], [])
  | c :: cs => let (comment, rest) := takeBlockComment cs; (c :: comment, rest)

/-- One run of white space or one comment at the front of a text, and the rest. -/
def blank? : List Char → Option (Tree × List Char)
  | '/' :: '/' :: cs =>
    let (comment, rest) := cs.span fun c => !endsLine c
    some (.leaf .plain .comment ('/' :: '/' :: comment), rest)
  | '/' :: '*' :: cs =>
    let (comment, rest) := takeBlockComment cs
    some (.leaf .plain .comment ('/' :: '*' :: comment), rest)
  | c :: cs =>
    if isSpace c then
      let (space, rest) := cs.span isSpace
      some (.leaf .plain .blank (c :: space), rest)
    else none
  | [] => none

/-- All white space and comments at the front of a text, at most `fuel` pieces of them. -/
def skipBlanks : Nat → List Char → List Tree × List Char
  | 0, cs => ([], cs)
  | fuel + 1, cs =>
    match blank? cs with
    | some (leaf, rest) => let (more, rest) := skipBlanks fuel rest; (leaf :: more, rest)
    | none => ([], cs)

/-- A line that is commented out in the manner of a markup document, and the rest. -/
def remark? : List Char → Option (Tree × List Char)
  | '<' :: '!' :: '-' :: '-' :: cs => some (line "<!--" cs)
  | '-' :: '-' :: '>' :: cs => some (line "-->" cs)
  | _ => none
where
  line (mark : String) (cs : List Char) : Tree × List Char :=
    let (text, rest) := cs.span fun c => !(c == '\n' || c == '\u2028' || c == '\u2029')
    (.leaf .plain .other (mark.toList ++ text), rest)

/-! ## Tokens -/

/-- What a token is. Words include the reserved ones; the grammar knows where they are names. -/
inductive Token
  | word (text : String)
  | symbol (text : String)
  | privateName
  | number
  | string
  | stop
  | unknown
deriving DecidableEq, Repr, Inhabited

/-- The longest punctuation mark at the front of a text. -/
def symbol? : List Char → Option String
  | '.' :: '.' :: '.' :: _ => some "..."
  | '.' :: _ => some "."
  | '?' :: '?' :: '=' :: _ => some "??="
  | '?' :: '?' :: _ => some "??"
  | '?' :: '.' :: d :: _ => if d.isDigit then some "?" else some "?."
  | '?' :: _ => some "?"
  | '=' :: '=' :: '=' :: _ => some "==="
  | '=' :: '=' :: _ => some "=="
  | '=' :: '>' :: _ => some "=>"
  | '=' :: _ => some "="
  | '!' :: '=' :: '=' :: _ => some "!=="
  | '!' :: '=' :: _ => some "!="
  | '!' :: _ => some "!"
  | '+' :: '+' :: _ => some "++"
  | '+' :: '=' :: _ => some "+="
  | '+' :: _ => some "+"
  | '-' :: '-' :: _ => some "--"
  | '-' :: '=' :: _ => some "-="
  | '-' :: _ => some "-"
  | '*' :: '*' :: '=' :: _ => some "**="
  | '*' :: '*' :: _ => some "**"
  | '*' :: '=' :: _ => some "*="
  | '*' :: _ => some "*"
  | '/' :: '=' :: _ => some "/="
  | '/' :: _ => some "/"
  | '%' :: '=' :: _ => some "%="
  | '%' :: _ => some "%"
  | '&' :: '&' :: '=' :: _ => some "&&="
  | '&' :: '&' :: _ => some "&&"
  | '&' :: '=' :: _ => some "&="
  | '&' :: _ => some "&"
  | '|' :: '|' :: '=' :: _ => some "||="
  | '|' :: '|' :: _ => some "||"
  | '|' :: '=' :: _ => some "|="
  | '|' :: _ => some "|"
  | '^' :: '=' :: _ => some "^="
  | '^' :: _ => some "^"
  | '<' :: '<' :: '=' :: _ => some "<<="
  | '<' :: '<' :: _ => some "<<"
  | '<' :: '=' :: _ => some "<="
  | '<' :: _ => some "<"
  | c :: _ => if "\x7b\x7d()[];,~:@>\x60".toList.contains c then some c.toString else none
  | [] => none

/-- The token at the front of a text without leading blanks, its characters, and the rest. -/
def Token.read : List Char → Token × List Char × List Char
  | [] => (.stop, [], [])
  | c :: cs =>
    let text := c :: cs
    if isNameStart c || c == '\\' then
      let (name, rest) := takeName .plain text
      if name.isEmpty then (.unknown, [], text) else (.word (String.ofList name), name, rest)
    else if c.isDigit || (c == '.' && (cs.head?.map Char.isDigit).getD false) then
      let (digits, rest) := takeNumber text
      (.number, digits, rest)
    else if c == '"' || c == '\'' then
      match takeQuoted c false cs with
      | some (quoted, rest) => (.string, c :: quoted, rest)
      | none => (.unknown, [], text)
    else if c == '#' && (cs.head?.map isNameStart).getD false then
      let (name, rest) := takeName .plain cs
      (.privateName, c :: name, rest)
    else
      match symbol? text with
      | some mark => (.symbol mark, text.take mark.length, text.drop mark.length)
      | none => (.unknown, [], text)

end StoreBindings.Syntax
