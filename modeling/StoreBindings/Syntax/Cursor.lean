import StoreBindings.Syntax.Token

/-!
# Reading a source into a tree

A `Cursor` is a place in a source: the parts already read of the node under construction, and the
text still ahead, with its first token looked up. A `Reader` moves a cursor or refuses; since a
cursor is a value, going back after a refusal is going on with the old one.

Every reader puts what it passes over among the parts read, blanks and comments included, so the
text of a finished tree is the text that was read. A node takes the blanks before its first token
to its outside: no node begins or ends with a blank.
-/

namespace StoreBindings.Syntax

/-- A place in a source that is being read. -/
structure Cursor where
  /-- The parts read of the node under construction, the latest first. -/
  done : List Tree
  /-- The text that is not read yet. -/
  ahead : List Char
  /-- The blanks and comments at the front of `ahead`. -/
  blanks : List Tree
  /-- The first token after them. -/
  token : Token
  /-- The characters of that token. -/
  chars : List Char
  /-- The text after that token. -/
  rest : List Char
deriving Inhabited

namespace Cursor

/-- The place before a text, with the parts read so far. -/
def before (done : List Tree) (ahead : List Char) : Cursor :=
  let (blanks, front) := skipBlanks ahead.length ahead
  let (token, chars, rest) := Token.read front
  { done, ahead, blanks, token, chars, rest }

/-- The text from the first token on. -/
def front (c : Cursor) : List Char := c.chars ++ c.rest

/-- Whether a line ends between the last token and the next one. -/
def atLineStart (c : Cursor) : Bool := c.blanks.any fun b => b.chars.contains '\n'

/-- The parts read and the blanks after them, the latest first. -/
def doneWithBlanks (c : Cursor) : List Tree := c.blanks.reverse ++ c.done

end Cursor

/-- A step of reading, which may refuse. -/
abbrev Reader := StateT Cursor Option

namespace Reader

/-! ## Looking ahead -/

def token : Reader Token := return (← get).token

def isSymbol (s : String) : Reader Bool := return (← get).token == .symbol s

def isWord (w : String) : Reader Bool := return (← get).token == .word w

def atLineStart : Reader Bool := return (← get).atLineStart

/-- Whether a step would succeed here. -/
def follows (p : Reader α) : Reader Bool := fun c => some ((p c).isSome, c)

/-- The token after the next one, and whether a line ends between the two. -/
def second : Reader (Token × Bool) := do
  let c := Cursor.before [] (← get).rest
  return (c.token, c.atLineStart)

/-! ## Taking text -/

/-- Take the next `n` characters after the blanks as one leaf. -/
def takeChars (role : Role) (kind : Kind) (n : Nat) : Reader Unit := modify fun c =>
  Cursor.before (.leaf role kind (c.front.take n) :: c.doneWithBlanks) (c.front.drop n)

/-- Take the next token as a leaf. -/
def take (role : Role) (kind : Kind) : Reader Unit := modify fun c =>
  Cursor.before (.leaf role kind c.chars :: c.doneWithBlanks) c.rest

/-- Take the blanks ahead. -/
def takeBlanks : Reader Unit := modify fun c =>
  { c with done := c.doneWithBlanks, ahead := c.front, blanks := [] }

/-- Take text that is no token: what `split` cuts off the text straight after the last token. -/
def takeRaw (role : Role) (kind : Kind) (split : List Char → List Char × List Char) :
    Reader Unit := modify fun c =>
  let (text, rest) := split c.ahead
  if text.isEmpty then c else Cursor.before (.leaf role kind text :: c.done) rest

/-- Take a given punctuation mark. -/
def symbol (s : String) : Reader Unit := do
  guard (← isSymbol s)
  take .plain .symbol

/-- Take a given word as a bare keyword. -/
def keyword (w : String) : Reader Unit := do
  guard (← isWord w)
  take .plain .keyword

/-- Take a given punctuation mark if it comes next. -/
def symbol? (s : String) : Reader Bool := do
  if ← isSymbol s then take .plain .symbol; return true else return false

/-- Take a given word as a bare keyword if it comes next. -/
def keyword? (w : String) : Reader Bool := do
  if ← isWord w then take .plain .keyword; return true else return false

/-- Take a word of any kind as a leaf. -/
def anyWord (role : Role) (kind : Kind) : Reader Unit := do
  match ← token with
  | .word _ => take role kind
  | _ => failure

/-! ## Building nodes -/

/-- Read the parts of a node whose kind shows only in the course of reading. -/
def nodeBy (p : Reader Kind) : Reader Unit := do
  takeBlanks
  let outside := (← get).done
  modify fun c => { c with done := [] }
  let kind ← p
  modify fun c => { c with done := .node .plain kind c.done.reverse :: outside }

/-- Read the parts of a node. -/
def node (kind : Kind) (p : Reader Unit) : Reader Unit := nodeBy do p; return kind

/-- Read the parts of a node whose first part, in the given role, is the part read last. -/
def wrap (role : Role) (kind : Kind) (p : Reader Unit) : Reader Unit := do
  match (← get).done with
  | [] => failure
  | first :: outside =>
    modify fun c => { c with done := [first.withRole role] }
    p
    modify fun c => { c with done := .node .plain kind c.done.reverse :: outside }

/-- Read a part and give it a role. -/
def inRole (role : Role) (p : Reader Unit) : Reader Unit := do
  p
  modify fun c =>
    match c.done with
    | part :: outside => { c with done := part.withRole role :: outside }
    | [] => c

/-! ## Choice and repetition -/

/-- Take a step if it succeeds. -/
def attempt (p : Reader Unit) : Reader Bool := fun c =>
  match p c with
  | some (_, c) => some (true, c)
  | none => some (false, c)

/-- Repeat a step for as long as it answers `true`, at most once per character ahead. -/
def repeatWhile (p : Reader Bool) : Reader Unit := do
  loop ((← get).ahead.length + 1)
where
  loop : Nat → Reader Unit
    | 0 => failure
    | fuel + 1 => do if ← p then loop fuel else return

/-- Take the remarks ahead: lines that are commented out in the manner of a markup document. -/
def takeRemarks : Reader Unit :=
  repeatWhile do
    let c ← get
    match remark? c.front with
    | some (leaf, rest) => set (Cursor.before (leaf :: c.doneWithBlanks) rest); return true
    | none => return false

/-- Read items up to a closing mark, with `separator` between them and allowed at the end. -/
def listUntil (close separator : String) (item : Reader Unit) : Reader Unit := do
  repeatWhile do
    if ← isSymbol close then return false
    if ← symbol? separator then return true
    item
    if ← isSymbol close then return false
    symbol separator
    return true
  symbol close

/-- Read one or more items with `separator` between them. -/
def separated (separator : String) (item : Reader Unit) : Reader Unit := do
  item
  repeatWhile do
    if ← symbol? separator then item; return true else return false

/-- The end of a statement: a semicolon, or none where a line, a block or the source ends. -/
def statementEnd : Reader Unit := do
  if ← symbol? ";" then return
  guard ((← isSymbol "\x7d") || (← atLineStart) || (← token) == .stop)

end Reader

end StoreBindings.Syntax
