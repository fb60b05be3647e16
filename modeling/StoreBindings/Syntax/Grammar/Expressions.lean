import StoreBindings.Syntax.Grammar.Types

/-!
# Expressions

Readers for everything that has a value: literals, names and their properties, calls, functions,
operators, and markup elements in the dialect that has them. Operators are read by how tightly
they bind, from the loosest inward.

Three questions cannot be settled by the next token and are settled by trying: whether a
parenthesis opens the parameters of an arrow function, whether `<` opens type arguments, and
whether the colon after a parenthesis belongs to a choice or to an arrow function's result type.
-/

namespace StoreBindings.Syntax.Reader

section
variable (self : Grammar)

/-! ## Literals -/

/-- The length of the regular expression at the front of a text, its flags included. -/
def regexLength : (inClass escaped : Bool) → List Char → Option Nat
  | _, _, [] => none
  | inClass, true, _ :: cs => (regexLength inClass false cs).map (· + 1)
  | inClass, false, c :: cs =>
    if c == '\n' then none
    else if c == '/' && !inClass then some (1 + (cs.takeWhile isNamePart).length)
    else
      let inClass := if c == '[' then true else if c == ']' then false else inClass
      (regexLength inClass (c == '\\') cs).map (· + 1)

def regex : Reader Unit := do
  match (← get).front with
  | '/' :: cs =>
    match regexLength false false cs with
    | some n => takeChars .plain .other (n + 1)
    | none => failure
  | _ => failure

/-- One expression, or a spread of the elements of one. -/
def spreadable : Reader Unit := do
  if ← isSymbol "..." then
    node .other do
      symbol "..."
      oneExpression self
  else oneExpression self

def argumentsRule : Reader Unit :=
  node .arguments do
    symbol "("
    repeatWhile do
      takeRemarks
      if ← isSymbol ")" then return false
      if ← symbol? "," then return true
      spreadable self
      return true
    symbol ")"

def array : Reader Unit :=
  node .other do
    symbol "["
    listUntil "]" "," (spreadable self)

/-- Words before the name of a method of an object literal. -/
def objectModifiers : List String := ["async", "get", "set", "static"]

/-- A method or accessor of an object literal. -/
def objectMethod : Reader Unit :=
  node .method do
    repeatWhile do
      match ← token, ← second with
      | .word w, (following, _) =>
        let ends := [Token.symbol "(", .symbol "<", .symbol ":", .symbol ",", .symbol "\x7d",
          .symbol "=", .symbol "?"].contains following
        if objectModifiers.contains w && !ends then take .plain .keyword; return true
        else return false
      | _, _ => return false
    discard (symbol? "*")
    propertyName self .name
    discard (symbol? "?")
    guard ((← isSymbol "(") || (← atAngle))
    callSignature self
    inRole .body (self .block)

/-- A property of an object literal. -/
def objectProperty : Reader Unit := do
  if ← isSymbol "..." then
    node .other do
      symbol "..."
      oneExpression self
    return
  if ← attempt (objectMethod self) then return
  match ← token, (← second).1 with
  | .word _, .symbol "," | .word _, .symbol "\x7d" => take .plain .shorthandName
  | .word _, .symbol "=" =>
    node .other do
      take .plain .identifier
      symbol "="
      oneExpression self
  | _, _ =>
    node .pair do
      propertyName self .key
      symbol ":"
      inRole .value (oneExpression self)

def object : Reader Unit :=
  node .object do
    symbol "\x7b"
    repeatWhile do
      takeRemarks
      if ← isSymbol "\x7d" then return false
      if ← symbol? "," then return true
      objectProperty self
      return true
    symbol "\x7d"

/-! ## Functions and classes -/

/-- A function without a place among the declarations; it may have a name. -/
def functionExpression : Reader Unit :=
  node .functionExpression do
    discard (keyword? "async")
    keyword "function"
    discard (symbol? "*")
    if !((← isSymbol "(") || (← atAngle)) then anyWord .name .identifier
    callSignature self
    inRole .body (self .block)

/-- An arrow function; with `arrowTypes` its parameters may be followed by its result type. -/
def arrowFunction (allowIn arrowTypes : Bool) : Reader Unit :=
  node .arrowFunction do
    if (← isWord "async") && (← second).1 != .symbol "=>" then keyword "async"
    match ← token with
    | .word _ => nameOf .parameter .identifier
    | _ =>
      typeParameters? self
      inRole .parameters (self .parameters)
      if arrowTypes && (← isSymbol ":") then typeClause self
    guard (!(← atLineStart))
    symbol "=>"
    if ← isSymbol "\x7b" then inRole .body (self .block)
    else inRole .body (self (.assignment allowIn arrowTypes))

/-- Whether an arrow function could begin here. -/
def mayBeArrow : Reader Bool := do
  match ← token, ← second with
  | .word "async", (.word w, false) => return w != "function"
  | .word "async", (.symbol s, _) => return s == "(" || s == "<" || s == "=>"
  | .word _, (following, _) => return following == .symbol "=>"
  | .symbol s, _ => return s == "(" || s == "<"
  | _, _ => return false

/-- The name of a class that need not have one, and the part after it. -/
def namedTail : Reader Unit := do
  let isNameless := (← isSymbol "\x7b") || (← isWord "extends") || (← isWord "implements")
  if !isNameless && !(← atAngle) then anyWord .name .typeName
  self .classTail

def classExpression : Reader Unit :=
  node .other do
    decorators self
    keyword "class"
    namedTail self

/-! ## Operands -/

def parenthesized : Reader Unit :=
  node .parenthesized do
    symbol "("
    takeRemarks
    self (.expression true)
    symbol ")"

/-- Words that are values of their own. -/
def valueWords : List String := ["this", "super", "null", "undefined"]

/-- An operand without properties, calls or operators. -/
def primary : Reader Unit := do
  match ← token with
  | .number => take .plain .number
  | .string => take .plain .string
  | .privateName => take .plain .privateName
  | .symbol "(" => parenthesized self
  | .symbol "[" => array self
  | .symbol "\x7b" => object self
  | .symbol "\x60" => templateOf (self (.expression true))
  | .symbol "/" | .symbol "/=" => regex
  | .symbol "<" => self .markup
  | .symbol "@" => classExpression self
  | .word "function" => functionExpression self
  | .word "class" => classExpression self
  | .word "true" => take .plain .trueLiteral
  | .word "false" => take .plain .falseLiteral
  | .word "import" => take .plain .other
  | .word "async" =>
    if (← second) == (.word "function", false) then functionExpression self
    else take .plain .identifier
  | .word w => if valueWords.contains w then take .plain .other else nameOf .plain .identifier
  | _ => failure

/-- A property after a point, an element in brackets, or the assurance that a value is there. -/
def property? : Reader Bool := do
  match ← token with
  | .symbol "." =>
    wrap .object .member do
      symbol "."
      propertyName self .property
    return true
  | .symbol "[" =>
    wrap .object .other do
      symbol "["
      self (.expression true)
      symbol "]"
    return true
  | .symbol "!" =>
    if ← atLineStart then return false
    wrap .plain .other (symbol "!")
    return true
  | _ => return false

/-- Whether an expression with type arguments can end before this token. -/
def endsInstantiation : Reader Bool := do
  if ← atLineStart then return true
  match ← token with
  | .symbol s => return !(["(", "[", "\x7b", "<", "+", "-", "!", "~", "/", "++", "--", "\x60", "@"].contains s)
  | .word w => return ["in", "instanceof", "as", "satisfies"].contains w
  | .stop => return true
  | _ => return false

/-- The arguments of a call, in parentheses or as a template. -/
def callArguments : Reader Unit := do
  if ← isSymbol "\x60" then inRole .arguments (templateOf (self (.expression true)))
  else inRole .arguments (self .arguments)

/-- A call of what stands before, or a property of it. -/
def callOrProperty? : Reader Bool := do
  if ← property? self then return true
  match ← token with
  | .symbol "(" | .symbol "\x60" =>
    wrap .function .call (callArguments self)
    return true
  | .symbol "?." =>
    match (← second).1 with
    | .symbol "(" | .symbol "\x60" =>
      wrap .function .call do
        symbol "?."
        callArguments self
    | .symbol "<" | .symbol "<<" =>
      wrap .function .call do
        symbol "?."
        typeArguments self
        callArguments self
    | .symbol "[" =>
      wrap .object .other do
        symbol "?."
        symbol "["
        self (.expression true)
        symbol "]"
    | _ =>
      wrap .object .member do
        symbol "?."
        propertyName self .property
    return true
  | .symbol "<" | .symbol "<<" =>
    if ← attempt (wrap .function .call do typeArguments self; callArguments self) then return true
    attempt <| wrap .plain .other do
      typeArguments self
      guard (← endsInstantiation)
  | _ => return false

/-- What `new` constructs: a name or operand with its properties, but no call of it. -/
def constructedRule : Reader Unit := do
  if ← isWord "new" then construction else primary self
  repeatWhile (property? self)
where
  construction : Reader Unit :=
    nodeBy do
      keyword "new"
      if ← symbol? "." then
        anyWord .plain .propertyName
        return .other
      inRole .constructed (self .constructed)
      if ← atAngle then discard (attempt (typeArguments self))
      if ← isSymbol "(" then inRole .arguments (self .arguments)
      return .construction

def leftHandRule : Reader Unit := do
  takeRemarks
  if ← isWord "new" then constructedRule.construction self else primary self
  repeatWhile (callOrProperty? self)

/-! ## Operators -/

/-- Operators that stand before their operand. -/
def unaryMarks : List String := ["!", "~", "+", "-", "++", "--"]

def unaryWords : List String := ["typeof", "void", "delete"]

/-- Whether the token after `await` begins an operand. -/
def beginsOperand : Token → Bool
  | .word w => !(["in", "instanceof", "of", "as", "satisfies"].contains w)
  | .symbol s => ["(", "[", "\x7b", "\x60", "+", "-", "!", "~", "/", "<", "++", "--", "@"].contains s
  | .string | .number | .privateName => true
  | _ => false

def unaryRule (dialect : Dialect) : Reader Unit := do
  takeRemarks
  let isOperator ← (do
    match ← token with
    | .symbol s => return unaryMarks.contains s
    | .word "await" => return beginsOperand (← second).1
    | .word w => return unaryWords.contains w
    | _ => return false)
  if isOperator then
    node .other do
      take .plain .keyword
      self .unary
  else if dialect == .plain && (← isSymbol "<") then
    node .other do
      typeArguments self
      self .unary
  else
    self .leftHand
    if ((← isSymbol "++") || (← isSymbol "--")) && !(← atLineStart) then
      wrap .plain .other (take .plain .symbol)

/-- An operator between two operands: its characters, how tightly it binds, and whether it is a
word, a cast to a type, or read from the right. -/
structure Operator where
  chars : Nat
  level : Nat
  kind : Kind
  isCast : Bool
  fromRight : Bool

/-- How tightly a punctuation mark between two operands binds. -/
def markLevel : String → Option Nat
  | "??" | "||" => some 1
  | "&&" => some 2
  | "|" => some 3
  | "^" => some 4
  | "&" => some 5
  | "==" | "!=" | "===" | "!==" => some 6
  | "<" | "<=" => some 7
  | "<<" => some 8
  | "+" | "-" => some 9
  | "*" | "/" | "%" => some 10
  | "**" => some 11
  | _ => none

/-- The operator between two operands that comes next, if there is one. -/
def operator? (allowIn : Bool) : Reader (Option Operator) := do
  let c ← get
  match c.token with
  | .symbol ">" =>
    match c.front with
    | '>' :: '>' :: '>' :: '=' :: _ | '>' :: '>' :: '=' :: _ => return none
    | '>' :: '>' :: '>' :: _ => return some ⟨3, 8, .symbol, false, false⟩
    | '>' :: '>' :: _ => return some ⟨2, 8, .symbol, false, false⟩
    | '>' :: '=' :: _ => return some ⟨2, 7, .symbol, false, false⟩
    | _ => return some ⟨1, 7, .symbol, false, false⟩
  | .symbol s => return (markLevel s).map fun l => ⟨s.length, l, .symbol, false, s == "**"⟩
  | .word "in" => return if allowIn then some ⟨2, 7, .keyword, false, false⟩ else none
  | .word "instanceof" => return some ⟨10, 7, .keyword, false, false⟩
  | .word "as" => return if c.atLineStart then none else some ⟨2, 7, .keyword, true, false⟩
  | .word "satisfies" => return if c.atLineStart then none else some ⟨9, 7, .keyword, true, false⟩
  | _ => return none

def binaryRule (allowIn : Bool) (level : Nat) : Reader Unit := do
  self .unary
  repeatWhile do
    match ← operator? allowIn with
    | none => return false
    | some op =>
      if op.level < level then return false
      if op.isCast then
        wrap .plain .cast do
          takeChars .plain op.kind op.chars
          self (.type true)
      else
        wrap .plain .other do
          takeChars .plain op.kind op.chars
          self (.binary allowIn (if op.fromRight then op.level else op.level + 1))
      return true

/-- Marks that assign, `>>=` and `>>>=` apart. -/
def assigningMarks : List String :=
  ["=", "+=", "-=", "*=", "/=", "%=", "**=", "<<=", "&=", "|=", "^=", "&&=", "||=", "??="]

/-- The number of characters of the assigning mark that comes next, if one does. -/
def assigning? : Reader (Option Nat) := do
  let c ← get
  match c.token, c.front with
  | .symbol ">", '>' :: '>' :: '>' :: '=' :: _ => return some 4
  | .symbol ">", '>' :: '>' :: '=' :: _ => return some 3
  | .symbol s, _ => return if assigningMarks.contains s then some s.length else none
  | _, _ => return none

/-- The rest of a choice between two values, after its condition. -/
def choice (allowIn arrowTypes : Bool) : Reader Unit :=
  wrap .plain .other do
    symbol "?"
    if !(← attempt (do self (.assignment true true); symbol ":")) then
      self (.assignment true false)
      symbol ":"
    self (.assignment allowIn arrowTypes)

def assignmentRule (allowIn arrowTypes : Bool) : Reader Unit := do
  if ← isWord "yield" then
    node .other do
      keyword "yield"
      discard (symbol? "*")
      if !(← atLineStart) && beginsOperand (← token) then
        self (.assignment allowIn arrowTypes)
    return
  if ← mayBeArrow then
    if ← attempt (arrowFunction self allowIn arrowTypes) then return
  self (.binary allowIn 0)
  if ← isSymbol "?" then choice self allowIn arrowTypes
  match ← assigning? with
  | some n =>
    wrap .plain .other do
      takeChars .plain .symbol n
      self (.assignment allowIn arrowTypes)
  | none => pure ()

def expressionRule (allowIn : Bool) : Reader Unit := do
  self (.assignment allowIn true)
  if ← isSymbol "," then
    wrap .plain .other do
      symbol ","
      separated "," (self (.assignment allowIn true))

/-! ## Markup -/

/-- The name of an element or attribute, with its dashes, colons and points. -/
def markupName : Reader Unit :=
  node .other do
    anyWord .plain .identifier
    repeatWhile do
      match ← token with
      | .symbol s =>
        if ["-", ":", ".", "--"].contains s then
          take .plain .symbol
          discard (attempt (anyWord .plain .identifier))
          return true
        else return false
      | _ => return false

/-- An expression in braces, which may be absent or spread. -/
def markupInsertion : Reader Unit :=
  node .other do
    symbol "\x7b"
    if !(← isSymbol "\x7d") then
      discard (symbol? "...")
      self (.expression true)
    symbol "\x7d"

/-- A quoted value of an attribute, in which a backslash is a character like any other. -/
def markupString : Reader Unit := do
  match (← get).front with
  | quote :: cs =>
    guard (quote == '"' || quote == '\'')
    takeChars .plain .string ((cs.takeWhile (· != quote)).length + 2)
  | [] => failure

def markupAttribute : Reader Unit := do
  if ← isSymbol "\x7b" then markupInsertion self
  else
    node .other do
      markupName
      if ← symbol? "=" then
        match ← token with
        | .symbol "\x7b" => markupInsertion self
        | .symbol "<" => self .markup
        | _ => markupString

/-- An element with what it holds; an element without a name groups others. -/
def markupRule : Reader Unit :=
  node .other do
    symbol "<"
    if !(← isSymbol ">") then
      markupName
      if ← atAngle then typeArguments self
      repeatWhile do
        if (← isSymbol ">") || (← isSymbol "/") then return false
        markupAttribute self
        return true
    if ← symbol? "/" then
      symbol ">"
      return
    symbol ">"
    repeatWhile do
      takeRaw .plain .other fun cs => cs.span fun c => !(['<', '\x7b'].contains c)
      match ← token, (← second).1 with
      | .symbol "<", .symbol "/" => return false
      | .symbol "<", _ => self .markup; return true
      | .symbol "\x7b", _ => markupInsertion self; return true
      | _, _ => failure
    symbol "<"
    symbol "/"
    if !(← isSymbol ">") then markupName
    symbol ">"

end

end StoreBindings.Syntax.Reader
