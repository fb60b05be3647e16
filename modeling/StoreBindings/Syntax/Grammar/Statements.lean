import StoreBindings.Syntax.Grammar.Expressions

/-!
# Classes and statements

Readers for class bodies, declarations and statements.

In a class body the decorators of a method or accessor are parts of the body, before the method;
the decorators of a field are parts of the field. A word such as `get` or `static` is a modifier
only if the rest of the member goes on in the same line; otherwise it is the name of a field.
-/

namespace StoreBindings.Syntax.Reader

section
variable (self : Grammar)

/-! ## Classes -/

/-- Words that can stand before the name of a class member. -/
def memberModifiers : List String :=
  ["public", "private", "protected", "static", "abstract", "override", "readonly", "declare",
    "accessor", "async", "get", "set"]

def accessWords : List String := ["public", "private", "protected"]

/-- Whether a word before this token can be a modifier of the member. -/
def continuesMember : Token → Bool
  | .word _ | .string | .number | .privateName => true
  | .symbol s => s == "[" || s == "*"
  | _ => false

/-- The modifiers of a class member; answers whether `abstract` is one of them. -/
def modifiers : Reader Bool := do
  let before := (← get).done.length
  repeatWhile do
    match ← token, ← second with
    | .word w, (following, false) =>
      if memberModifiers.contains w && continuesMember following then
        take (if accessWords.contains w then .accessibility else .plain) .keyword
        return true
      else return false
    | _, _ => return false
  let done := (← get).done
  return (done.take (done.length - before)).any fun t =>
    t.kind == .keyword && t.chars == "abstract".toList

/-- A method or accessor, or the announcement of one that has no body. -/
def method : Reader Unit :=
  nodeBy do
    let isAbstract ← modifiers
    discard (symbol? "*")
    propertyName self .name
    discard (symbol? "?")
    guard ((← isSymbol "(") || (← atAngle))
    callSignature self
    if ← isSymbol "\x7b" then
      inRole .body (self .block)
      return if isAbstract then .other else .method
    return .other

/-- The end of a field: a semicolon, a comma, a line or the class body ends. -/
def endsField : Reader Bool := do
  return (← isSymbol ";") || (← isSymbol ",") || (← isSymbol "\x7d") || (← atLineStart) ||
    (← token) == .stop

def field : Reader Unit := do
  node .field do
    decorators self
    discard modifiers
    propertyName self .name
    if !(← symbol? "?") then discard (symbol? "!")
    typeClause? self
    initializer? self
  guard (← endsField)

/-- The types of the members whose names are not known, such as `[key: string]: number`. A sign
says whether what follows it, `readonly` or the mark of an optional member, is added or taken
away. -/
def indexSignature : Reader Unit :=
  node .other do
    if ← aSign then keyword "readonly" else discard modifiers
    keyClause self
    if ← aSign then symbol "?" else discard (symbol? "?")
    typeClause self
where
  aSign : Reader Bool := do
    if ← symbol? "-" then return true else symbol? "+"

/-- One part of a class body. -/
def classPart : Reader Unit := do
  if (← symbol? ";") || (← symbol? ",") then return
  if ← isSymbol "@" then
    if !(← attempt (field self)) then self .decorator
    return
  match ← token, ← second with
  | .word "static", (.symbol "\x7b", _) =>
    node .other do
      keyword "static"
      inRole .body (self .block)
  | _, _ =>
    if ← attempt (method self) then return
    if ← attempt (field self) then return
    indexSignature self

def classBody : Reader Unit :=
  node .classBody do
    symbol "\x7b"
    repeatWhile do
      takeRemarks
      if ← isSymbol "\x7d" then return false
      classPart self
      return true
    symbol "\x7d"

/-- What a class extends and implements. -/
def heritage : Reader Unit :=
  node .heritage do
    if ← isWord "extends" then
      node .extendsClause do
        keyword "extends"
        separated "," do
          inRole .value (self .leftHand)
          if ← atAngle then typeArguments self
    if ← isWord "implements" then
      node .other do
        keyword "implements"
        separated "," (self (.type true))

/-- The part of a class after its name. -/
def classTailRule : Reader Unit := do
  typeParameters? self
  if (← isWord "extends") || (← isWord "implements") then heritage self
  inRole .body (classBody self)

/-- A declared class; an abstract one is of another kind. -/
def classDeclaration : Reader Unit :=
  nodeBy do
    decorators self
    let isAbstract ← keyword? "abstract"
    keyword "class"
    guard (!(← isWord "implements"))
    nameOf .name .typeName
    self .classTail
    return if isAbstract then .other else .classDeclaration

/-- `@name`, `@name(...)`, or `@` and an expression in parentheses. -/
def decoratorRule : Reader Unit :=
  node .decorator do
    symbol "@"
    if ← isSymbol "(" then parenthesized self
    else
      anyWord .plain .identifier
      repeatWhile do
        if ← isSymbol "." then
          wrap .object .member do
            symbol "."
            propertyName self .property
          return true
        else return false
      if (← isSymbol "(") || (← atAngle) then
        wrap .function .call do
          if ← atAngle then typeArguments self
          inRole .arguments (self .arguments)

/-! ## Declarations -/

/-- A declared function, or the announcement of one that has no body. -/
def functionDeclaration : Reader Unit :=
  nodeBy do
    discard (keyword? "async")
    keyword "function"
    discard (symbol? "*")
    anyWord .name .identifier
    callSignature self
    if ← isSymbol "\x7b" then
      inRole .body (self .block)
      return .functionDeclaration
    statementEnd
    return .functionSignature

def declarator (allowIn : Bool) : Reader Unit :=
  node .declarator do
    if ← isSymbol "\x7b" then inRole .name (self .binding)
    else if ← isSymbol "[" then inRole .name (self .binding)
    else nameOf .name .identifier
    discard (symbol? "!")
    typeClause? self
    if ← symbol? "=" then inRole .value (self (.assignment allowIn true))

/-- The kind of the declaration that a word introduces. -/
def variableKind? : String → Option Kind
  | "var" => some .variableDeclaration
  | "let" | "const" => some .lexicalDeclaration
  | _ => none

/-- Names with their values; in the head of a loop nothing ends them. -/
def variableList (inLoop : Bool) : Reader Unit := do
  match ← token with
  | .word w =>
    match variableKind? w with
    | some kind =>
      node kind do
        keyword w
        separated "," (declarator self (!inLoop))
        if !inLoop then statementEnd
    | none => failure
  | _ => failure

/-- Names whose values are given back where their block ends. -/
def usingDeclaration (inLoop : Bool) : Reader Unit :=
  node .other do
    discard (keyword? "await")
    keyword "using"
    guard (!(← atLineStart) && !(inLoop && (← isWord "of")))
    separated "," (declarator self (!inLoop))
    if !inLoop then statementEnd

/-- Whether names are declared here. -/
def atVariables : Reader Bool := do
  match ← token, (← second).1 with
  | .word "var", _ => return true
  | .word "const", following => return following != .word "enum"
  | .word "let", following =>
    match following with
    | .word w => return !(["in", "instanceof"].contains w)
    | .symbol s => return s == "[" || s == "\x7b"
    | _ => return false
  | _, _ => return false

def enumeration : Reader Unit :=
  node .other do
    discard (keyword? "const")
    keyword "enum"
    anyWord .name .identifier
    symbol "\x7b"
    listUntil "\x7d" "," do
      node .other do
        propertyName self .name
        initializer? self

def interfaceDeclaration : Reader Unit :=
  node .other do
    keyword "interface"
    anyWord .name .typeName
    typeParameters? self
    if ← isWord "extends" then
      node .other do
        keyword "extends"
        separated "," (self (.type true))
    objectType self

def typeAlias : Reader Unit :=
  node .other do
    keyword "type"
    anyWord .name .typeName
    typeParameters? self
    symbol "="
    self (.type true)
    statementEnd

/-- A namespace or module with its statements, which may be absent. -/
def moduleDeclaration : Reader Unit :=
  node .other do
    if !(← keyword? "namespace") then keyword "module"
    match ← token with
    | .string => take .name .string
    | _ => separated "." (anyWord .name .identifier)
    if ← isSymbol "\x7b" then inRole .body (self .block) else statementEnd

/-- A declaration that a word may introduce without being reserved, if one stands here. -/
def contextualDeclaration? : Reader Bool := do
  match ← token, ← second with
  | .word "async", (.word "function", false) => functionDeclaration self; return true
  | .word "abstract", (.word "class", false) => classDeclaration self; return true
  | .word "interface", (.word _, _) => attempt (interfaceDeclaration self)
  | .word "type", (.word _, false) => attempt (typeAlias self)
  | .word "namespace", (.word _, false) => attempt (moduleDeclaration self)
  | .word "module", (.word _, false) => attempt (moduleDeclaration self)
  | .word "module", (.string, false) => attempt (moduleDeclaration self)
  | .word "enum", (.word _, _) => enumeration self; return true
  | .word "const", (.word "enum", _) => enumeration self; return true
  | .word "using", (.word _, false) => attempt (usingDeclaration self false)
  | .word "await", (.word "using", false) => attempt (usingDeclaration self false)
  | _, _ => return false

/-- Whether `declare` stands before a declaration here. -/
def atAmbient : Reader Bool := do
  match ← token, ← second with
  | .word "declare", (.word w, false) => return !(["in", "instanceof", "as"].contains w)
  | _, _ => return false

def ambientDeclaration : Reader Unit :=
  node .ambientDeclaration do
    keyword "declare"
    if ← isWord "global" then
      keyword "global"
      self .block
    else self .statement

/-- The tail of an import or export that says how the other module is to be read. -/
def moduleAttributes : Reader Unit := do
  if (← isWord "with") || ((← isWord "assert") && !(← atLineStart)) then
    node .other do
      take .plain .keyword
      object self

/-- Names in braces, each with another name if `as` is written. -/
def moduleNames : Reader Unit :=
  node .other do
    symbol "\x7b"
    listUntil "\x7d" "," do
      node .other do
        repeatWhile do
          match ← token with
          | .word _ => take .plain .identifier; return true
          | .string => take .plain .string; return true
          | _ => return false

def aString : Reader Unit := do
  guard ((← token) == .string)
  take .plain .string

def importStatement : Reader Unit :=
  node .other do
    keyword "import"
    match ← token with
    | .string => aString
    | _ =>
      match ← token, (← second).1 with
      | .word "type", .symbol "\x7b" | .word "type", .symbol "*" => keyword "type"
      | .word "type", .word w =>
        if w != "from" || (← follows (do keyword "type"; keyword "from"; keyword "from")) then
          keyword "type"
      | _, _ => pure ()
      match ← token with
      | .word _ => take .plain .identifier; discard (symbol? ",")
      | _ => pure ()
      if ← symbol? "=" then
        oneExpression self
        statementEnd
        return
      if ← isSymbol "\x7b" then moduleNames
      else if ← symbol? "*" then
        keyword "as"
        anyWord .plain .identifier
      keyword "from"
      aString
    moduleAttributes self
    statementEnd

/-- An abstract class that need not have a name. -/
def abstractClass : Reader Unit :=
  node .other do
    decorators self
    keyword "abstract"
    keyword "class"
    namedTail self

/-- What `export default` can declare: a class or function with a name, an abstract class, or an
interface. -/
def defaultDeclaration : Reader Unit := do
  match ← token, (← second).1 with
  | .word "interface", .word _ => interfaceDeclaration self
  | .word "function", _ | .word "async", .word "function" => functionDeclaration self
  | _, _ => if !(← attempt (classDeclaration self)) then abstractClass self

def exportStatement : Reader Unit :=
  node .exportStatement do
    decorators self
    keyword "export"
    match ← token, ← second with
    | .symbol "*", _ =>
      symbol "*"
      if ← keyword? "as" then
        if !(← attempt aString) then anyWord .plain .identifier
      fromModule
    | .symbol "\x7b", _ => names
    | .word "type", (.symbol "\x7b", _) => keyword "type"; names
    | .word "type", (.symbol "*", _) =>
      keyword "type"
      symbol "*"
      if ← keyword? "as" then anyWord .plain .identifier
      fromModule
    | .symbol "=", _ =>
      symbol "="
      self (.expression true)
      statementEnd
    | .word "as", (.word "namespace", _) =>
      keyword "as"
      keyword "namespace"
      anyWord .plain .identifier
      statementEnd
    | .word "default", _ =>
      keyword "default"
      if ← attempt (inRole .declaration (defaultDeclaration self)) then return
      inRole .value (oneExpression self)
      statementEnd
    | .word "import", _ => importStatement self
    | _, _ => inRole .declaration (self .statement)
where
  fromModule : Reader Unit := do
    keyword "from"
    aString
    moduleAttributes self
    statementEnd
  names : Reader Unit := do
    moduleNames
    if ← isWord "from" then fromModule else statementEnd

/-! ## Statements -/

/-- An expression in parentheses, as after `if`. -/
def condition : Reader Unit := do
  symbol "("
  self (.expression true)
  symbol ")"

def ifStatement : Reader Unit :=
  node .other do
    keyword "if"
    condition self
    self .statement
    if ← keyword? "else" then self .statement

/-- What the head of a loop begins with. -/
def loopStart : Reader Unit := do
  if ← atVariables then variableList self true
  else if !(← attempt (usingDeclaration self true)) then self (.expression false)

/-- The head and body of a loop that counts or goes through the elements of something. -/
def forStatement : Reader Unit :=
  node .other do
    keyword "for"
    discard (keyword? "await")
    symbol "("
    if !(← isSymbol ";") then loopStart self
    if (← keyword? "of") || (← keyword? "in") then self (.expression true)
    else
      symbol ";"
      if !(← isSymbol ";") then self (.expression true)
      symbol ";"
      if !(← isSymbol ")") then self (.expression true)
    symbol ")"
    self .statement

def doStatement : Reader Unit :=
  node .other do
    keyword "do"
    self .statement
    keyword "while"
    condition self
    discard (symbol? ";")

def switchStatement : Reader Unit :=
  node .other do
    keyword "switch"
    condition self
    symbol "\x7b"
    repeatWhile do
      if ← isSymbol "\x7d" then return false
      if ← keyword? "case" then
        self (.expression true)
        symbol ":"
      else if (← isWord "default") && (← second).1 == .symbol ":" then
        keyword "default"
        symbol ":"
      else self .statement
      return true
    symbol "\x7d"

def tryStatement : Reader Unit :=
  node .other do
    keyword "try"
    self .block
    if ← keyword? "catch" then
      if ← symbol? "(" then
        self .binding
        typeClause? self
        symbol ")"
      self .block
    if ← keyword? "finally" then self .block

/-- Whether a statement goes on with an expression or label in this line. -/
def goesOn : Reader Bool := do
  return !(← isSymbol ";") && !(← isSymbol "\x7d") && !(← atLineStart) && (← token) != .stop

/-- A word with an expression after it, which may be absent. -/
def wordStatement (kind : Kind) (word : String) : Reader Unit :=
  node kind do
    keyword word
    if ← goesOn then self (.expression true)
    statementEnd

def expressionStatement : Reader Unit :=
  node .other do
    self (.expression true)
    statementEnd

/-- A class or export after decorators. -/
def decoratedStatement : Reader Unit := do
  if !(← attempt (classDeclaration self)) then exportStatement self

def statementRule : Reader Unit := do
  match ← token, ← second with
  | .symbol "\x7b", _ => self .block
  | .symbol ";", _ => node .other (symbol ";")
  | .symbol "@", _ => decoratedStatement self
  | .word w, (following, _) =>
    if following == .symbol ":" && !(["default", "case"].contains w) then
      node .other do
        take .plain .identifier
        symbol ":"
        self .statement
      return
    if ← atVariables then variableList self false; return
    if ← atAmbient then
      if ← attempt (ambientDeclaration self) then return
    if ← contextualDeclaration? self then return
    match w with
    | "function" => functionDeclaration self
    | "class" => classDeclaration self
    | "if" => ifStatement self
    | "for" => forStatement self
    | "while" | "with" =>
      node .other do
        keyword w
        condition self
        self .statement
    | "do" => doStatement self
    | "switch" => switchStatement self
    | "try" => tryStatement self
    | "return" => wordStatement self .returnStatement w
    | "throw" | "break" | "continue" => wordStatement self .other w
    | "debugger" => node .other do keyword w; statementEnd
    | "export" => exportStatement self
    | "import" =>
      if following == .symbol "(" || following == .symbol "." then expressionStatement self
      else importStatement self
    | _ => expressionStatement self
  | _, _ => expressionStatement self

/-- Statements up to a closing brace or the end of the source. -/
def statements : Reader Unit :=
  repeatWhile do
    takeRemarks
    if (← isSymbol "\x7d") || (← token) == .stop then return false
    self .statement
    return true

def blockRule : Reader Unit :=
  node .block do
    symbol "\x7b"
    statements self
    symbol "\x7d"

end

end StoreBindings.Syntax.Reader
