import StoreBindings.Syntax.Cursor

/-!
# The shape of the grammar

The rules of the language call each other in circles. A rule is therefore written against a
`Grammar`, which says how to read every rule one level further down, and the circle is closed once,
in `Syntax/Source`, by recursion on the depth.

This module has the rules' names and the readers that types, expressions and statements share.
-/

namespace StoreBindings.Syntax

/-- The rules that are read at a lower level. -/
inductive Rule
  /-- A type; inside the condition of a conditional type no further condition is read. -/
  | type (conditional : Bool)
  /-- A type without `|`, `&` and conditions. -/
  | typeOperand (conditional : Bool)
  | parameters
  /-- A name or a destructuring pattern that introduces names. -/
  | binding
  /-- Expressions joined by commas; `allowIn` says whether `in` is an operator there. -/
  | expression (allowIn : Bool)
  /-- One expression, and whether an arrow function in it may announce its result type. -/
  | assignment (allowIn arrowTypes : Bool)
  /-- Operands joined by operators that bind at least as tightly as `level`. -/
  | binary (allowIn : Bool) (level : Nat)
  | unary
  /-- What can be called, constructed or assigned to. -/
  | leftHand
  /-- What `new` constructs. -/
  | constructed
  | arguments
  | classTail
  | decorator
  | block
  | statement
  | markup
deriving DecidableEq

/-- A way to read every rule. -/
abbrev Grammar := Rule → Reader Unit

/-- The dialects: with or without markup elements among the expressions. -/
inductive Dialect
  | plain | markup
deriving DecidableEq, Repr

namespace Reader

/-- Words that never name a value. -/
def reserved : List String :=
  ["break", "case", "catch", "class", "const", "continue", "debugger", "default", "delete", "do",
    "else", "enum", "export", "extends", "false", "finally", "for", "function", "if", "import",
    "in", "instanceof", "new", "null", "return", "super", "switch", "this", "throw", "true", "try",
    "typeof", "var", "void", "while", "with"]

/-- Take a word that is not reserved as a name. -/
def nameOf (role : Role) (kind : Kind) : Reader Unit := do
  match ← token with
  | .word w => guard (!reserved.contains w); take role kind
  | _ => failure

/-- Take a single `<`, also as the first half of `<<`. -/
def openAngle : Reader Unit := do
  guard ((← isSymbol "<") || (← isSymbol "<<"))
  takeChars .plain .symbol 1

/-- Whether a type argument or type parameter list could start here. -/
def atAngle : Reader Bool := return (← isSymbol "<") || (← isSymbol "<<")

section
variable (self : Grammar)

def oneExpression : Reader Unit := self (.assignment true true)

/-- A type after a colon. -/
def typeClause : Reader Unit :=
  node .typeClause do
    symbol ":"
    self (.type true)

def typeClause? : Reader Unit := do
  if ← isSymbol ":" then inRole .type (typeClause self)

def initializer? : Reader Unit := do
  if ← symbol? "=" then inRole .value (oneExpression self)

/-- The types between angle brackets that are handed to a generic name. -/
def typeArguments : Reader Unit :=
  node .other do
    openAngle
    listUntil ">" "," (self (.type true))

/-- The type variables between angle brackets that a declaration introduces. -/
def typeParameters : Reader Unit :=
  node .other do
    openAngle
    listUntil ">" "," do
      node .other do
        repeatWhile do
          let (following, _) ← second
          match ← token, following with
          | .word w, .word _ =>
            if ["const", "in", "out"].contains w && following != .word "extends" then
              take .plain .keyword
              return true
            else return false
          | _, _ => return false
        anyWord .name .typeName
        if ← keyword? "extends" then self (.type true)
        if ← symbol? "=" then self (.type true)

def typeParameters? : Reader Unit := do
  if ← atAngle then typeParameters self

/-- Type variables, parameters and the type of the result. -/
def callSignature : Reader Unit := do
  typeParameters? self
  inRole .parameters (self .parameters)
  if ← isSymbol ":" then typeClause self

/-- The name of a member or property; an expression in brackets is a name that is computed. -/
def propertyName (role : Role) : Reader Unit := do
  match ← token with
  | .word _ => take role .propertyName
  | .privateName => take role .privateName
  | .string => take role .string
  | .number => take role .number
  | .symbol "[" =>
    inRole role <| node .other do
      symbol "["
      oneExpression self
      symbol "]"
  | _ => failure

/-- Decorators, each a part of its own. -/
def decorators : Reader Unit :=
  repeatWhile do
    if ← isSymbol "@" then self .decorator; return true else return false

/-- The parts of a text with insertions, between backquotes; `inside` reads an insertion. -/
def templateOf (inside : Reader Unit) : Reader Unit :=
  node .template do
    symbol "\x60"
    repeatWhile do
      takeRaw .plain .other (templateText false)
      let c ← get
      match c.ahead with
      | '$' :: '\x7b' :: _ =>
        node .other do
          takeChars .plain .symbol 2
          inside
          symbol "\x7d"
        return true
      | _ => return false
    symbol "\x60"
where
  /-- The text up to the end of a template or to an insertion. -/
  templateText : Bool → List Char → List Char × List Char
    | _, [] => ([], [])
    | true, c :: cs => let (text, rest) := templateText false cs; (c :: text, rest)
    | false, '$' :: '\x7b' :: cs => ([], '$' :: '\x7b' :: cs)
    | false, c :: cs =>
      if c == '\x60' then ([], c :: cs)
      else let (text, rest) := templateText (c == '\\') cs; (c :: text, rest)

/-! ## Parameters and patterns -/

/-- A name, or the parts of an object or array that names are given to. -/
def bindingRule : Reader Unit := do
  match ← token with
  | .word w =>
    if w == "this" then take .plain .other else nameOf .plain .identifier
  | .symbol "\x7b" =>
    node .other do
      symbol "\x7b"
      listUntil "\x7d" "," do
        node .other do
          if ← symbol? "..." then self .binding
          else
            propertyName self .key
            if ← symbol? ":" then self .binding
            initializer? self
  | .symbol "[" =>
    node .other do
      symbol "["
      listUntil "]" "," do
        node .other do
          discard (symbol? "...")
          self .binding
          initializer? self
  | _ => failure

/-- Words that can stand before the name of a parameter. -/
def parameterModifiers : List String := ["public", "private", "protected", "override", "readonly"]

/-- One parameter. The name `undefined` names nothing. -/
def parameter : Reader Unit :=
  nodeBy do
    decorators self
    repeatWhile do
      let (following, _) ← second
      match ← token, following with
      | .word w, .word _ | .word w, .symbol "\x7b" | .word w, .symbol "[" =>
        if parameterModifiers.contains w then take .plain .keyword; return true else return false
      | _, _ => return false
    if ← isSymbol "..." then
      inRole .pattern <| node .other do
        symbol "..."
        self .binding
    else if ← isWord "undefined" then take .pattern .other
    else inRole .pattern (self .binding)
    let optional ← symbol? "?"
    typeClause? self
    initializer? self
    return if optional then .optionalParameter else .requiredParameter

def parametersRule : Reader Unit :=
  node .parameters do
    symbol "("
    listUntil ")" "," (parameter self)

end

end Reader

end StoreBindings.Syntax
