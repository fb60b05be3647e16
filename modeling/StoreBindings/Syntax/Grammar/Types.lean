import StoreBindings.Syntax.Grammar

/-!
# Types

Readers for type expressions. What a type means is of no interest here; what matters is where it
ends, whether it is the type of a function, and that the expressions after `typeof` inside it are
read as expressions.
-/

namespace StoreBindings.Syntax.Reader

section
variable (self : Grammar)

/-- Words that turn the type after them into another one. -/
def typePrefixes : List String := ["keyof", "unique", "readonly", "infer"]

/-- Whether a token can begin a type. -/
def beginsType : Token → Bool
  | .word w => !(["extends", "is", "in", "as", "of"].contains w)
  | .string | .number => true
  | .symbol s => ["(", "[", "\x7b", "<", "-", "\x60"].contains s
  | _ => false

/-- What stands after `typeof`: a name, its properties and calls. -/
def typeQuery : Reader Unit :=
  node .other do
    keyword "typeof"
    if ← isWord "import" then take .plain .other
    else if ← isWord "this" then take .plain .other
    else anyWord .plain .identifier
    repeatWhile do
      if ← atLineStart then return false
      match ← token with
      | .symbol "." | .symbol "?." =>
        wrap .object .member do
          take .plain .symbol
          propertyName self .property
        return true
      | .symbol "(" =>
        wrap .function .call do
          inRole .arguments (self .arguments)
        return true
      | .symbol "[" =>
        match (← second).1 with
        | .string | .number =>
          wrap .plain .other do
            symbol "["
            take .plain .other
            symbol "]"
          return true
        | _ => return false
      | .symbol "<" =>
        wrap .plain .other (typeArguments self)
        return true
      | _ => return false

/-- What stands for the name of a member whose name is not known: `[key: string]` or
`[K in T as U]`. -/
def keyClause : Reader Unit := do
  symbol "["
  anyWord .plain .typeName
  if ← isSymbol ":" then typeClause self
  else
    keyword "in"
    self (.type true)
    if ← keyword? "as" then self (.type true)
  symbol "]"

/-- A member of an object type or interface, or the clause of a mapped type. -/
def typeMember : Reader Unit :=
  node .other do
    repeatWhile do
      let (following, _) ← second
      match ← token, following with
      | .symbol "+", _ | .symbol "-", _ => take .plain .symbol; return true
      | .word w, .word _ | .word w, .string | .word w, .number | .word w, .symbol "[" =>
        if ["readonly", "get", "set", "static", "new"].contains w then
          take .plain .keyword
          return true
        else return false
      | _, _ => return false
    if ← isSymbol "[" then
      match (← second).1 with
      | .word _ =>
        if ← attempt (keyClause self) then pure ()
        else propertyName self .name
      | _ => propertyName self .name
    else if ← isSymbol "(" then pure ()
    else if ← atAngle then pure ()
    else propertyName self .name
    if (← isSymbol "+") || (← isSymbol "-") then take .plain .symbol
    discard (symbol? "?")
    if (← isSymbol "(") || (← atAngle) then callSignature self
    else if ← isSymbol ":" then typeClause self

/-- The members of an object type or interface. -/
def objectType : Reader Unit :=
  node .other do
    symbol "\x7b"
    repeatWhile do
      if ← isSymbol "\x7d" then return false
      if (← symbol? ";") || (← symbol? ",") then return true
      typeMember self
      return true
    symbol "\x7d"

/-- An element of a tuple type, which may be named, optional or spread. -/
def tupleElement : Reader Unit :=
  node .other do
    discard (symbol? "...")
    let labelled ← follows do
      anyWord .plain .typeName
      discard (symbol? "?")
      symbol ":"
    if labelled then
      take .name .typeName
      discard (symbol? "?")
      typeClause self
    else
      self (.type true)
      discard (symbol? "?")

/-- Words that are types of their own and take no type arguments, so that a `<` behind them compares. -/
def plainTypes : List String :=
  ["any", "bigint", "boolean", "const", "never", "null", "number", "object", "string", "symbol", "this",
    "undefined", "unknown", "void"]

/-- A type that is not built from others by an operator. -/
def typePrimary : Reader Unit := do
  match ← token with
  | .word "typeof" => typeQuery self
  | .word w =>
    if w == "import" then
      take .plain .other
      wrap .function .call (inRole .arguments (self .arguments))
    else take .plain .typeName
    repeatWhile do
      if ← isSymbol "." then
        wrap .object .member do
          symbol "."
          propertyName self .property
        return true
      else return false
    if !plainTypes.contains w && (← atAngle) && !(← atLineStart) then
      wrap .plain .other (typeArguments self)
  | .string => take .plain .string
  | .number => take .plain .number
  | .symbol "-" =>
    node .other do
      symbol "-"
      guard ((← token) == .number)
      take .plain .number
  | .symbol "\x60" => templateOf (self (.type true))
  | .symbol "\x7b" => objectType self
  | .symbol "[" =>
    node .other do
      symbol "["
      listUntil "]" "," (tupleElement self)
  | .symbol "(" =>
    node .parenthesized do
      symbol "("
      self (.type true)
      symbol ")"
  | _ => failure

/-- A primary type with the operators before and after it. -/
def typeOperandRule (conditional : Bool) : Reader Unit := do
  match ← token with
  | .word w =>
    if typePrefixes.contains w && beginsType (← second).1 then
      node .other do
        keyword w
        if w == "infer" then
          anyWord .plain .typeName
          discard <| attempt do
            keyword "extends"
            self (.type false)
            guard (!conditional || !(← isSymbol "?"))
        else self (.typeOperand conditional)
      return
  | _ => pure ()
  typePrimary self
  repeatWhile do
    if (← isSymbol "[") && !(← atLineStart) then
      wrap .plain .other do
        symbol "["
        if !(← isSymbol "]") then self (.type true)
        symbol "]"
      return true
    else return false

/-- Types joined by a mark, which may also stand before the first one. -/
def joinedTypes (mark : String) (operand : Reader Unit) : Reader Unit := do
  if ← isSymbol mark then
    node .other do
      symbol mark
      separated mark operand
  else
    operand
    if ← isSymbol mark then
      wrap .plain .other do
        symbol mark
        separated mark operand

/-- The type of a function, or of a constructor after `new`. -/
def functionTypeOf (kind : Kind) : Reader Unit :=
  node kind do
    discard (keyword? "abstract")
    discard (keyword? "new")
    typeParameters? self
    inRole .parameters (self .parameters)
    symbol "=>"
    self (.type true)

/-- The statement of a signature about one of its parameters: `x is T` or `asserts x`. -/
def typePredicate : Reader Unit :=
  node .other do
    if (← isWord "asserts") && (← second).1 != .word "is" then keyword "asserts"
    anyWord .plain .identifier
    if ← keyword? "is" then self (.type true)

/-- Whether `x is T` or `asserts x` stands here. -/
def atTypePredicate : Reader Bool := do
  match ← token, ← second with
  | .word _, (.word "is", false) => return true
  | .word "asserts", (.word w, false) => return !(["extends", "as", "in", "of"].contains w)
  | _, _ => return false

def typeRule (conditional : Bool) : Reader Unit := do
  if ← atTypePredicate then
    typePredicate self
    return
  let (following, _) ← second
  match ← token, following with
  | .word "new", _ | .word "abstract", .word "new" => functionTypeOf self .other; return
  | .symbol "<", _ => functionTypeOf self .functionType; return
  | .symbol "(", _ => if ← attempt (functionTypeOf self .functionType) then return
  | _, _ => pure ()
  joinedTypes "|" (joinedTypes "&" (unionMember))
  if conditional && (← isWord "extends") && !(← atLineStart) then
    wrap .plain .other do
      keyword "extends"
      self (.type false)
      symbol "?"
      self (.type true)
      symbol ":"
      self (.type true)
where
  /-- A member of a union may itself be the type of a function, which then ends the union. -/
  unionMember : Reader Unit := do
    match ← token with
    | .symbol "(" =>
      if ← attempt (functionTypeOf self .functionType) then return
      else self (.typeOperand conditional)
    | .symbol "<" | .word "new" => functionTypeOf self .other
    | _ => self (.typeOperand conditional)

end

end StoreBindings.Syntax.Reader
