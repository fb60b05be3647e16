import StoreBindings.Syntax.Tree
import StoreBindings.Text.Basic

/-!
# The outline of a source

The declarations of a source as data: its classes with their members and decorators, its variables
and its functions, and of the expressions in them only what the rest of the library asks for. The
outline is read off the tree; nothing here looks at the text of a source again.

A class body is first a sequence of parts, in which the decorators of a method stand before it.
`members` hands each decorator to the member that follows it.
-/

namespace StoreBindings.Syntax

/-! ## Functions and their parameters -/

/-- A parameter of a function. -/
structure Parameter where
  /-- The name, unless the parameter is taken apart or names nothing. -/
  name : Option String
  /-- Whether it takes all further arguments. -/
  isRest : Bool
  /-- The type as it is written. -/
  type : Option String
  /-- The value that stands for a missing argument. -/
  fallback : Option Tree
deriving Repr

/-- A text without three points in front, however often they are there, and without blanks. -/
def withoutPoints : List Char → List Char
  | '.' :: '.' :: '.' :: cs => withoutPoints cs
  | cs => Text.trim cs

namespace Parameter

/-- The parameter that a part of a parameter list is. -/
def ofTree (t : Tree) : Parameter :=
  let pattern := t.part? .pattern
  let isRest := (pattern.map fun p => "...".toList.isPrefixOf p.chars).getD false
  { name := pattern.bind fun p =>
      if p.kind = .identifier then some p.text
      else if isRest then some (String.ofList (withoutPoints p.chars))
      else none
    isRest
    type := ((t.part? .type).bind Tree.firstChild?).map Tree.text
    fallback := t.part? .value }

/-- The name of the parameter at a given place; without a name of its own it is called by the
number of its place. -/
def nameAt (place : Nat) (p : Parameter) : String := p.name.getD s!"__{place}"

/-- The parameters in a parameter list; `this` is none of them. -/
def ofList (t : Tree) : List Parameter :=
  (t.children.filter fun p =>
    (p.kind == .requiredParameter || p.kind == .optionalParameter) &&
      (p.part? .pattern).map Tree.text != some "this").map ofTree

/-- The parameters of a function. -/
def ofFunction (t : Tree) : List Parameter :=
  match t.part? .parameter with
  | some p => [{ name := some p.text, isRest := false, type := none, fallback := none }]
  | none => ((t.part? .parameters).map ofList).getD []

/-- The names of parameters, each at its place. -/
def names (ps : List Parameter) : List String := ps.mapIdx nameAt

end Parameter

/-! ## Decorators -/

/-- A decorator. -/
structure Decorator where
  text : String
  /-- The name that it is called by, if it has one. -/
  name : Option String
  /-- The texts of its arguments, if it is a call. -/
  arguments : Option (List String)
deriving DecidableEq, Repr

namespace Decorator

/-- The text of a name or of a property of a name. -/
def reference? (t : Tree) : Option String :=
  if t.kind = .identifier ∨ t.kind = .member then some t.text else none

def ofTree (t : Tree) : Decorator :=
  match t.firstChild? with
  | none => ⟨t.text, none, none⟩
  | some e =>
    if e.kind = .call then
      ⟨t.text, (e.part? .function).bind reference?,
        some (((e.part? .arguments).map fun a => a.children.map Tree.text).getD [])⟩
    else ⟨t.text, reference? e, none⟩

/-- A name without what it is a property of. -/
def shortName (name : String) : String :=
  String.ofList (name.toList.reverse.takeWhile (· != '.')).reverse

/-- Whether a decorator is called by a name, in letters of either case. -/
def isCalled (name : String) (d : Decorator) : Bool :=
  (d.name.map fun n => Text.sameLetters (shortName n) name).getD false

end Decorator

/-! ## Class members -/

/-- Who may use a member, where its class says so. -/
inductive Access
  | everyone | onlyClass | heirs
deriving DecidableEq, Repr

inductive Accessor
  | getter | setter
deriving DecidableEq, Repr

inductive MemberKind
  | method | field
deriving DecidableEq, Repr

/-- How a member is named. -/
inductive MemberName
  | plain (name : String)
  /-- A name that only the class itself can use, with its mark. -/
  | hidden (name : String)
  /-- A text, a number or an expression. -/
  | computed (text : String)
deriving DecidableEq, Repr

namespace MemberName

def ofTree (t : Tree) : MemberName :=
  match t.kind with
  | .propertyName => .plain t.text
  | .privateName => .hidden t.text
  | _ => .computed t.text

/-- The name, if it is an identifier. -/
def identifier? : MemberName → Option String
  | plain n | hidden n => some n
  | computed _ => none

def text : MemberName → String
  | plain n | hidden n | computed n => n

end MemberName

/-- A method, accessor or field of a class. -/
structure Member where
  kind : MemberKind
  name : MemberName
  span : Span
  isStatic : Bool
  access : Option Access
  accessor : Option Accessor
  decorators : List Decorator
  parameters : List Parameter
  /-- The text that a field is given, if it is given a text. -/
  literal : Option String
  /-- The static keys of the object that a body returns, if that is all that it does. -/
  returned : Option (List String)
deriving Repr

/-- A text literal without its quotes. -/
def unquoted (cs : List Char) : List Char :=
  match cs.head?, cs.getLast? with
  | some a, some b =>
    if 2 ≤ cs.length && a == b && (a == '"' || a == '\'' || a == '\x60') then
      (cs.drop 1).dropLast
    else cs
  | _, _ => cs

/-- The key of a property of an object literal, if it is there to be read. -/
def objectKey? (t : Tree) : Option String :=
  match t.kind with
  | .shorthandName => some t.text
  | .pair =>
    (t.part? .key).bind fun k =>
      match k.kind with
      | .propertyName | .identifier | .number => some k.text
      | .string => some (String.ofList (unquoted k.chars))
      | _ => none
  | _ => none

/-- The keys of the object that a body returns, if it consists of that return alone. -/
def returnedKeys? (body : Tree) : Option (List String) :=
  match body.children with
  | [statement] =>
    if statement.kind = .returnStatement then
      statement.firstChild?.bind fun e =>
        let e := e.unwrapped
        if e.kind = .object then some (e.children.filterMap objectKey?) else none
    else none
  | _ => none

namespace Member

/-- The member that a method, accessor or field is, with the decorators inside it. -/
def ofNode (kind : MemberKind) (n : Node) : Member :=
  let t := n.tree
  let isMethod := kind = .method
  { kind
    name := ((t.part? .name).map MemberName.ofTree).getD (.computed "")
    span := n.span
    isStatic := t.hasKeyword "static"
    access := (t.part? .accessibility).bind fun a =>
      match a.text with
      | "public" => some .everyone
      | "private" => some .onlyClass
      | "protected" => some .heirs
      | _ => none
    accessor :=
      if !isMethod then none
      else if t.hasKeyword "get" then some .getter
      else if t.hasKeyword "set" then some .setter
      else none
    decorators := (t.children.filter fun p => p.kind == .decorator).map Decorator.ofTree
    parameters := if isMethod then Parameter.ofFunction t else []
    literal := (t.part? .value).bind fun v =>
      if v.kind = .string then some (String.ofList (unquoted v.chars)) else none
    returned := (t.part? .body).bind returnedKeys? }

/-- The name of a member, if it is an identifier. -/
def identifier? (m : Member) : Option String := m.name.identifier?

/-- Whether a member carries a decorator of a given name. -/
def hasDecorator (name : String) (m : Member) : Bool := m.decorators.any (·.isCalled name)

end Member

/-! ## Class bodies -/

/-- A part of a class body. -/
inductive BodyPart
  | decorator (d : Decorator)
  | comment
  | member (m : Member)
  /-- What is neither a method with a body nor a field. -/
  | other
deriving Repr

namespace BodyPart

/-- The part of a class body that a node is; punctuation and blanks are none. -/
def ofNode? (n : Node) : Option BodyPart :=
  match n.kind with
  | .decorator => some (.decorator (Decorator.ofTree n.tree))
  | .comment => some .comment
  | .method => some (.member (Member.ofNode .method n))
  | .field => some (.member (Member.ofNode .field n))
  | .blank | .symbol | .keyword => none
  | _ => some .other

/-- The members of a class body, each with the decorators between it and the part before it that
is neither a decorator nor a comment; `waiting` are the decorators met so far. -/
def membersFrom (waiting : List Decorator) : List BodyPart → List Member
  | [] => []
  | .decorator d :: ps => membersFrom (waiting ++ [d]) ps
  | .comment :: ps => membersFrom waiting ps
  | .other :: ps => membersFrom [] ps
  | .member m :: ps => { m with decorators := waiting ++ m.decorators } :: membersFrom [] ps

/-- The members of a class body with their decorators. -/
def members (ps : List BodyPart) : List Member := membersFrom [] ps

end BodyPart

/-! ## Declarations -/

/-- A declared class that is not abstract. -/
structure ClassDeclaration where
  name : String
  span : Span
  /-- The names of the functions by whose results the class is extended. -/
  factories : List String
  body : List BodyPart
deriving Repr

namespace ClassDeclaration

/-- The name of the function of which an expression is the result. -/
def factory? (t : Tree) : Option String :=
  if t.kind = .call then
    (t.part? .function).bind fun f => if f.kind = .identifier then some f.text else none
  else none

def ofNode (n : Node) : ClassDeclaration :=
  let heritage := n.tree.children.filter fun p => p.kind == .heritage
  let bases := heritage.flatMap fun h =>
    h.children.flatMap fun p => if p.kind = .extendsClause then p.children else [p]
  { name := ((n.tree.part? .name).map Tree.text).getD ""
    span := n.span
    factories := bases.filterMap factory?
    body := ((n.part? .body).map fun b => b.parts.filterMap BodyPart.ofNode?).getD [] }

/-- The methods, accessors and fields of a class. -/
def members (c : ClassDeclaration) : List Member := BodyPart.members c.body

/-- Whether a class extends the result of the store factory. -/
def isStore (c : ClassDeclaration) : Bool := c.factories.any (Text.sameLetters · "store")

end ClassDeclaration

/-- A declared variable. -/
structure Variable where
  /-- The name, unless the value is taken apart. -/
  name : Option String
  /-- The class of which the value is a new instance, if it is a new instance. -/
  constructs : Option (Option String)
  /-- The parameters of the value, if it is a function or announced as one. -/
  function : Option (List Parameter)
deriving Repr

namespace Variable

def isFunction (k : Kind) : Bool := k == .functionExpression || k == .arrowFunction

def ofTree (t : Tree) : Variable :=
  let value := t.part? .value
  { name := (t.part? .name).bind fun n => if n.kind = .identifier then some n.text else none
    constructs := value.bind fun v =>
      let v := v.unwrapped
      if v.kind = .construction then
        some ((v.part? .constructed).bind fun c =>
          if c.kind = .identifier then some c.text else none)
      else none
    function :=
      match value with
      | some v => if isFunction v.kind then some (Parameter.ofFunction v) else none
      | none =>
        ((t.part? .type).bind Tree.firstChild?).bind fun type =>
          if type.kind = .functionType then some (Parameter.ofFunction type) else none }

end Variable

/-- A declared function. -/
structure FunctionDeclaration where
  name : String
  parameters : List Parameter
  hasBody : Bool
deriving Repr

/-- A group of variables that one word declares. -/
structure VariableGroup where
  isLexical : Bool
  isConst : Bool
  declared : List Variable
deriving Repr

/-- The name and the class of an exported constant that holds a new instance. -/
structure Instance where
  name : String
  className : Option String
deriving DecidableEq, Repr

/-- The new instance that a constant holds, if the constant is all that is declared. -/
def VariableGroup.instance? (g : VariableGroup) : Option Instance :=
  if g.isLexical && g.isConst then
    match g.declared with
    | [v] => do return ⟨← v.name, ← v.constructs⟩
    | _ => none
  else none

/-- A declaration of a class, of variables or of a function. -/
inductive Declaration
  | classes (c : ClassDeclaration)
  | group (g : VariableGroup)
  | function (f : FunctionDeclaration)
deriving Repr

/-- A declaration of a source and whether it is exported. -/
structure TopLevel where
  exported : Bool
  declaration : Declaration
deriving Repr

namespace Declaration

/-- The function that a tree declares. -/
def functionOf (t : Tree) (hasBody : Bool) : FunctionDeclaration :=
  ⟨((t.part? .name).map Tree.text).getD "", Parameter.ofFunction t, hasBody⟩

/-- The variables that a tree declares. -/
def groupOf (t : Tree) (isLexical : Bool) : VariableGroup :=
  ⟨isLexical, t.hasKeyword "const",
    (t.children.filter fun p => p.kind == .declarator).map Variable.ofTree⟩

/-- The declaration that a node is, if it is one that matters. -/
def ofNode? (n : Node) : Option Declaration :=
  match n.kind with
  | .classDeclaration => some (.classes (.ofNode n))
  | .lexicalDeclaration => some (.group (groupOf n.tree true))
  | .variableDeclaration => some (.group (groupOf n.tree false))
  | .functionDeclaration => some (.function (functionOf n.tree true))
  | .functionSignature => some (.function (functionOf n.tree false))
  | _ => none

end Declaration

namespace TopLevel

/-- The nodes that a statement declares, `declare` looked through. -/
def declared (n : Node) : List Node := if n.kind = .ambientDeclaration then n.children else [n]

/-- The declarations of a source, looked for behind `export` and `declare`, but not inside
namespaces and blocks. -/
def ofRoot (root : Node) : List TopLevel :=
  root.children.flatMap fun statement =>
    let exported := statement.kind = .exportStatement
    let nodes :=
      if exported then ((statement.part? .declaration).map declared).getD []
      else declared statement
    (nodes.filterMap Declaration.ofNode?).map fun d => ⟨exported, d⟩

/-- The functions that a declaration gives names to, with the names of their parameters. -/
def functions (t : TopLevel) : List (String × List String) :=
  match t.declaration with
  | .function f => [(f.name, Parameter.names f.parameters)]
  | .group g =>
    g.declared.filterMap fun v => do return (← v.name, Parameter.names (← v.function))
  | .classes _ => []

end TopLevel

end StoreBindings.Syntax
