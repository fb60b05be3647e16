import StoreBindings.Text.Offset

/-!
# Syntax trees that keep the whole text

A tree holds every character of its source: its leaves, read from left to right, are the text,
blanks and comments included. No place is stored anywhere. Where a part begins is found by adding
up what stands before it, so the span of a part always lies inside the span of the whole, two
parts side by side never overlap, and the text at a span is the text of the part.

* `Tree` — a leaf with its characters, or a node with its parts. Each part carries the `Role` it
  plays in the node above it (the name of a class, the value of a field, ...).
* `Kind` — the kinds that the rest of the library tells apart; all others are `other`.
* `Node` — a tree together with the byte offset at which it begins. The questions that the
  library asks about a source are asked of nodes.
-/

namespace StoreBindings.Syntax

/-- What a part of a source is. -/
inductive Kind
  -- parts without a meaning of their own
  | blank | comment | symbol | keyword
  -- names
  | identifier | typeName | propertyName | privateName | shorthandName
  -- literals
  | number | string | template | trueLiteral | falseLiteral
  -- expressions
  | call | member | construction | arguments | parenthesized | cast | object | pair
  | functionExpression | arrowFunction
  -- parameters and types
  | parameters | requiredParameter | optionalParameter | typeClause | functionType
  -- classes
  | classDeclaration | heritage | extendsClause | classBody | method | field | decorator
  -- statements
  | program | exportStatement | ambientDeclaration | lexicalDeclaration | variableDeclaration
  | declarator | functionDeclaration | functionSignature | block | returnStatement
  | other
deriving DecidableEq, Repr, Inhabited

/-- Blanks, comments, punctuation and bare keywords are not counted among the parts of a node. -/
def Kind.counts : Kind → Bool
  | .blank | .comment | .symbol | .keyword => false
  | _ => true

/-- The place a part takes in the node above it. -/
inductive Role
  | name | body | value | function | arguments | constructed | parameters | parameter | pattern
  | type | declaration | key | object | property | accessibility | plain
deriving DecidableEq, Repr, Inhabited

/-- A part of a source, with all of its text. -/
inductive Tree
  | leaf (role : Role) (kind : Kind) (chars : List Char)
  | node (role : Role) (kind : Kind) (parts : List Tree)
deriving Inhabited, Repr

namespace Tree

def role : Tree → Role
  | leaf r _ _ | node r _ _ => r

def kind : Tree → Kind
  | leaf _ k _ | node _ k _ => k

/-- The direct parts of a tree; a leaf has none. -/
def parts : Tree → List Tree
  | leaf .. => []
  | node _ _ ps => ps

/-- The same part in another role. -/
def withRole (r : Role) : Tree → Tree
  | leaf _ k cs => leaf r k cs
  | node _ k ps => node r k ps

mutual

/-- The text of a tree: its leaves from left to right. -/
def chars : Tree → List Char
  | leaf _ _ cs => cs
  | node _ _ ps => charsOfAll ps

/-- The text of several trees side by side. -/
def charsOfAll : List Tree → List Char
  | [] => []
  | t :: ts => chars t ++ charsOfAll ts

end

/-- The text of a tree as a string. -/
def text (t : Tree) : String := String.ofList t.chars

/-- The number of bytes that a tree takes in its source. -/
def size (t : Tree) : Nat := Text.byteLength t.chars

/-- The direct parts that count: no blanks, comments, punctuation or bare keywords. -/
def children (t : Tree) : List Tree := t.parts.filter fun p => p.kind.counts

/-- The first part in a given role. -/
def part? (r : Role) (t : Tree) : Option Tree := t.parts.find? fun p => p.role == r

/-- The first part that counts. -/
def firstChild? (t : Tree) : Option Tree := t.children.head?

/-- Whether a bare keyword stands directly in a tree. -/
def hasKeyword (word : String) (t : Tree) : Bool :=
  t.parts.any fun p => p.kind == .keyword && p.text == word

mutual

/-- An expression without the parentheses and casts around it. -/
def unwrapped : Tree → Tree
  | .leaf r k cs => .leaf r k cs
  | .node r k ps =>
    if k = .parenthesized ∨ k = .cast then (firstUnwrapped ps).getD (.node r k ps)
    else .node r k ps

/-- The first of several trees that counts, without parentheses and casts. -/
def firstUnwrapped : List Tree → Option Tree
  | [] => none
  | t :: ts => if t.kind.counts then some (unwrapped t) else firstUnwrapped ts

end

@[simp] theorem chars_withRole (r : Role) (t : Tree) : (t.withRole r).chars = t.chars := by
  cases t <;> rfl

@[simp] theorem kind_withRole (r : Role) (t : Tree) : (t.withRole r).kind = t.kind := by
  cases t <;> rfl

@[simp] theorem charsOfAll_append (a b : List Tree) :
    charsOfAll (a ++ b) = charsOfAll a ++ charsOfAll b := by
  induction a with
  | nil => rfl
  | cons t ts ih => simp [charsOfAll, ih]

end Tree

/-- A stretch of a source, as byte offsets: from `start` up to and without `stop`. -/
structure Span where
  start : Nat
  stop : Nat
deriving DecidableEq, Repr, Inhabited

namespace Span

/-- The number of bytes covered; a span whose ends are swapped covers none. -/
def length (s : Span) : Nat := s.stop - s.start

def isEmpty (s : Span) : Bool := s.length == 0

/-- One span lies inside another. -/
def Within (inner outer : Span) : Prop := outer.start ≤ inner.start ∧ inner.stop ≤ outer.stop

end Span

/-- A tree at its place in a source. -/
structure Node where
  start : Nat
  tree : Tree
deriving Inhabited, Repr

namespace Node

def kind (n : Node) : Kind := n.tree.kind

def role (n : Node) : Role := n.tree.role

/-- The text that a node covers. -/
def text (n : Node) : String := n.tree.text

/-- The stretch of the source that a node covers. -/
def span (n : Node) : Span := ⟨n.start, n.start + n.tree.size⟩

/-- Trees side by side, the first of them at `start`. -/
def placed (start : Nat) : List Tree → List Node
  | [] => []
  | t :: ts => ⟨start, t⟩ :: placed (start + t.size) ts

/-- All direct parts of a node, each at its place. -/
def parts (n : Node) : List Node := placed n.start n.tree.parts

/-- The direct parts that count, each at its place. -/
def children (n : Node) : List Node := n.parts.filter fun p => p.kind.counts

/-- The first part in a given role, at its place. -/
def part? (r : Role) (n : Node) : Option Node := n.parts.find? fun p => p.role == r

mutual

/-- The places of all parts of a tree for which `p` holds, outer parts before inner ones. -/
def placesIn (p : Node → Bool) (start : Nat) : Tree → List Span
  | t@(.leaf ..) => if p ⟨start, t⟩ then [(Node.mk start t).span] else []
  | t@(.node _ _ ps) =>
    (if p ⟨start, t⟩ then [(Node.mk start t).span] else []) ++ placesInAll p start ps

/-- `placesIn` for trees side by side. -/
def placesInAll (p : Node → Bool) (start : Nat) : List Tree → List Span
  | [] => []
  | t :: ts => placesIn p start t ++ placesInAll p (start + t.size) ts

end

/-- The places of all parts of a node for which `p` holds, outer parts before inner ones. -/
def places (p : Node → Bool) (n : Node) : List Span := placesIn p n.start n.tree

/-! ## Spans of parts -/

/-- Parts side by side lie between the first start and the end of all of their text. -/
theorem within_of_mem_placed {start : Nat} {ts : List Tree} {n : Node} (h : n ∈ placed start ts) :
    start ≤ n.span.start ∧ n.span.stop ≤ start + Text.byteLength (Tree.charsOfAll ts) := by
  induction ts generalizing start with
  | nil => simp [placed] at h
  | cons t ts ih =>
    simp only [placed, List.mem_cons] at h
    simp only [Tree.charsOfAll, Text.byteLength_append]
    rcases h with rfl | h
    · simp [span, Tree.size]
    · have := ih h
      simp only [Tree.size] at this
      omega

/-- A direct part of a node lies inside it. -/
theorem within_of_mem_parts {n p : Node} (h : p ∈ n.parts) : p.span.Within n.span := by
  obtain ⟨start, t⟩ := n
  cases t with
  | leaf r k cs => simp [parts, Tree.parts, placed] at h
  | node r k ps =>
    have := within_of_mem_placed h
    simpa [Span.Within, span, Tree.size, Tree.chars, Tree.parts] using this

end Node

end StoreBindings.Syntax
