import StoreBindings.Syntax.Grammar.Statements

/-!
# The tree of a whole source

`rules` says how each rule is read when its parts are read by some grammar; `grammar n` closes the
circle for sources whose rules are nested at most `n` deep. No source nests its rules deeper than
a fixed number of times per character, so `parse` needs no bound from its caller.

`parse` answers a tree for every text. A text that is no source of the dialect becomes a single
leaf, so that the text of the tree is the text that was read, whatever it was: `parse_chars`. Nothing
is recovered of such a text: it declares nothing, also in front of the place where reading fails.
-/

namespace StoreBindings.Syntax

open Reader

/-- How each rule is read, given how its parts are read. -/
def rules (dialect : Dialect) (self : Grammar) : Grammar
  | .type conditional => typeRule self conditional
  | .typeOperand conditional => typeOperandRule self conditional
  | .parameters => parametersRule self
  | .binding => bindingRule self
  | .expression allowIn => expressionRule self allowIn
  | .assignment allowIn arrowTypes => assignmentRule self allowIn arrowTypes
  | .binary allowIn level => binaryRule self allowIn level
  | .unary => unaryRule self dialect
  | .leftHand => leftHandRule self
  | .constructed => constructedRule self
  | .arguments => argumentsRule self
  | .classTail => classTailRule self
  | .decorator => decoratorRule self
  | .block => blockRule self
  | .statement => statementRule self
  | .markup => markupRule self

/-- The grammar of sources whose rules are nested at most `depth` deep. -/
def grammar (dialect : Dialect) : Nat → Grammar
  | 0 => fun _ => failure
  | depth + 1 => rules dialect (grammar dialect depth)

/-- The line that names the interpreter of a script, at the front of a text. -/
def takeInterpreter : List Char → List Char × List Char
  | '#' :: '!' :: cs =>
    let (line, rest) := cs.span fun c => !endsLine c
    ('#' :: '!' :: line, rest)
  | cs => ([], cs)

/-- The parts of a source, if it is one of the dialect. -/
def parts? (dialect : Dialect) (cs : List Char) : Option (List Tree) := do
  let source : Reader Unit := do
    takeRaw .plain .other takeInterpreter
    statements (grammar dialect (32 * cs.length + 64))
    takeBlanks
  let (_, c) ← source (Cursor.before [] cs)
  guard c.front.isEmpty
  return c.done.reverse

/-- The tree of a text. -/
def parse (dialect : Dialect) (cs : List Char) : Tree :=
  match parts? dialect cs with
  | some parts =>
    if Tree.charsOfAll parts = cs then .node .plain .program parts else .leaf .plain .other cs
  | none => .leaf .plain .other cs

/-- A tree holds the text that it was read from. -/
@[simp] theorem parse_chars (dialect : Dialect) (cs : List Char) :
    (parse dialect cs).chars = cs := by
  unfold parse
  split
  · split
    · simpa [Tree.chars]
    · rfl
  · rfl

end StoreBindings.Syntax
