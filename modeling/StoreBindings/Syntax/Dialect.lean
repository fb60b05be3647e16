import StoreBindings.Failure
import StoreBindings.Syntax.Source

/-!
# Dialects and source files

Which dialect a file is written in follows from its ending; a source file is a path, a text and
the tree of that text.
-/

namespace StoreBindings.Syntax

namespace Dialect

/-- The name of a dialect. -/
def name : Dialect → String
  | plain => "typescript"
  | markup => "tsx"

/-- The dialect with a given name. -/
def ofName? (s : String) : Option Dialect := [plain, markup].find? fun d => d.name == s

/-- The dialect with a given name, which has to be one. -/
def named (s : String) : Except Failure Dialect :=
  match ofName? s with
  | some d => .ok d
  | none => .error (.unknownDialect s)

/-- The dialect of files with a given ending. -/
def ofExtension? (ending : List Char) : Option Dialect :=
  if ["ts".toList, "mts".toList, "cts".toList].contains ending then some plain
  else if ending == "tsx".toList then some markup
  else none

/-- The dialect that the path of a file tells. -/
def ofPath? (p : Path) : Option Dialect := p.extension?.bind ofExtension?

/-- Every dialect is found by its name. -/
theorem ofName?_name (d : Dialect) : ofName? d.name = some d := by cases d <;> decide +kernel

end Dialect

/-- Whether a file is taken for a source by its name. -/
def isSourceFile (p : Path) : Bool :=
  match p.fileName? with
  | some name => [".ts", ".tsx", ".mts"].any fun ending => ending.toList.isSuffixOf name
  | none => false

/-- A source file. -/
structure Module where
  path : Path
  text : List Char
  tree : Tree
  chars_tree : tree.chars = text

namespace Module

/-- The source file with a given path and text; without a telling ending it is of the plain
dialect. -/
def read (path : Path) (text : List Char) : Module :=
  ⟨path, text, parse ((Dialect.ofPath? path).getD .plain) text, parse_chars _ _⟩

/-- The whole source as a node. -/
def root (m : Module) : Node := ⟨0, m.tree⟩

end Module

end StoreBindings.Syntax
