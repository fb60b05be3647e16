import StoreBindings.OrderedMap
import StoreBindings.Text.Basic

/-!
# Values in generated code

What the generated loader is made of: plain data, and two pieces of code that are written as they
are, the construction of an instance and the lazy import of a module. `render` writes a value as
source text. The text is determined by the value: keys keep their order, every level is indented
by four spaces more, and strings are quoted.

Arrays of scalars stay on one line; other arrays and all objects have a line for each entry.
-/

namespace StoreBindings.Generate

/-- A value in generated code. -/
inductive Value
  | undefined
  | null
  | bool (b : Bool)
  | number (n : Int)
  | text (s : String)
  | array (items : List Value)
  | object (entries : List (String × Value))
  /-- `new Class(...)` -/
  | construct (className : String) (args : List Value)
  /-- `() => import.meta.glob("path", ...)` -/
  | lazyImport (path : String)
deriving Inhabited, Repr

namespace Value

/-- An object with the given entries; of several entries with one key the last one counts, at the
place of the first. -/
def record (entries : List (String × Value)) : Value := .object (OrderedMap.ofList entries).entries

/-- A text that may be missing. -/
def optional : Option String → Value
  | some s => .text s
  | none => .undefined

/-- Whether a value takes no more than its own line, whatever it is. -/
def isScalar : Value → Bool
  | undefined | null | bool _ | number _ | text _ => true
  | _ => false

/-! ## Writing -/

/-- The characters that a key may start with if it is written without quotes. -/
def startsBareKey (c : Char) : Bool := c.isAlpha || c == '_' || c == '$'

def continuesBareKey (c : Char) : Bool := startsBareKey c || c.isDigit

/-- Whether a key is written without quotes. -/
def isBareKey : List Char → Bool
  | [] => false
  | c :: cs => startsBareKey c && cs.all continuesBareKey

/-- How a key is written. -/
def keyChars (key : List Char) : List Char := if isBareKey key then key else Text.quoted key

/-- How a key is written, as a string. -/
def renderKey (key : String) : String := String.ofList (keyChars key.toList)

/-- The spaces before a line at a given depth. -/
def indent (depth : Nat) : List Char := List.replicate (4 * depth) ' '

/-- A whole number in decimal. -/
def decimal (n : Int) : List Char := (toString n).toList

mutual

/-- The text of a value whose first line starts at a given depth. -/
def chars (depth : Nat) : Value → List Char
  | undefined => "undefined".toList
  | null => "null".toList
  | bool true => "true".toList
  | bool false => "false".toList
  | number n => decimal n
  | text s => Text.quoted s.toList
  | array [] => ['[', ']']
  | array (v :: vs) =>
    if (v :: vs).all isScalar then '[' :: (inline depth (v :: vs) ++ [']'])
    else ['[', '\n'] ++ itemLines (depth + 1) (v :: vs) ++ indent depth ++ [']']
  | object [] => ['\x7b', '\x7d']
  | object (e :: es) =>
    ['\x7b', '\n'] ++ entryLines (depth + 1) (e :: es) ++ indent depth ++ ['\x7d']
  | construct className args =>
    "new ".toList ++ className.toList ++ '(' :: (inline depth args ++ [')'])
  | lazyImport path =>
    "() => import.meta.glob(".toList ++ Text.quoted path.toList ++
      ", \x7b eager: true \x7d)".toList

/-- Values one after the other, with a comma and a space between each two. -/
def inline (depth : Nat) : List Value → List Char
  | [] => []
  | [v] => chars depth v
  | v :: w :: vs => chars depth v ++ ',' :: ' ' :: inline depth (w :: vs)

/-- Values in lines of their own, with a comma after all but the last. -/
def itemLines (depth : Nat) : List Value → List Char
  | [] => []
  | [v] => indent depth ++ chars depth v ++ ['\n']
  | v :: w :: vs => indent depth ++ chars depth v ++ [',', '\n'] ++ itemLines depth (w :: vs)

/-- Entries in lines of their own, with a comma after all but the last. -/
def entryLines (depth : Nat) : List (String × Value) → List Char
  | [] => []
  | [(k, v)] => indent depth ++ keyChars k.toList ++ [':', ' '] ++ chars depth v ++ ['\n']
  | (k, v) :: e :: es =>
    indent depth ++ keyChars k.toList ++ [':', ' '] ++ chars depth v ++ [',', '\n'] ++
      entryLines depth (e :: es)

end

/-- The text of a value that starts a line of its own. -/
def render (v : Value) : String := String.ofList (chars 0 v)

end Value

end StoreBindings.Generate
