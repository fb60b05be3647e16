import StoreBindings.Text.Basic

/-!
# JSON values

The values that a configuration file can hold. A text has no value if its escapes stand for halves
of characters that do not fit together; such a text is JSON, but nobody can use it.
-/

namespace StoreBindings

/-- A JSON value. -/
inductive Json
  | null
  | bool (b : Bool)
  /-- A number, as it is written. -/
  | number (digits : List Char)
  | text (s : Option String)
  | array (items : List Json)
  /-- An object; a key can occur more than once. -/
  | object (entries : List (Option String × Json))
deriving Inhabited, Repr

namespace Json

/-- The text that a value is. -/
def text? : Json → Option String
  | text s => s
  | _ => none

/-- The texts that a value lists. -/
def texts? : Json → Option (List String)
  | array items => items.mapM text?
  | _ => none

/-- What is read of an entry that may be null. -/
def optional? {α : Type} (read : Json → Option α) : Json → Option (Option α)
  | null => some none
  | v => (read v).map some

/-- The values at given keys of an object, each of which may be there once, or the items of an
array in the order of the keys. A key that is no text spoils an object, and so do too many items
an array. -/
def fields? (keys : List String) : Json → Option (List (Option Json))
  | object entries => do
    guard (entries.all fun e => e.1.isSome)
    keys.mapM fun key =>
      match entries.filter fun e => e.1 == some key with
      | [] => some none
      | [e] => some (some e.2)
      | _ => none
  | array items =>
    if items.length ≤ keys.length then
      some (items.map some ++ List.replicate (keys.length - items.length) none)
    else none
  | _ => none

end Json

end StoreBindings
