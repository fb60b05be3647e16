import StoreBindings.Text.Basic

/-!
# Comments in JSON documents

Configuration files are JSON with two liberties: comments, to the end of a line or between `/*`
and `*/`, and a comma after the last entry of an object or an array. `plain` takes both out and
leaves everything else where it is, texts in quotes above all.

The document is first marked character by character (`marked`). What to leave out is then decided on the
marks.
-/

namespace StoreBindings.Json

/-- What a character of a document belongs to. -/
inductive Mark
  | code | quoted | comment
deriving DecidableEq, Repr

/-- Where in a document a character stands. -/
inductive Region
  | code | quoted | lineComment | blockComment
deriving DecidableEq, Repr

/-- A document with a mark at each character, read from inside a region. -/
def mark : Region → List Char → List (Mark × Char)
  | _, [] => []
  | .code, '"' :: cs => (.quoted, '"') :: mark .quoted cs
  | .code, '/' :: '/' :: cs => (.comment, '/') :: (.comment, '/') :: mark .lineComment cs
  | .code, '/' :: '*' :: cs => (.comment, '/') :: (.comment, '*') :: mark .blockComment cs
  | .code, c :: cs => (.code, c) :: mark .code cs
  | .quoted, '\\' :: c :: cs => (.quoted, '\\') :: (.quoted, c) :: mark .quoted cs
  | .quoted, '"' :: cs => (.quoted, '"') :: mark .code cs
  | .quoted, c :: cs => (.quoted, c) :: mark .quoted cs
  | .lineComment, '\n' :: cs => (.code, '\n') :: mark .code cs
  | .lineComment, c :: cs => (.comment, c) :: mark .lineComment cs
  | .blockComment, '*' :: '/' :: cs => (.comment, '*') :: (.comment, '/') :: mark .code cs
  | .blockComment, c :: cs => (.comment, c) :: mark .blockComment cs

/-- A whole document with a mark at each character. -/
def marked (cs : List Char) : List (Mark × Char) := mark .code cs

/-- The next character that is neither blank nor part of a comment. -/
def nextSign? : List (Mark × Char) → Option (Mark × Char)
  | [] => none
  | (m, c) :: rest =>
    if m = .comment ∨ m = .code ∧ Text.isBlank c then nextSign? rest else some (m, c)

/-- Whether an object or an array ends next. -/
def endsNext (rest : List (Mark × Char)) : Bool :=
  nextSign? rest == some (.code, '\x7d') || nextSign? rest == some (.code, ']')

/-- What is left of a marked document without its comments and its last commas. -/
def keep : List (Mark × Char) → List Char
  | [] => []
  | (m, c) :: rest =>
    if m = .comment ∨ m = .code ∧ c = ',' ∧ endsNext rest then keep rest else c :: keep rest

/-- A document without comments and last commas. -/
def plain (cs : List Char) : List Char := keep (marked cs)

end StoreBindings.Json
