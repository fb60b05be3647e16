import StoreBindings.Files.Tree

/-!
# Paths within a directory

The spelling of a path from a directory that it lies in. Where both are there, what counts is where
they lead, else how they are spelled.

* `stripDirectory? p dir` is the spelling of `p` after its directory `dir`.
* `within` looks where the two lead before.
-/

namespace StoreBindings

namespace Path

/-- The parts of a path after its first `n` components. -/
def dropComponents : Nat → List (List Char) → List (List Char)
  | 0, ps => ps
  | _ + 1, [] => []
  | n + 1, p :: ps => if isIdle p then dropComponents (n + 1) ps else dropComponents n ps

/-- A list of parts without the idle ones at both ends. -/
def trimIdle (ps : List (List Char)) : List (List Char) :=
  ((ps.dropWhile isIdle).reverse.dropWhile isIdle).reverse

/-- A list of parts without the idle ones at its end. -/
def trimIdleEnd (ps : List (List Char)) : List (List Char) :=
  (ps.reverse.dropWhile isIdle).reverse

/-- The rest of a path after a directory that it starts with, in its own spelling. -/
def stripDirectory? (p dir : Path) : Option (List Char) :=
  if p.startsWith dir then
    match dir.components.length, pieces p.text with
    | _, [] => some []
    | 0, first :: more =>
      if p.isAbsolute then some ('/' :: joined (trimIdleEnd more))
      else some (joined (first :: trimIdleEnd more))
    | n + 1, first :: more =>
      if p.isAbsolute || (Component.ofFirst? first).isSome then
        some (joined (trimIdle (dropComponents n more)))
      else some (joined (trimIdle (dropComponents (n + 1) more)))
  else none

end Path

namespace Files

/-- A path that does not lie in a directory. -/
structure Outside where
  path : Path
  root : Path
deriving DecidableEq, Repr

/-- The wording of that error. -/
def Outside.message (o : Outside) : String :=
  s!"File path '{o.path.toString}' is not within root '{o.root.toString}'"

/-- The rest of a path after a directory that it lies in. -/
def Tree.within (t : Tree) (p root : Path) : Except Outside (List Char) :=
  let (p, root) := match t.canonical p, t.canonical root with
    | .ok p', .ok root' => (p', root')
    | _, _ => (p, root)
  match p.stripDirectory? root with
  | some rest => .ok rest
  | none => .error ⟨p, root⟩

end Files

end StoreBindings
