import StoreBindings.Files.Tree
import StoreBindings.Glob.Pattern

/-!
# Looking for files by a pattern

A pattern is taken apart at its slashes, and a tree of files is searched part by part: a part
without wildcards names one entry of a directory, a part with wildcards is matched against the
names of all entries, and `**` goes down to every directory below. Here no wildcard reaches beyond
a slash, since each part sees one name only.

The paths that are found come in the order of a walk that takes the entries of each directory by
name and finishes with one before it begins with the next.
-/

namespace StoreBindings.Glob

open Files (Tree)

/-- The name that a part without wildcards stands for. -/
def literal? : Pattern → Option (List Char)
  | [] => some []
  | .char c :: ts => (literal? ts).map (c :: ·)
  | _ => none

/-- Whether a part goes down to all directories. -/
def isRecursive (p : Pattern) : Bool := p == [.anyDirectories]

/-- The parts of a text between slashes; nothing follows a slash at the end. -/
def partsOf (cs : List Char) : List (List Char) :=
  let parts := Path.pieces cs
  if parts.getLast? = some [] then parts.dropLast else parts

/-- A pattern for a walk. -/
structure Search where
  parts : List Pattern
  /-- Whether only directories are looked for. -/
  directoriesOnly : Bool
deriving DecidableEq, Repr

/-- The walk that a text describes. -/
def Search.ofText? (cs : List Char) : Option Search := do
  let _ ← compile? cs
  let inner := if cs.head? = some '/' then cs.drop 1 else cs
  let parts ← (partsOf inner).mapM compile?
  return ⟨if inner.isEmpty then [[]] else parts, cs.getLast? = some '/'⟩

namespace Search

/-- A path that matches all parts, unless only directories are looked for and it is none. -/
def result (s : Search) (t : Tree) (p : Path) : List Path :=
  if s.directoriesOnly && !t.isDirectory p then [] else [p]

/-- The parts of a pattern after those at its front that go down to all directories. -/
def afterRecursive : List Pattern → List Pattern
  | [] => []
  | p :: ps => if isRecursive p then afterRecursive ps else p :: ps

/-- What a directory holds, in the order of the names. -/
def contents (t : Tree) (dir : Path) : List Path :=
  match t.locate dir with
  | .ok place => (t.namesIn place).map fun name => dir.join ⟨name⟩
  | .error _ => []

mutual

/-- What matches the parts `ps` in a directory, the first part being matched against its entries.
`fuel` bounds the steps down and along the pattern. -/
def enter (s : Search) (t : Tree) (fuel : Nat) (ps : List Pattern) (dir : Path) : List Path :=
  match fuel, ps with
  | 0, _ | _, [] => []
  | fuel + 1, p :: rest =>
    match literal? p with
    | some name =>
      let next := dir.join ⟨name⟩
      if if name = ['.'] ∨ name = ['.', '.'] then t.isDirectory dir else t.reaches next then
        proceed s t fuel rest next
      else []
    | none =>
      if t.isDirectory dir then
        let special (name : List Char) :=
          if p.head? = some (.char '.') && matchesText p name then
            proceed s t fuel rest (dir.join ⟨name⟩)
          else []
        special ['.', '.'] ++ special ['.'] ++
          (contents t dir).flatMap fun child => visit s t fuel (p :: rest) child
      else []

/-- What matches the parts `ps` behind a path that has matched all parts before them. -/
def proceed (s : Search) (t : Tree) (fuel : Nat) (ps : List Pattern) (path : Path) : List Path :=
  match fuel, ps with
  | 0, _ => []
  | _ + 1, [] => s.result t path
  | fuel + 1, p :: rest => enter s t fuel (p :: rest) path

/-- What matches the parts `ps`, the first of them being matched against the name of a path. -/
def visit (s : Search) (t : Tree) (fuel : Nat) (ps : List Pattern) (path : Path) : List Path :=
  match fuel, ps with
  | 0, _ | _, [] => []
  | fuel + 1, p :: rest =>
    if isRecursive p then
      match afterRecursive rest with
      | [] => if t.isDirectory path then path :: enter s t fuel [p] path else []
      | q :: rest =>
        named s t fuel (q :: rest) path ++
          if t.isDirectory path then enter s t fuel (p :: q :: rest) path else []
    else named s t fuel (p :: rest) path

/-- `visit` where the first part does not go down to all directories. -/
def named (s : Search) (t : Tree) (fuel : Nat) (ps : List Pattern) (path : Path) : List Path :=
  match fuel, ps with
  | 0, _ | _, [] => []
  | fuel + 1, p :: rest =>
    if path.fileName?.any (matchesText p) then proceed s t fuel rest path else []

end

/-- All paths that a walk finds. Each step goes down in the tree or along the pattern, and a
pattern can go back up only as often as it has parts. -/
def paths (s : Search) (t : Tree) : List Path :=
  s.enter t (4 * (2 * s.parts.length + t.entries.size + 2)) s.parts ⟨['/']⟩

end Search

/-- The paths that a pattern describes, if it is one. -/
def find? (t : Tree) (pattern : List Char) : Option (List Path) :=
  (Search.ofText? pattern).map fun s => s.paths t

end StoreBindings.Glob
