import StoreBindings.Path.Basic

/-!
# Normal and relative paths

All of this is about spelling alone: no file has to exist.

* `normalize` resolves points: a single point means nothing, and a double point takes the
  component before it back. Where there is nothing to take back it stays, also after the root.
* `relativePath dir p` leads from the directory `dir` to `p`, by double points up to where the two
  part and down from there.
* `specifier`, `importSpecifier` make a relative path one that a module can be imported by.
-/

namespace StoreBindings.Path

/-- Components read so far, the last one first, after one more. -/
def resolveStep (stack : List Component) : Component → List Component
  | .current => stack
  | .parent =>
    match stack with
    | [] => [.parent]
    | .root :: below => .parent :: .root :: below
    | _ :: below => below
  | c => c :: stack

/-- The components of the normal form. -/
def resolve (cs : List Component) : List Component := (cs.foldl resolveStep []).reverse

/-- The path without points, as far as they can be resolved without looking at any file. -/
def normalize (p : Path) : Path := ofComponents (resolve p.components)

/-- The components after the longest common beginning of two lists of them. -/
def diverge : List Component → List Component → List Component × List Component
  | a :: as, b :: bs => if a = b then diverge as bs else (a :: as, b :: bs)
  | as, bs => (as, bs)

/-- The way from a directory to a path. -/
def relativePath (dir p : Path) : List Char :=
  let (up, down) := diverge dir.normalize.components p.normalize.components
  joined (up.map (fun _ => Component.text .parent) ++ down.map Component.text)

/-! ## Specifiers -/

/-- A relative path that shows that it is one: an empty path becomes a point. -/
def specifier (relative : List Char) : List Char :=
  match relative with
  | [] => ['.']
  | '.' :: _ => relative
  | _ => '.' :: '/' :: relative

/-- A text without a given ending. -/
def withoutSuffix (ending cs : List Char) : List Char :=
  if ending.isSuffixOf cs then cs.take (cs.length - ending.length) else cs

/-- The specifier of a module in a relative path: without the ending `.ts`, and with `./` in
front. -/
def importSpecifier (relative : List Char) : List Char :=
  let stem := withoutSuffix ".ts".toList relative
  if ['.', '/'].isPrefixOf stem then stem else '.' :: '/' :: stem

end StoreBindings.Path
