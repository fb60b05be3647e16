/-!
# Paths

A path is a text whose parts are separated by slashes. What it names is decided by its
`components`: empty parts and inner single points mean nothing, so `/a//b/./` and `/a/b` have the
same components and are the same path, although each keeps its own spelling. A point at the front
of a relative path stays a component.

* `components`, `ofComponents` — the view of a path, and the path with given components.
* `same`, `startsWith` — comparison by components.
* `join`, `parent?`, `fileName?`, `extension?` — taking paths together and apart.
-/

namespace StoreBindings

/-- One step of a path. -/
inductive Component
  | root
  | current
  | parent
  | name (text : List Char)
deriving DecidableEq, Repr

namespace Component

/-- The component that a part in the middle of a path stands for, if it stands for one. -/
def ofPiece? (piece : List Char) : Option Component :=
  if piece = [] ∨ piece = ['.'] then none
  else if piece = ['.', '.'] then some .parent
  else some (.name piece)

/-- The component that the first part of a path stands for, if it stands for one. -/
def ofFirst? (piece : List Char) : Option Component :=
  if piece = ['.'] then some .current else ofPiece? piece

/-- How a component is written. -/
def text : Component → List Char
  | .root => ['/']
  | .current => ['.']
  | .parent => ['.', '.']
  | .name n => n

/-- A part that spells a name means that name. -/
theorem ofPiece?_text {c : Component} (h : ∃ n, c = .name n ∧ n ≠ [] ∧ n ≠ ['.'] ∧ n ≠ ['.', '.']) :
    ofPiece? c.text = some c := by
  obtain ⟨n, rfl, h0, h1, h2⟩ := h
  simp [ofPiece?, text, h0, h1, h2]

end Component

/-- A path as it is spelled. -/
structure Path where
  text : List Char
deriving DecidableEq, Repr, Inhabited

namespace Path

def ofString (s : String) : Path := ⟨s.toList⟩

def toString (p : Path) : String := String.ofList p.text

/-- The parts of a text between slashes; there is always at least one. -/
def pieces : List Char → List (List Char)
  | [] => [[]]
  | c :: cs =>
    if c = '/' then [] :: pieces cs
    else
      match pieces cs with
      | [] => [[c]]
      | p :: ps => (c :: p) :: ps

/-- Parts with a slash between each two. -/
def joined : List (List Char) → List Char
  | [] => []
  | [p] => p
  | p :: q :: ps => p ++ '/' :: joined (q :: ps)

def isAbsolute (p : Path) : Bool := p.text.head? == some '/'

/-- The components of a path. -/
def components (p : Path) : List Component :=
  if p.isAbsolute then .root :: (pieces p.text).filterMap Component.ofPiece?
  else
    match pieces p.text with
    | [] => []
    | first :: more => (Component.ofFirst? first).toList ++ more.filterMap Component.ofPiece?

/-- The path with given components, spelled without anything superfluous. -/
def ofComponents : List Component → Path
  | .root :: cs => ⟨'/' :: joined (cs.map Component.text)⟩
  | cs => ⟨joined (cs.map Component.text)⟩

/-- Two spellings of the same path. -/
def same (p q : Path) : Bool := p.components == q.components

/-- Whether the components of `dir` are the first ones of `p`. -/
def startsWith (p dir : Path) : Bool := dir.components.isPrefixOf p.components

/-- A path inside a directory. An absolute path stands for itself, and an empty one for the
directory with a slash after it. -/
def join (dir p : Path) : Path :=
  if p.isAbsolute then p
  else if dir.text = [] ∨ dir.text.getLast? = some '/' then ⟨dir.text ++ p.text⟩
  else ⟨dir.text ++ '/' :: p.text⟩

/-- The path of a text inside a directory. -/
def joinText (dir : Path) (s : String) : Path := dir.join (ofString s)

/-- Whether a part in the middle of a path stands for nothing. -/
def isIdle (piece : List Char) : Bool := (Component.ofPiece? piece).isNone

/-- The parts of a path that is written backwards, without its last component: that one and the
idle parts around it are taken off. `none` if there is no component. -/
def dropLast? (backwards : List (List Char)) : Option (List (List Char)) :=
  match backwards.dropWhile isIdle with
  | [] => none
  | _ :: before => some (before.dropWhile isIdle)

/-- The path without its last component, in its own spelling; the root and the empty path have
no parent. -/
def parent? (p : Path) : Option Path :=
  if p.isAbsolute then
    (dropLast? ((pieces p.text).drop 1).reverse).map fun before =>
      ⟨'/' :: joined before.reverse⟩
  else
    match pieces p.text with
    | [] => none
    | first :: more =>
      match dropLast? more.reverse with
      | some before =>
        if before.isEmpty && (Component.ofFirst? first).isNone then some ⟨[]⟩
        else some ⟨joined (first :: before.reverse)⟩
      | none => if (Component.ofFirst? first).isSome then some ⟨[]⟩ else none

/-- The last component, if it is a name. -/
def fileName? (p : Path) : Option (List Char) :=
  match p.components.getLast? with
  | some (.name n) => some n
  | _ => none

/-- What follows the last point of a file name, unless that point is its first character. -/
def extension? (p : Path) : Option (List Char) := do
  let name ← p.fileName?
  let after := name.reverse.takeWhile (· != '.')
  if after.length + 1 < name.length then some after.reverse else none

/-- The slashes of a text separate its parts: written with slashes again they give the text. -/
@[simp] theorem joined_pieces (cs : List Char) : joined (pieces cs) = cs := by
  induction cs with
  | nil => rfl
  | cons c cs ih =>
    simp only [pieces]
    cases hp : pieces cs with
    | nil =>
      exfalso
      cases cs with
      | nil => simp [pieces] at hp
      | cons d ds => simp only [pieces] at hp; split at hp <;> (try split at hp) <;> simp at hp
    | cons p ps =>
      rw [hp] at ih
      split
      · next hc => subst hc; simp [joined, ih]
      · cases ps with
        | nil => simp only [joined] at ih ⊢; rw [ih]
        | cons q qs => simp only [joined, List.cons_append] at ih ⊢; rw [ih]

end Path

end StoreBindings
