/-!
# Byte offsets into a text

Places in a source are counted in bytes of its UTF-8 form, while the text itself is a list of
characters. This module counts the bytes, cuts a text at an offset (which must fall between two
characters) and turns an offset into a line and a column.

* `splitAt? cs n = some (a, b)` says that `a ++ b = cs` and that `a` takes `n` bytes.
* `slice? cs start stop` is the text between two offsets.
* `position cs n` is the zero-based line and the column, counted in characters, of offset `n`.
-/

namespace StoreBindings.Text

/-- The number of bytes that a text takes in UTF-8. -/
def byteLength (cs : List Char) : Nat := cs.foldr (fun c n => c.utf8Size + n) 0

@[simp] theorem byteLength_nil : byteLength [] = 0 := rfl

@[simp] theorem byteLength_cons (c : Char) (cs : List Char) :
    byteLength (c :: cs) = c.utf8Size + byteLength cs := rfl

@[simp] theorem byteLength_append (a b : List Char) :
    byteLength (a ++ b) = byteLength a + byteLength b := by
  induction a with
  | nil => rw [List.nil_append, byteLength_nil, Nat.zero_add]
  | cons c a ih => rw [List.cons_append, byteLength_cons, byteLength_cons, ih, Nat.add_assoc]

/-- Cut a text at a byte offset; an offset inside a character or past the end cuts nothing. -/
def splitAt? : List Char → Nat → Option (List Char × List Char)
  | cs, 0 => some ([], cs)
  | [], _ + 1 => none
  | c :: cs, n + 1 =>
    if c.utf8Size ≤ n + 1 then
      (splitAt? cs (n + 1 - c.utf8Size)).map fun (a, b) => (c :: a, b)
    else none

/-- A cut loses nothing, and its first part has the length asked for. -/
theorem splitAt?_eq_some {cs a b : List Char} {n : Nat} (h : splitAt? cs n = some (a, b)) :
    a ++ b = cs ∧ byteLength a = n := by
  induction cs generalizing a b n with
  | nil =>
    cases n with
    | zero => simp [splitAt?] at h; obtain ⟨rfl, rfl⟩ := h; simp
    | succ n => simp [splitAt?] at h
  | cons c cs ih =>
    cases n with
    | zero => simp [splitAt?] at h; obtain ⟨rfl, rfl⟩ := h; simp
    | succ n =>
      simp only [splitAt?] at h
      split at h
      · obtain ⟨⟨a', b'⟩, hab, heq⟩ := Option.map_eq_some_iff.1 h
        obtain ⟨rfl, rfl⟩ := Prod.mk.injEq .. ▸ heq
        have := ih hab
        simp only [List.cons_append, byteLength_cons]
        exact ⟨by rw [this.1], by omega⟩
      · simp at h

/-- A text can be cut wherever one part of it ends. -/
theorem splitAt?_append (a b : List Char) : splitAt? (a ++ b) (byteLength a) = some (a, b) := by
  induction a with
  | nil => cases b <;> simp [splitAt?]
  | cons c a ih =>
    have hc : 0 < c.utf8Size := Char.utf8Size_pos c
    obtain ⟨n, hn⟩ : ∃ n, c.utf8Size + byteLength a = n + 1 := ⟨c.utf8Size + byteLength a - 1, by omega⟩
    simp only [List.cons_append, byteLength_cons, hn, splitAt?]
    have h1 : c.utf8Size ≤ n + 1 := by omega
    have h2 : n + 1 - c.utf8Size = byteLength a := by omega
    simp [h1, h2, ih]

/-- The text between two byte offsets, if both fall between characters and are in order. -/
def slice? (cs : List Char) (start stop : Nat) : Option (List Char) :=
  if start ≤ stop then do
    let (before, _) ← splitAt? cs stop
    let (_, inside) ← splitAt? before start
    pure inside
  else none

/-- The number of line ends in a text. -/
def lineEnds (cs : List Char) : Nat := cs.count '\n'

/-- What stands after the last line end of a text. -/
def lastLine (cs : List Char) : List Char := (cs.reverse.takeWhile (· != '\n')).reverse

/-- The zero-based line, and column in characters, of a byte offset.

An offset past the end stands for the end; one inside a character is at the very start. -/
def position (cs : List Char) (offset : Nat) : Nat × Nat :=
  let before := ((splitAt? cs (min offset (byteLength cs))).map Prod.fst).getD []
  (lineEnds before, (lastLine before).length)

end StoreBindings.Text
