import Mathlib.Algebra.GroupWithZero.Nat
import StoreBindings.Proofs.Generate.Value

/-!
# A value is moved to the right with the line that it starts on

The lines of a value but the first are indented from the depth at which the value starts. So its text
at a depth is its text at depth zero with the spaces of that depth behind every line feed:
`chars_eq_shifted`. What makes it so is that every line feed is one of the layout, with the spaces of
its line behind it. None comes from a text, a key or a path, since these are quoted where they hold
one; how many there are is told by the nesting of the value alone (`lineBreaks`).

The names of classes are written as they are, so none of them may have a line feed (`Unbroken`).
-/

namespace StoreBindings.Generate.Value

/-! ## Texts without line feeds -/

/-- A key stays on its line, as it is quoted if it is not bare. -/
lemma feed_not_mem_keyChars (key : List Char) : '\n' ∉ keyChars key := by
  unfold keyChars
  split
  · next hbare =>
    intro hfeed
    exact absurd (continuesBareKey_of_isBareKey hbare _ hfeed) (by decide)
  · exact Text.feed_not_mem_quoted key

/-- A scalar stays on its line, whatever it holds. -/
lemma feed_not_mem_of_isScalar {v : Value} (h : v.isScalar = true) (depth : Nat) :
    '\n' ∉ chars depth v := by
  cases v with
  | undefined => simp [chars_undefined]
  | null => simp [chars_null]
  | bool b => cases b <;> simp [chars_bool]
  | number n => exact fun hfeed => absurd (isNumeric_of_mem_decimal hfeed) (by decide)
  | text s => exact Text.feed_not_mem_quoted _
  | _ => cases h

/-- So does the path of a lazy import. -/
lemma feed_not_mem_lazyImport (depth : Nat) (path : String) :
    '\n' ∉ chars depth (lazyImport path) := by
  simp [chars_lazyImport, Text.feed_not_mem_quoted]

/-- A value of one line has the same text at every depth. -/
lemma chars_of_isScalar {v : Value} (h : v.isScalar = true) (depth depth' : Nat) :
    chars depth v = chars depth' v := by
  cases v with
  | bool b => cases b <;> rfl
  | undefined | null | number | text => rfl
  | _ => cases h

/-- The names of all classes that a value constructs are without line feeds. -/
inductive Unbroken : Value → Prop
  | scalar {v : Value} : v.isScalar = true → Unbroken v
  | array {items : List Value} : (∀ v ∈ items, Unbroken v) → Unbroken (array items)
  | object {entries : List (String × Value)} :
    (∀ e ∈ entries, Unbroken e.2) → Unbroken (object entries)
  | construct {className : String} {args : List Value} :
    '\n' ∉ className.toList → (∀ v ∈ args, Unbroken v) → Unbroken (construct className args)
  | lazyImport (path : String) : Unbroken (lazyImport path)

/-! ## Moving a text to the right -/

/-- A text all lines of which but the first are indented by a further depth. -/
def shifted (more : Nat) (cs : List Char) : List Char :=
  cs.flatMap fun c => if c = '\n' then c :: indent more else [c]

section shifted

variable {more depth : Nat}

@[simp] lemma shifted_nil : shifted more [] = [] := rfl

/-- Texts that follow one another are moved one by one. -/
@[simp] lemma shifted_append (cs cs' : List Char) :
    shifted more (cs ++ cs') = shifted more cs ++ shifted more cs' := List.flatMap_append

/-- Behind a line feed the spaces of the depth are added. -/
@[simp] lemma shifted_feed (cs : List Char) :
    shifted more ('\n' :: cs) = '\n' :: (indent more ++ shifted more cs) := rfl

@[simp] lemma shifted_cons_of_ne {c : Char} (h : c ≠ '\n') (cs : List Char) :
    shifted more (c :: cs) = c :: shifted more cs := by
  simp [shifted, h]

/-- What stays on its line is not moved. -/
lemma shifted_of_not_mem {cs : List Char} (h : '\n' ∉ cs) : shifted more cs = cs := by
  induction cs with
  | nil => rfl
  | cons c cs ih =>
    rw [List.mem_cons, not_or] at h
    rw [shifted_cons_of_ne (Ne.symm h.1), ih h.2]

/-- The spaces of two depths are those of their sum. -/
lemma indent_append_indent (more depth : Nat) : indent more ++ indent depth = indent (depth + more) := by
  rw [indent, indent, List.replicate_append_replicate, indent, Nat.mul_add, Nat.add_comm]

/-- Spaces stay on their line. -/
lemma shifted_indent (more depth : Nat) : shifted more (indent depth) = indent depth :=
  shifted_of_not_mem fun hfeed => absurd (List.eq_of_mem_replicate hfeed) (by decide)

/-- Values on one line are moved if each of them is. -/
lemma shifted_inline {vs : List Value}
    (h : ∀ v ∈ vs, shifted more (chars depth v) = chars (depth + more) v) :
    shifted more (inline depth vs) = inline (depth + more) vs := by
  induction vs with
  | nil => rfl
  | cons v vs ih =>
    have hv := h v List.mem_cons_self
    have hvs := ih fun w hw => h w (List.mem_cons_of_mem _ hw)
    cases vs with
    | nil => simpa only [inline] using hv
    | cons w vs => simp [inline, hv, hvs]

/-- Entries on lines of their own keep the spaces before each of them, also those before what comes
behind the last one. -/
lemma shifted_separated {α : Type} {f g : α → List Char} {as : List α}
    (h : ∀ a ∈ as, indent more ++ shifted more (f a) = g a) :
    indent more ++ shifted more (separated f ['\n'] ['\n'] as) =
      separated g ['\n'] ['\n'] as ++ indent more := by
  induction as with
  | nil => simp [separated]
  | cons a as ih =>
    have ha := h a List.mem_cons_self
    have has := ih fun b hb => h b (List.mem_cons_of_mem _ hb)
    cases as with
    | nil => simp [separated, ← ha]
    | cons b as => simp [separated, ← ha, has]

/-- Entries on lines of their own up to a bracket that closes them. -/
lemma shifted_lines {α : Type} {f g : α → List Char} {as : List α}
    (h : ∀ a ∈ as, indent more ++ shifted more (f a) = g a) {close : Char} (hclose : close ≠ '\n') :
    shifted more ('\n' :: (separated f ['\n'] ['\n'] as ++ indent depth ++ [close])) =
      '\n' :: (separated g ['\n'] ['\n'] as ++ indent (depth + more) ++ [close]) := by
  rw [shifted_feed, shifted_append, shifted_append, shifted_indent, ← List.append_assoc,
    ← List.append_assoc, shifted_separated h, List.append_assoc (separated _ _ _ _),
    indent_append_indent, shifted_cons_of_ne hclose, shifted_nil]

end shifted

/-! ## The text of a value at another depth -/

/-- A value that starts deeper is moved to the right as a whole. -/
lemma Unbroken.shifted {v : Value} (hv : Unbroken v) (more depth : Nat) :
    shifted more (chars depth v) = chars (depth + more) v := by
  -- only a container breaks lines, and each of its lines is indented by so much more
  induction hv generalizing depth with
  | scalar h =>
    rw [shifted_of_not_mem (feed_not_mem_of_isScalar h depth), chars_of_isScalar h]
  | @array items _ ih =>
    rw [chars_array, chars_array, shifted_cons_of_ne (by decide)]
    split
    · simp [shifted_inline fun v hv => ih v hv depth]
    · have hline : ∀ v ∈ items,
          indent more ++ Value.shifted more (indent (depth + 1) ++ chars (depth + 1) v) =
            indent (depth + more + 1) ++ chars (depth + more + 1) v := by
        intro v hv
        rw [shifted_append, shifted_indent, ih v hv, ← List.append_assoc, indent_append_indent,
          Nat.add_right_comm]
      rw [itemLines_eq, itemLines_eq, shifted_lines hline (by decide)]
  | @object entries _ ih =>
    rw [chars_object, chars_object, shifted_cons_of_ne (by decide)]
    split
    · rfl
    · have hline : ∀ e ∈ entries, indent more ++ Value.shifted more (entryChars (depth + 1) e) =
          entryChars (depth + more + 1) e := by
        intro e he
        have hkey : Value.shifted more (keyChars e.1.toList) = keyChars e.1.toList :=
          shifted_of_not_mem (feed_not_mem_keyChars _)
        simp only [entryChars, shifted_append, shifted_indent, hkey, ← List.append_assoc,
          indent_append_indent, Nat.add_right_comm depth more 1]
        rw [shifted_cons_of_ne (by decide), shifted_cons_of_ne (by decide), ih e he]
      rw [entryLines_eq, entryLines_eq, shifted_lines hline (by decide)]
  | construct hname _ ih =>
    rw [chars_construct, chars_construct, shifted_append, shifted_append, shifted_of_not_mem hname,
      shifted_cons_of_ne (by decide), shifted_append, shifted_inline fun v hv => ih v hv depth]
    rfl
  | lazyImport path => exact shifted_of_not_mem (feed_not_mem_lazyImport depth path)

/-! ## How many lines a value takes -/

mutual

/-- The number of line feeds in the layout of a value: one behind an opening bracket that does not
close on its line, one behind each entry in it, and those inside the entries. -/
def lineBreaks : Value → Nat
  | array items => (if items.all isScalar then 0 else 1 + items.length) + lineBreaksOfAll items
  | object entries =>
    (if entries.isEmpty then 0 else 1 + entries.length) + lineBreaksOfEntries entries
  | construct _ args => lineBreaksOfAll args
  | _ => 0

/-- The line feeds inside several values. -/
def lineBreaksOfAll : List Value → Nat
  | [] => 0
  | v :: vs => lineBreaks v + lineBreaksOfAll vs

/-- The line feeds inside the values of several entries. -/
def lineBreaksOfEntries : List (String × Value) → Nat
  | [] => 0
  | e :: es => lineBreaks e.2 + lineBreaksOfEntries es

end

lemma lineBreaksOfAll_eq (vs : List Value) : lineBreaksOfAll vs = (vs.map lineBreaks).sum := by
  induction vs with
  | nil => rfl
  | cons v vs ih => rw [lineBreaksOfAll, ih, List.map_cons, List.sum_cons]

lemma lineBreaksOfEntries_eq (es : List (String × Value)) :
    lineBreaksOfEntries es = (es.map fun e => lineBreaks e.2).sum := by
  induction es with
  | nil => rfl
  | cons e es ih => rw [lineBreaksOfEntries, ih, List.map_cons, List.sum_cons]

/-- There is no line feed in the spaces of a line. -/
lemma count_indent (depth : Nat) : (indent depth).count '\n' = 0 :=
  List.count_eq_zero.2 fun hfeed => absurd (List.eq_of_mem_replicate hfeed) (by decide)

/-- Values on one line have the line feeds that are inside them. -/
lemma count_inline {depth : Nat} {vs : List Value}
    (h : ∀ v ∈ vs, (chars depth v).count '\n' = lineBreaks v) :
    (inline depth vs).count '\n' = lineBreaksOfAll vs := by
  induction vs with
  | nil => rfl
  | cons v vs ih =>
    have hv := h v List.mem_cons_self
    have hvs := ih fun w hw => h w (List.mem_cons_of_mem _ hw)
    cases vs with
    | nil => simp [inline, lineBreaksOfAll, hv]
    | cons w vs => simp [inline, lineBreaksOfAll, hv, hvs]

/-- Each entry on a line of its own brings the line feed behind it. -/
lemma count_separated {α : Type} (f : α → List Char) (as : List α) :
    (separated f ['\n'] ['\n'] as).count '\n' =
      as.length + (as.map fun a => (f a).count '\n').sum := by
  induction as with
  | nil => rfl
  | cons a as ih =>
    have hfirst : (separated f ['\n'] ['\n'] (a :: as)).count '\n' =
        (f a).count '\n' + 1 + (separated f ['\n'] ['\n'] as).count '\n' := by
      cases as <;> simp [separated, Nat.add_assoc, Nat.add_comm 1]
    rw [hfirst, ih, List.map_cons, List.sum_cons, List.length_cons]
    omega

/-- The line feeds in the text of a value are those of its layout. -/
lemma Unbroken.count_feed {v : Value} (hv : Unbroken v) (depth : Nat) :
    (chars depth v).count '\n' = lineBreaks v := by
  induction hv generalizing depth with
  | @scalar v h =>
    rw [List.count_eq_zero.2 (feed_not_mem_of_isScalar h depth)]
    cases v <;> first | rfl | cases h
  | @array items _ ih =>
    rw [chars_array, lineBreaks]
    split
    · simp [count_inline fun v hv => ih v hv depth]
    · have hlines : (itemLines (depth + 1) items).count '\n' =
          items.length + lineBreaksOfAll items := by
        rw [itemLines_eq, count_separated, lineBreaksOfAll_eq]
        congr 2
        refine List.map_congr_left fun v hv => ?_
        rw [List.count_append, count_indent, ih v hv, Nat.zero_add]
      simp [hlines, count_indent]
      omega
  | @object entries _ ih =>
    rw [chars_object, lineBreaks]
    split
    · next hempty =>
      rw [List.isEmpty_iff.1 hempty]
      rfl
    · have hlines : (entryLines (depth + 1) entries).count '\n' =
          entries.length + lineBreaksOfEntries entries := by
        rw [entryLines_eq, count_separated, lineBreaksOfEntries_eq]
        congr 2
        refine List.map_congr_left fun e he => ?_
        have hkey := List.count_eq_zero.2 (feed_not_mem_keyChars e.1.toList)
        simp [entryChars, count_indent, hkey, ih e he]
      simp [hlines, count_indent]
      omega
  | construct hname _ ih =>
    rw [chars_construct, lineBreaks]
    simp [List.count_eq_zero.2 hname, count_inline fun v hv => ih v hv depth]
  | lazyImport path => exact List.count_eq_zero.2 (feed_not_mem_lazyImport depth path)

/-! ## Nested values -/

/-- The text of a value at a depth is its text at depth zero with four spaces for each level of the
depth behind every line feed. There are as many line feeds as the nesting of the value tells, and
none in what is written of a text, a path or a key. -/
theorem chars_eq_shifted {v : Value} (hv : Unbroken v) (depth : Nat) :
    chars depth v = (chars 0 v).flatMap (fun c =>
        if c = '\n' then c :: List.replicate (4 * depth) ' ' else [c]) ∧
      (chars depth v).count '\n' = lineBreaks v ∧
      ∀ s : List Char, '\n' ∉ Text.quoted s ∧ '\n' ∉ keyChars s := by
  refine ⟨?_, hv.count_feed depth, fun s => ⟨Text.feed_not_mem_quoted s, feed_not_mem_keyChars s⟩⟩
  have hshifted := hv.shifted depth 0
  rw [Nat.zero_add] at hshifted
  exact hshifted.symm

namespace Sample

/-- A class with a text of two lines and an object, below whose key of two lines there are an object
in an array and the path of a module in a directory of two lines. -/
def twoLined : Value :=
  .construct "Data" [.text "a\nb",
    .object [("k\nl", .array [.object [("n", .number 1)], .lazyImport "../a\nb/c.ts"])]]

/-- The class of the sample has no line feed in its name. -/
lemma unbroken_twoLined : Unbroken twoLined := by
  have hentry : Unbroken (.object [("n", .number 1)]) := .object (by simpa using .scalar rfl)
  have hobject : Unbroken
      (.object [("k\nl", .array [.object [("n", .number 1)], .lazyImport "../a\nb/c.ts"])]) :=
    .object (by simpa using .array (by simpa using ⟨hentry, .lazyImport _⟩))
  exact .construct (by decide) (by simpa using ⟨.scalar rfl, hobject⟩)

end Sample

/-- Of the line feeds in the sample only the seven of its layout are written, and two levels down
eight more spaces stand behind each of them. -/
theorem chars_eq_shifted_of_twoLined : Unbroken Sample.twoLined ∧
    chars 2 Sample.twoLined = (chars 0 Sample.twoLined).flatMap (fun c =>
      if c = '\n' then [c, ' ', ' ', ' ', ' ', ' ', ' ', ' ', ' '] else [c]) ∧
    (chars 2 Sample.twoLined).count '\n' = 7 := by
  obtain ⟨hchars, hcount, -⟩ := chars_eq_shifted Sample.unbroken_twoLined 2
  exact ⟨Sample.unbroken_twoLined, hchars, hcount⟩

end StoreBindings.Generate.Value
