import Mathlib.Data.List.TakeDrop
import StoreBindings.Proofs.Generate.Value
import StoreBindings.Proofs.Json.Leaves

/-!
# Values are read back

A decoder for values in generated code: `decode?`. It goes by the tokens of the text and passes over
spaces and line feeds between them, so it does not depend on how deep a value is indented or whether
an array has a line for each item. What is written for a value is decoded to that value, whatever
texts, keys and paths it holds (`decode?_render`).

* `readAll` — a list with commas up to its closing character, given a reader for one element.
* `readAll_separated` — it undoes `separated`, the form of all lists in generated code.
* `Reads` — the value at the front of a text is read, and what follows it is left.
-/

namespace StoreBindings.Generate.Value

open Json (skip isSpace IsSpaced isSpace_eq_false skip_append skip_eq_self span_append)

/-! ## The decoder -/

/-- What follows a word, spaces before it aside. -/
def after? (word cs : List Char) : Option (List Char) := (skip cs).dropPrefix? word

/-- A quoted text, and what follows it. -/
def readQuoted (cs : List Char) : Option (String × List Char) := do
  let (s, rest) ← Json.readText (← after? ['"'] cs)
  return (← s, rest)

/-- Elements with commas between them up to a closing character, and what follows it. -/
def readAll {α : Type} (one : List Char → Option (α × List Char)) (close : Char) :
    Nat → List Char → Option (List α × List Char)
  | 0, _ => none
  | fuel + 1, cs =>
    match one (skip cs) with
    | none => (after? [close] cs).map ([], ·)
    | some (a, cs) =>
      match after? [','] cs with
      | none => (after? [close] cs).map ([a], ·)
      | some cs => (readAll one close fuel cs).map fun (as, rest) => (a :: as, rest)

/-- A key with or without quotes, and what follows it. -/
def readKey (cs : List Char) : Option (String × List Char) :=
  let (bare, rest) := cs.span continuesBareKey
  if isBareKey bare then some (String.ofList bare, rest) else readQuoted cs

/-- An entry of an object, and what follows it. -/
def readEntry (one : List Char → Option (Value × List Char)) (cs : List Char) :
    Option ((String × Value) × List Char) := do
  let (key, cs) ← readKey cs
  let (v, rest) ← one (skip (← after? [':'] cs))
  return ((key, v), rest)

/-- The whole number that digits spell, with a sign or without. -/
def wholeOf : List Char → Int
  | '-' :: digits => -Nat.ofDigitChars 10 digits 0
  | digits => Nat.ofDigitChars 10 digits 0

/-- The value at the front of a text, and what follows it. Each level of nesting and each element of
a list uses up fuel. -/
def readValue : Nat → List Char → Option (Value × List Char)
  | 0, _ => none
  | fuel + 1, cs =>
    match shapeAt cs with
    | none => none
    | some .undefined => (after? "undefined".toList cs).map (undefined, ·)
    | some .null => (after? "null".toList cs).map (null, ·)
    | some .bool =>
      ((after? "true".toList cs).map (bool true, ·)).or
        ((after? "false".toList cs).map (bool false, ·))
    | some .number =>
      let (digits, rest) := cs.span isNumeric
      some (number (wholeOf digits), rest)
    | some .text => (readQuoted cs).map fun (s, rest) => (text s, rest)
    | some .array => do
      let (items, rest) ← readAll (readValue fuel) ']' fuel (← after? ['['] cs)
      return (array items, rest)
    | some .object => do
      let (entries, rest) ← readAll (readEntry (readValue fuel)) '\x7d' fuel (← after? ['\x7b'] cs)
      return (object entries, rest)
    | some .construct => do
      let (name, cs) := (← after? "new ".toList cs).span (· != '(')
      let (args, rest) ← readAll (readValue fuel) ')' fuel (← after? ['('] cs)
      return (construct (String.ofList name) args, rest)
    | some .lazyImport => do
      let (path, cs) ← readQuoted (← after? "() => import.meta.glob(".toList cs)
      return (lazyImport path, ← after? ", \x7b eager: true \x7d)".toList cs)

/-- The value that a text is written for. -/
def decode? (s : String) : Option Value := do
  let (v, rest) ← readValue s.toList.length s.toList
  guard rest.isEmpty
  return v

/-! ## Words and texts -/

lemma after?_append (c : Char) (cs rest : List Char) (h : isSpace c = false) :
    after? (c :: cs) (c :: cs ++ rest) = some rest := by
  rw [after?, skip_eq_self (by simpa using h)]
  exact List.dropPrefix?_append_of_beq _ (beq_self_eq_true _)

lemma readQuoted_quoted (cs rest : List Char) :
    readQuoted (Text.quoted cs ++ rest) = some (String.ofList cs, rest) := by
  have hquote : after? ['"'] (Text.quoted cs ++ rest) =
      some (cs.flatMap Text.escape ++ '"' :: rest) := by
    rw [Text.quoted, List.cons_append, List.append_assoc]
    exact after?_append '"' [] _ rfl
  rw [readQuoted, hquote]
  simp [Text.readText_escaped]

/-! ## Lists -/

section lists

variable {α : Type} {one : List Char → Option (α × List Char)} {f : α → List Char}
  {gap last : List Char} {close : Char}

/-- Nothing that could belong to a number stands before a closing character or a comma. -/
lemma stops_of_skip {cs rest : List Char} {c : Char} (h : skip cs = c :: rest)
    (hc : isNumeric c = false) : Stops cs := by
  cases cs with
  | nil => cases h
  | cons d cs =>
    by_cases hd : isNumeric d = true
    · have hspace : isSpace d = false := isSpace_eq_false isNumeric hd rfl
      rw [skip_eq_self (by simpa using hspace)] at h
      rw [(List.cons.inj h).1, hc] at hd
      cases hd
    · simpa [Stops] using hd

/-- Spaces before a list make no difference. -/
lemma readAll_append {spaces : List Char} (h : IsSpaced spaces) (fuel : Nat) (cs : List Char) :
    readAll one close fuel (spaces ++ cs) = readAll one close fuel cs := by
  cases fuel with
  | zero => rfl
  | succ fuel => rw [readAll, readAll, after?, after?, skip_append h]

/-- A list in generated code is read up to its closing character, if its elements are read one by
one. -/
theorem readAll_separated {as : List α} {tail rest : List Char} {fuel : Nat}
    (hclose : close ≠ ',' ∧ isNumeric close = false) (hgap : IsSpaced gap) (hlast : IsSpaced last)
    (hnone : ∀ t, one (close :: t) = none)
    (hone : ∀ a ∈ as, ∀ t, Stops t → one (skip (f a ++ t)) = some (a, t))
    (htail : skip tail = close :: rest) (hfuel : as.length < fuel) :
    readAll one close fuel (separated f gap last as ++ tail) = some (as, rest) := by
  -- the closing sign is no comma, so it ends the list wherever it is met
  have hafter : ∀ {cs}, skip cs = close :: rest →
      after? [','] cs = none ∧ after? [close] cs = some rest := by
    intro cs hcs
    rw [after?, after?, hcs]
    exact ⟨by simp [List.dropPrefix?, hclose.1],
      List.dropPrefix?_append_of_beq rest (beq_self_eq_true [close])⟩
  induction as generalizing fuel with
  | nil =>
    obtain ⟨fuel, rfl⟩ : ∃ k, fuel = k + 1 := ⟨fuel - 1, by omega⟩
    rw [separated, List.nil_append, readAll, htail, hnone]
    dsimp only
    rw [(hafter htail).2]
    rfl
  | cons a as ih =>
    obtain ⟨fuel, rfl⟩ : ∃ k, fuel = k + 1 := ⟨fuel - 1, by omega⟩
    have hhead := hone a List.mem_cons_self
    -- an item is followed by a comma, and the last one by the closing sign
    cases as with
    | nil =>
      have hskip : skip (last ++ tail) = close :: rest := by rw [skip_append hlast, htail]
      rw [separated, List.append_assoc, readAll, hhead _ (stops_of_skip hskip hclose.2)]
      dsimp only
      rw [(hafter hskip).1, (hafter hskip).2]
      rfl
    | cons b as =>
      have hcomma : ∀ t, Stops (',' :: t) := fun _ => rfl
      have hmore : ∀ t, after? [','] (',' :: t) = some t := fun t => after?_append ',' [] t rfl
      rw [separated, List.append_assoc, List.cons_append, readAll, hhead _ (hcomma _)]
      dsimp only
      rw [hmore, List.append_assoc]
      dsimp only
      rw [readAll_append hgap, ih (fun a ha => hone a (List.mem_cons_of_mem _ ha))
        (by simpa using hfuel)]
      rfl

/-- The text of a list has room for each element, and a character for each of the others. -/
lemma length_le_separated {as : List α} {a : α} (h : a ∈ as) :
    (f a).length + as.length ≤ (separated f gap last as).length + 1 := by
  induction as generalizing a with
  | nil => cases h
  | cons b as ih =>
    cases as with
    | nil =>
      rw [List.mem_singleton.1 h]
      simp [separated]
    | cons b' as =>
      have hrest := ih List.mem_cons_self
      simp only [separated, List.length_append, List.length_cons] at hrest ⊢
      rcases List.mem_cons.1 h with rfl | h
      · omega
      · have hlater := ih h
        simp only [List.length_cons] at hlater
        omega

end lists

/-! ## Values -/

lemma isSpaced_indent (depth : Nat) : IsSpaced (indent depth) := fun c hc => by
  rw [(List.mem_replicate.1 hc).2]
  rfl

/-- No value begins with a space. -/
lemma skip_chars (depth : Nat) (v : Value) (rest : List Char) :
    skip (chars depth v ++ rest) = chars depth v ++ rest := by
  have hshape := shapeAt_chars depth v rest
  refine skip_eq_self ?_
  cases hcs : chars depth v ++ rest with
  | nil => rfl
  | cons c cs =>
    have hsome : (shapeAt (c :: cs)).isSome = true := by rw [← hcs, hshape, Option.isSome_some]
    have hspace : isSpace c = false := isSpace_eq_false (fun c => (shapeAt (c :: cs)).isSome) hsome rfl
    simpa using hspace

lemma chars_ne_nil (depth : Nat) (v : Value) : chars depth v ≠ [] := fun h => by
  have hshape := shapeAt_chars depth v []
  rw [h] at hshape
  cases hshape

/-- The value is read where its text stands, and what follows it is left. -/
def Reads (v : Value) : Prop :=
  ∀ {depth fuel : Nat} {rest : List Char}, Stops rest → (chars depth v).length ≤ fuel →
    readValue fuel (chars depth v ++ rest) = some (v, rest)

/-- What is read of the front of a key that is written without quotes is the key. -/
lemma readKey_keyChars (key rest : List Char) :
    readKey (keyChars key ++ ':' :: rest) = some (String.ofList key, ':' :: rest) := by
  rw [readKey, keyChars]
  by_cases hkey : isBareKey key = true
  · rw [if_pos hkey, span_append continuesBareKey (continuesBareKey_of_isBareKey hkey) rfl]
    dsimp only
    rw [if_pos hkey]
  · rw [if_neg hkey]
    have hspan : (Text.quoted key ++ ':' :: rest).span continuesBareKey =
        ([], Text.quoted key ++ ':' :: rest) := span_append (l := []) continuesBareKey (by simp) rfl
    rw [hspan]
    exact readQuoted_quoted key (':' :: rest)

/-- No key begins with a space. -/
lemma skip_keyChars (key rest : List Char) :
    skip (keyChars key ++ rest) = keyChars key ++ rest := by
  refine skip_eq_self ?_
  rw [keyChars]
  split
  · next hkey =>
    cases key with
    | nil => cases hkey
    | cons c cs =>
      have hc := continuesBareKey_of_isBareKey hkey c List.mem_cons_self
      have hspace : isSpace c = false := isSpace_eq_false continuesBareKey hc rfl
      simpa using hspace
  · rfl

/-- An entry is read where its line stands, if its value is read there. -/
lemma readEntry_entryChars {depth fuel : Nat} {e : String × Value} {rest : List Char}
    (h : readValue fuel (chars depth e.2 ++ rest) = some (e.2, rest)) :
    readEntry (readValue fuel) (skip (entryChars depth e ++ rest)) = some (e, rest) := by
  have hline : entryChars depth e ++ rest =
      indent depth ++ (keyChars e.1.toList ++ ':' :: (' ' :: (chars depth e.2 ++ rest))) := by
    simp [entryChars]
  have hcolon : ∀ t, after? [':'] (':' :: t) = some t := fun t => after?_append ':' [] t rfl
  have hspace : skip (' ' :: (chars depth e.2 ++ rest)) = chars depth e.2 ++ rest :=
    skip_chars depth e.2 rest
  rw [hline, skip_append (isSpaced_indent depth), skip_keyChars, readEntry, readKey_keyChars]
  dsimp only [Option.bind_eq_bind, Option.bind_some]
  rw [hcolon]
  dsimp only [Option.bind_some]
  rw [hspace, h]
  simp

lemma inline_eq (depth : Nat) (vs : List Value) :
    inline depth vs = separated (chars depth) [' '] [] vs := by
  induction vs with
  | nil => rfl
  | cons v vs ih => cases vs <;> simp_all [inline, separated]

section readAll

variable {vs : List Value} {es : List (String × Value)} {depth depth' fuel : Nat}

/-- A list has fewer elements than its text has characters, and so have the texts of its elements. -/
lemma fuel_suffices {α : Type} {f : α → List Char} {gap last : List Char} {as : List α}
    (hf : ∀ a ∈ as, f a ≠ []) (hfuel : (separated f gap last as).length < fuel) :
    as.length < fuel ∧ ∀ a ∈ as, (f a).length ≤ fuel := by
  have hroom : ∀ a ∈ as, (f a).length + as.length ≤ fuel ∧ 0 < (f a).length := fun a ha =>
    ⟨Nat.le_trans (length_le_separated ha) hfuel, List.length_pos_of_ne_nil (hf a ha)⟩
  refine ⟨?_, fun a ha => ?_⟩
  · cases as with
    | nil => exact Nat.zero_lt_of_lt hfuel
    | cons a as =>
      have := hroom a List.mem_cons_self
      omega
  · have := hroom a ha
    omega

/-- Values with spaces before them are read up to the closing character. -/
lemma readAll_values (h : ∀ v ∈ vs, Reads v) {spaces gap last tail rest : List Char} {close : Char}
    (hspaces : IsSpaced spaces) (hgap : IsSpaced gap) (hlast : IsSpaced last)
    (hclose : close = ')' ∨ close = ']') (htail : skip tail = close :: rest)
    (hfuel : (separated (fun v => spaces ++ chars depth v) gap last vs).length < fuel) :
    readAll (readValue fuel) close fuel
      (separated (fun v => spaces ++ chars depth v) gap last vs ++ tail) = some (vs, rest) := by
  obtain ⟨hlength, hroom⟩ := fuel_suffices
    (fun v _ hnil => chars_ne_nil depth v (List.append_eq_nil_iff.1 hnil).2) hfuel
  have hnone : ∀ t, readValue fuel (close :: t) = none := by
    intro t
    cases fuel with
    | zero => rfl
    | succ fuel => rcases hclose with rfl | rfl <;> rfl
  refine readAll_separated ?_ hgap hlast hnone (fun v hv t ht => ?_) htail hlength
  · rcases hclose with rfl | rfl <;> decide
  · rw [List.append_assoc, skip_append hspaces, skip_chars]
    have := hroom v hv
    rw [List.length_append] at this
    exact h v hv ht (by omega)

/-- Values in one line are read up to the closing character. -/
lemma readAll_inline (h : ∀ v ∈ vs, Reads v) {close : Char} (hclose : close = ')' ∨ close = ']')
    (hfuel : (inline depth vs).length < fuel) (rest : List Char) :
    readAll (readValue fuel) close fuel (inline depth vs ++ close :: rest) = some (vs, rest) := by
  have htail : skip (close :: rest) = close :: rest := by rcases hclose with rfl | rfl <;> rfl
  rw [inline_eq] at hfuel ⊢
  have hnil : IsSpaced [] := by simp [IsSpaced]
  exact readAll_values h hnil (by simp [IsSpaced, isSpace]) hnil hclose htail hfuel

/-- Values in lines of their own are read up to the closing bracket. -/
lemma readAll_itemLines (h : ∀ v ∈ vs, Reads v) (hfuel : (itemLines depth vs).length < fuel)
    (rest : List Char) :
    readAll (readValue fuel) ']' fuel (itemLines depth vs ++ (indent depth' ++ ']' :: rest)) =
      some (vs, rest) := by
  have htail : skip (indent depth' ++ ']' :: rest) = ']' :: rest := skip_append (isSpaced_indent _) _
  rw [itemLines_eq] at hfuel ⊢
  exact readAll_values h (isSpaced_indent depth) (by simp [IsSpaced, isSpace])
    (by simp [IsSpaced, isSpace]) (.inr rfl) htail hfuel

/-- Entries are read up to the closing brace. -/
lemma readAll_entryLines (h : ∀ e ∈ es, Reads e.2) (hfuel : (entryLines depth es).length < fuel)
    (rest : List Char) :
    readAll (readEntry (readValue fuel)) '\x7d' fuel
      (entryLines depth es ++ (indent depth' ++ '\x7d' :: rest)) = some (es, rest) := by
  have htail : skip (indent depth' ++ '\x7d' :: rest) = '\x7d' :: rest :=
    skip_append (isSpaced_indent _) _
  rw [entryLines_eq] at hfuel ⊢
  obtain ⟨hlength, hroom⟩ := fuel_suffices (fun e _ => by simp [entryChars]) hfuel
  refine readAll_separated (by decide) (by simp [IsSpaced, isSpace]) (by simp [IsSpaced, isSpace])
    ?_ (fun e he t ht => ?_) htail hlength
  · exact fun t => rfl
  · have := hroom e he
    simp only [entryChars, List.length_append, List.length_cons] at this
    exact readEntry_entryChars (h e he ht (by omega))

end readAll

/-! ## Values -/

/-- It is enough that a value is read if there is some fuel: its text is not empty. -/
lemma reads_of {v : Value} (h : ∀ (depth fuel : Nat) (rest : List Char), Stops rest →
    (chars depth v).length ≤ fuel + 1 →
      readValue (fuel + 1) (chars depth v ++ rest) = some (v, rest)) : Reads v := by
  intro depth fuel rest hrest hfuel
  have hpos := List.length_pos_of_ne_nil (chars_ne_nil depth v)
  obtain ⟨fuel, rfl⟩ : ∃ k, fuel = k + 1 := ⟨fuel - 1, by omega⟩
  exact h depth fuel rest hrest hfuel

lemma wholeOf_decimal (n : Int) : wholeOf (decimal n) = n := by
  rw [decimal_eq]
  split
  · have hsign : ∀ cs, Nat.toDigits 10 n.toNat ≠ '-' :: cs := fun cs h => by
      have hdigit := Nat.isDigit_of_mem_toDigits (b := 10) (n := n.toNat) (c := '-') (by decide)
        (by decide) (by rw [h]; exact List.mem_cons_self)
      exact absurd hdigit (by decide)
    rw [wholeOf, Nat.ofDigitChars_ten_toDigits]
    · omega
    · exact hsign
  · rw [wholeOf, Nat.ofDigitChars_ten_toDigits]
    omega

lemma reads_number (n : Int) : Reads (number n) := by
  refine reads_of fun depth fuel rest hrest _ => ?_
  have hspan : (decimal n ++ rest).span isNumeric = (decimal n, rest) :=
    span_append isNumeric (fun c => isNumeric_of_mem_decimal) hrest
  rw [readValue, shapeAt_chars]
  dsimp only [shape]
  rw [chars_number, hspan]
  dsimp only
  rw [wholeOf_decimal]

lemma reads_text (s : String) : Reads (text s) := by
  refine reads_of fun depth fuel rest _ _ => ?_
  rw [readValue, shapeAt_chars]
  dsimp only [shape]
  rw [chars_text, readQuoted_quoted, String.ofList_toList]
  rfl

lemma reads_bool (b : Bool) : Reads (bool b) := by
  refine reads_of fun depth fuel rest _ _ => ?_
  rw [readValue, shapeAt_chars]
  dsimp only [shape]
  cases b with
  | true =>
    have htrue : after? "true".toList ("true".toList ++ rest) = some rest :=
      after?_append 't' "rue".toList rest rfl
    rw [chars_bool, if_pos rfl, htrue]
    rfl
  | false =>
    have hfalse : after? "false".toList ("false".toList ++ rest) = some rest :=
      after?_append 'f' "alse".toList rest rfl
    have htrue : after? "true".toList ("false".toList ++ rest) = none := rfl
    rw [chars_bool, if_neg Bool.false_ne_true, htrue, hfalse]
    rfl

lemma reads_array {items : List Value} (h : ∀ v ∈ items, Reads v) : Reads (array items) := by
  refine reads_of fun depth fuel rest _ hfuel => ?_
  have hopen : ∀ t, after? ['['] ('[' :: t) = some t := fun t => after?_append '[' [] t rfl
  rw [readValue, shapeAt_chars]
  dsimp only [shape]
  rw [chars_array] at hfuel ⊢
  rw [List.cons_append, hopen]
  dsimp only [Option.bind_eq_bind, Option.bind_some]
  by_cases hscalar : items.all isScalar = true
  · rw [if_pos hscalar] at hfuel ⊢
    simp only [List.length_cons, List.length_append] at hfuel
    rw [List.append_assoc, List.singleton_append, readAll_inline h (.inr rfl) (by omega)]
    rfl
  · have hfeed : IsSpaced ['\n'] := by simp [IsSpaced, isSpace]
    rw [if_neg hscalar] at hfuel ⊢
    simp only [List.length_cons, List.length_append] at hfuel
    rw [List.cons_append, ← List.singleton_append, readAll_append hfeed, List.append_assoc,
      List.append_assoc, List.singleton_append, readAll_itemLines h (by omega)]
    rfl

lemma reads_object {entries : List (String × Value)} (h : ∀ e ∈ entries, Reads e.2) :
    Reads (object entries) := by
  refine reads_of fun depth fuel rest _ hfuel => ?_
  have hopen : ∀ t, after? ['\x7b'] ('\x7b' :: t) = some t := fun t => after?_append '\x7b' [] t rfl
  rw [readValue, shapeAt_chars]
  dsimp only [shape]
  rw [chars_object] at hfuel ⊢
  rw [List.cons_append, hopen]
  dsimp only [Option.bind_eq_bind, Option.bind_some]
  by_cases hempty : entries.isEmpty = true
  · rw [if_pos hempty] at hfuel ⊢
    simp only [List.length_cons, List.length_nil] at hfuel
    have hend : readAll (readEntry (readValue fuel)) '\x7d' fuel
        (entryLines 0 [] ++ (indent 0 ++ '\x7d' :: rest)) = some ([], rest) :=
      readAll_entryLines (by simp) (show 0 < fuel by omega) rest
    rw [List.isEmpty_iff.1 hempty]
    show (readAll _ _ _ (entryLines 0 [] ++ (indent 0 ++ '\x7d' :: rest))).bind _ = _
    rw [hend]
    rfl
  · have hfeed : IsSpaced ['\n'] := by simp [IsSpaced, isSpace]
    rw [if_neg hempty] at hfuel ⊢
    simp only [List.length_cons, List.length_append] at hfuel
    rw [List.cons_append, ← List.singleton_append, readAll_append hfeed, List.append_assoc,
      List.append_assoc, List.singleton_append, readAll_entryLines h (by omega)]
    rfl

lemma reads_construct {className : String} {args : List Value} (hname : '(' ∉ className.toList)
    (h : ∀ v ∈ args, Reads v) : Reads (construct className args) := by
  refine reads_of fun depth fuel rest _ hfuel => ?_
  have hnew : ∀ t, after? "new ".toList ("new ".toList ++ t) = some t :=
    fun t => after?_append 'n' "ew ".toList t rfl
  have hopen : ∀ t, after? ['('] ('(' :: t) = some t := fun t => after?_append '(' [] t rfl
  -- the class name has no parenthesis, so it ends at the first one
  have hspan : ∀ t, (className.toList ++ '(' :: t).span (· != '(') = (className.toList, '(' :: t) :=
    fun t => span_append (· != '(') (fun c hc => bne_iff_ne.2 fun he => hname (he ▸ hc)) rfl
  rw [readValue, shapeAt_chars]
  dsimp only [shape]
  rw [chars_construct] at hfuel ⊢
  simp only [List.length_cons, List.length_append] at hfuel
  rw [List.append_assoc, List.append_assoc, hnew]
  dsimp only [Option.bind_eq_bind, Option.bind_some]
  rw [List.cons_append, hspan]
  dsimp only
  rw [hopen]
  dsimp only [Option.bind_some]
  rw [List.append_assoc, List.singleton_append, readAll_inline h (.inl rfl) (by omega),
    String.ofList_toList]
  rfl

lemma reads_lazyImport (path : String) : Reads (lazyImport path) := by
  refine reads_of fun depth fuel rest _ _ => ?_
  have hopen : ∀ t, after? "() => import.meta.glob(".toList
      ("() => import.meta.glob(".toList ++ t) = some t :=
    fun t => after?_append '(' ") => import.meta.glob(".toList t rfl
  have hclose : after? ", \x7b eager: true \x7d)".toList
      (", \x7b eager: true \x7d)".toList ++ rest) = some rest :=
    after?_append ',' " \x7b eager: true \x7d)".toList rest rfl
  rw [readValue, shapeAt_chars]
  dsimp only [shape]
  rw [chars_lazyImport, List.append_assoc, List.append_assoc, hopen]
  dsimp only [Option.bind_eq_bind, Option.bind_some]
  rw [readQuoted_quoted]
  dsimp only [Option.bind_some]
  rw [hclose, String.ofList_toList]
  rfl

/-- What is written for a value is read. -/
lemma Legible.reads {v : Value} (h : Legible v) : Reads v := by
  induction h with
  | undefined =>
    refine reads_of fun depth fuel rest _ _ => ?_
    have hword : after? "undefined".toList ("undefined".toList ++ rest) = some rest :=
      after?_append 'u' "ndefined".toList rest rfl
    rw [readValue, shapeAt_chars]
    dsimp only [shape]
    rw [chars_undefined, hword]
    rfl
  | null =>
    refine reads_of fun depth fuel rest _ _ => ?_
    have hword : after? "null".toList ("null".toList ++ rest) = some rest :=
      after?_append 'n' "ull".toList rest rfl
    rw [readValue, shapeAt_chars]
    dsimp only [shape]
    rw [chars_null, hword]
    rfl
  | bool b => exact reads_bool b
  | number n => exact reads_number n
  | text s => exact reads_text s
  | array _ ih => exact reads_array ih
  | object _ ih => exact reads_object ih
  | construct hname _ ih => exact reads_construct hname ih
  | lazyImport path => exact reads_lazyImport path

/-! ## Class names -/

mutual

/-- The names of the classes that a value constructs. -/
def classNames : Value → List String
  | array items => classNamesIn items
  | object entries => classNamesOf entries
  | construct className args => className :: classNamesIn args
  | _ => []

def classNamesIn : List Value → List String
  | [] => []
  | v :: vs => classNames v ++ classNamesIn vs

def classNamesOf : List (String × Value) → List String
  | [] => []
  | (_, v) :: es => classNames v ++ classNamesOf es

end

mutual

/-- A value is legible if no class that it constructs has a parenthesis in its name. -/
theorem legible_of_classNames : ∀ {v : Value},
    (∀ name ∈ classNames v, '(' ∉ name.toList) → Legible v
  | undefined, _ => .undefined
  | null, _ => .null
  | bool b, _ => .bool b
  | number n, _ => .number n
  | text s, _ => .text s
  | array _, h => .array (legible_of_classNamesIn h)
  | object _, h => .object (legible_of_classNamesOf h)
  | construct className _, h =>
    .construct (h className List.mem_cons_self)
      (legible_of_classNamesIn fun name hname => h name (List.mem_cons_of_mem _ hname))
  | lazyImport path, _ => .lazyImport path

theorem legible_of_classNamesIn : ∀ {vs : List Value},
    (∀ name ∈ classNamesIn vs, '(' ∉ name.toList) → ∀ v ∈ vs, Legible v
  | [], _ => by simp
  | v :: vs, h => by
    rw [classNamesIn, List.forall_mem_append] at h
    exact List.forall_mem_cons.2 ⟨legible_of_classNames h.1, legible_of_classNamesIn h.2⟩

theorem legible_of_classNamesOf : ∀ {es : List (String × Value)},
    (∀ name ∈ classNamesOf es, '(' ∉ name.toList) → ∀ e ∈ es, Legible e.2
  | [], _ => by simp
  | (key, v) :: es, h => by
    rw [classNamesOf, List.forall_mem_append] at h
    exact List.forall_mem_cons.2 ⟨legible_of_classNames h.1, legible_of_classNamesOf h.2⟩

end

/-! ## Decoding -/

/-- What is written for a value whose classes are identifiers is decoded to the value; so no other
such value is written in the same way. -/
theorem decode?_render {v : Value} (hv : ∀ name ∈ v.classNames, isBareKey name.toList = true) :
    decode? v.render = some v ∧ ∀ w : Value,
      (∀ name ∈ w.classNames, isBareKey name.toList = true) → w.render = v.render → w = v := by
  have hdecode : ∀ {w : Value}, (∀ name ∈ w.classNames, isBareKey name.toList = true) →
      decode? w.render = some w := by
    intro w hw
    have hlegible : Legible w := legible_of_classNames fun name hname hparen => by
      have hbare := continuesBareKey_of_isBareKey (hw name hname) _ hparen
      exact absurd hbare (by decide)
    have hstops : Stops [] := rfl
    have hread := hlegible.reads hstops (Nat.le_refl (chars 0 w).length)
    rw [List.append_nil] at hread
    rw [decode?, render, String.toList_ofList, hread]
    rfl
  refine ⟨hdecode hv, fun w hw h => ?_⟩
  have hboth := hdecode hw
  rw [h, hdecode hv] at hboth
  exact (Option.some.inj hboth).symm

namespace Sample

/-- A construction with texts that look like code, and with a key and a path that need escapes. -/
def nested : Value :=
  .construct "Data" [.object [("new", .text "new Data()"), ("\"]", .array [.number (-3), .undefined]),
    ("list", .array [.array [], .null])], .lazyImport "\", \x7b"]

end Sample

/-- The construction is read back. -/
theorem decode?_nested : (∀ name ∈ Sample.nested.classNames, isBareKey name.toList = true) ∧
    Sample.nested.render = "new Data(\x7b\n    new: \"new Data()\",\n    \"\\\"]\": [-3, undefined]," ++
      "\n    list: [\n        [],\n        null\n    ]\n\x7d, " ++
      "() => import.meta.glob(\"\\\", \x7b\", \x7b eager: true \x7d))" ∧
    decode? Sample.nested.render = some Sample.nested := by
  have hnames : ∀ name ∈ Sample.nested.classNames, isBareKey name.toList = true := by decide
  exact ⟨hnames, by decide +kernel, (decode?_render hnames).1⟩

end StoreBindings.Generate.Value
