import Mathlib.Data.List.Basic
import StoreBindings.Generate.Value
import StoreBindings.Proofs.Text.Quoted

/-!
# A value is determined by its text

Two values with one text are one value: `render_inj`. The text of a value is never the front of the
text of another one, so a reader who knows what may stand at a place can tell where a value ends and
which value it was, however deep it is nested and whatever the texts in it hold.

* `Shape` — the constructor of a value, which the first two characters of its text tell.
* `separated` — the one form that the three kinds of lists in generated code have: entries with a
  comma after all but the last. If the entries can be told apart, so can lists of them.
* `Legible` — the one condition: a class that is constructed has no opening parenthesis in its name,
  as the name is written without quotes.
-/

namespace StoreBindings.Generate.Value

/-! ## The text of each sort of value -/

section chars

variable (depth : Nat)

lemma chars_undefined : chars depth undefined = "undefined".toList := rfl

lemma chars_null : chars depth null = "null".toList := rfl

/-- A truth value is one of two words. -/
lemma chars_bool (b : Bool) :
    chars depth (bool b) = if b then "true".toList else "false".toList := by
  cases b <;> rfl

lemma chars_number (n : Int) : chars depth (number n) = decimal n := rfl

lemma chars_text (s : String) : chars depth (text s) = Text.quoted s.toList := rfl

/-- An array of scalars stands on one line, any other has a line for each item. -/
lemma chars_array (items : List Value) : chars depth (array items) = '[' ::
    if items.all isScalar then inline depth items ++ [']']
    else '\n' :: (itemLines (depth + 1) items ++ indent depth ++ [']']) := by
  cases items with
  | nil => rfl
  | cons v vs => show ite _ _ _ = _; split <;> rfl

/-- An object has a line for each entry. -/
lemma chars_object (entries : List (String × Value)) : chars depth (object entries) = '\x7b' ::
    if entries.isEmpty then ['\x7d']
    else '\n' :: (entryLines (depth + 1) entries ++ indent depth ++ ['\x7d']) := by
  cases entries <;> rfl

/-- The arguments of a class that is constructed stand on one line. -/
lemma chars_construct (className : String) (args : List Value) :
    chars depth (construct className args) =
      "new ".toList ++ className.toList ++ '(' :: (inline depth args ++ [')']) := rfl

lemma chars_lazyImport (path : String) : chars depth (lazyImport path) =
    "() => import.meta.glob(".toList ++ Text.quoted path.toList ++
      ", \x7b eager: true \x7d)".toList := rfl

end chars

/-! ## What a text begins with -/

/-- The sorts of values. -/
inductive Shape
  | undefined | null | bool | number | text | array | object | construct | lazyImport
deriving DecidableEq

def shape : Value → Shape
  | undefined => .undefined
  | null => .null
  | bool _ => .bool
  | number _ => .number
  | text _ => .text
  | array _ => .array
  | object _ => .object
  | construct .. => .construct
  | lazyImport _ => .lazyImport

/-- The characters of whole numbers. -/
def isNumeric (c : Char) : Bool := c == '-' || c.isDigit

/-- The sort of the value at the front of a text, if there is one. -/
def shapeAt : List Char → Option Shape
  | [] => none
  | c :: cs =>
    if isNumeric c then some .number
    else if c = 'u' then some .undefined
    else if c = 'n' then some (if cs.head? = some 'u' then .null else .construct)
    else if c = 't' ∨ c = 'f' then some .bool
    else if c = '"' then some .text
    else if c = '[' then some .array
    else if c = '\x7b' then some .object
    else if c = '(' then some .lazyImport
    else none

/-- A whole number is written with its digits, and with a sign if it is negative. -/
lemma decimal_eq (n : Int) : decimal n =
    if 0 ≤ n then Nat.toDigits 10 n.toNat else '-' :: Nat.toDigits 10 (-n).toNat := by
  rw [decimal, Int.toString_eq_repr, Int.repr_eq_if]
  split <;> simp [Nat.toList_repr]

/-- Whole numbers are written in digits and a sign. -/
lemma isNumeric_of_mem_decimal {n : Int} {c : Char} (h : c ∈ decimal n) :
    isNumeric c = true := by
  have hdigit : ∀ k : Nat, c ∈ Nat.toDigits 10 k → isNumeric c = true := fun k hk => by
    simp [isNumeric, Nat.isDigit_of_mem_toDigits (by decide) (by decide) hk]
  rw [decimal_eq] at h
  split at h
  · exact hdigit _ h
  · rcases List.mem_cons.1 h with rfl | h
    · rfl
    · exact hdigit _ h

/-- No whole number is written as nothing. -/
lemma decimal_ne_nil (n : Int) : decimal n ≠ [] := by
  rw [decimal_eq]
  split
  · exact Nat.toDigits_ne_nil
  · exact List.cons_ne_nil _ _

/-- Whole numbers that are written alike are one. -/
lemma decimal_inj {n k : Int} (h : decimal n = decimal k) : n = k := by
  have hinj : ∀ {i j : Nat}, Nat.toDigits 10 i = Nat.toDigits 10 j → i = j := fun {i j} hij => by
    rw [← Nat.ofDigitChars_ten_toDigits (n := i), hij, Nat.ofDigitChars_ten_toDigits]
  -- a sign is no digit
  have hsign : ∀ {i : Nat} {cs}, Nat.toDigits 10 i ≠ '-' :: cs := fun {i cs} hi => by
    have hdigit := Nat.isDigit_of_mem_toDigits (b := 10) (n := i) (c := '-') (by decide) (by decide)
      (by rw [hi]; exact List.mem_cons_self)
    exact absurd hdigit (by decide)
  rw [decimal_eq, decimal_eq] at h
  split at h
  · split at h
    · have := hinj h
      omega
    · exact absurd h hsign
  · split at h
    · exact absurd h.symm hsign
    · have := hinj (List.cons.inj h).2
      omega

/-- The sort of a value is told by the front of its text, whatever follows. -/
lemma shapeAt_chars (depth : Nat) (v : Value) (rest : List Char) :
    shapeAt (chars depth v ++ rest) = some v.shape := by
  cases v with
  | undefined => simp [chars_undefined, shapeAt, isNumeric, shape]
  | null => simp [chars_null, shapeAt, isNumeric, shape]
  | bool b => cases b <;> simp [chars_bool, shapeAt, isNumeric, shape]
  | number n =>
    obtain ⟨c, cs, hn⟩ := List.exists_cons_of_ne_nil (decimal_ne_nil n)
    have hc : isNumeric c = true := isNumeric_of_mem_decimal (by rw [hn]; exact List.mem_cons_self)
    rw [chars_number, hn, List.cons_append, shapeAt, if_pos hc, shape]
  | text s => simp [chars_text, Text.quoted, shapeAt, isNumeric, shape]
  | array items => simp [chars_array, shapeAt, isNumeric, shape]
  | object entries => simp [chars_object, shapeAt, isNumeric, shape]
  | construct className args => simp [chars_construct, shapeAt, isNumeric, shape]
  | lazyImport path => simp [chars_lazyImport, shapeAt, isNumeric, shape]

/-- Values whose texts begin in the same way are of one sort. -/
lemma shape_eq_of_append {depth : Nat} {v w : Value} {r s : List Char}
    (h : chars depth v ++ r = chars depth w ++ s) : v.shape = w.shape := by
  rw [← Option.some_inj, ← shapeAt_chars depth v r, h, shapeAt_chars]

/-! ## Lists with commas -/

section separated

variable {α : Type} {f : α → List Char} {gap last : List Char}

/-- Entries one after the other, with a comma and `gap` after all but the last, and `last` after
that one. -/
def separated (f : α → List Char) (gap last : List Char) : List α → List Char
  | [] => []
  | [a] => f a ++ last
  | a :: b :: as => f a ++ ',' :: (gap ++ separated f gap last (b :: as))

/-- What follows a value in generated code: nothing that could belong to a number. -/
def Stops (rest : List Char) : Prop := rest.head?.all (!isNumeric ·) = true

/-- It can be told where a list ends, if that can be told of its entries. -/
lemma separated_append_inj {as bs : List α} {r s : List Char} {close : Char}
    (hclose : close ≠ ',' ∧ isNumeric close = false)
    (hf : ∀ a ∈ as, ∀ b ∈ bs, ∀ r s, Stops r → Stops s → f a ++ r = f b ++ s → a = b ∧ r = s)
    (has : as ≠ []) (hbs : bs ≠ [])
    (h : separated f gap (close :: last) as ++ r = separated f gap (close :: last) bs ++ s) :
    as = bs ∧ r = s := by
  induction as generalizing bs with
  | nil => exact absurd rfl has
  | cons a as ih =>
    obtain ⟨b, bs, rfl⟩ := List.exists_cons_of_ne_nil hbs
    have hstop : ∀ t, Stops (close :: t) := fun t => by simp [Stops, hclose.2]
    have hcomma : ∀ t, Stops (',' :: t) := fun t => rfl
    have hhead := hf a List.mem_cons_self b List.mem_cons_self
    -- after the first entries there is a comma in both lists, or the end of both
    cases as with
    | nil =>
      cases bs with
      | nil =>
        simp only [separated, List.append_assoc, List.cons_append] at h
        obtain ⟨rfl, hrest⟩ := hhead _ _ (hstop _) (hstop _) h
        exact ⟨rfl, List.append_cancel_left (List.cons.inj hrest).2⟩
      | cons b' bs =>
        simp only [separated, List.append_assoc, List.cons_append] at h
        obtain ⟨rfl, hrest⟩ := hhead _ _ (hstop _) (hcomma _) h
        exact absurd (List.cons.inj hrest).1 hclose.1
    | cons a' as =>
      cases bs with
      | nil =>
        simp only [separated, List.append_assoc, List.cons_append] at h
        obtain ⟨rfl, hrest⟩ := hhead _ _ (hcomma _) (hstop _) h
        exact absurd (List.cons.inj hrest).1.symm hclose.1
      | cons b' bs =>
        simp only [separated, List.append_assoc, List.cons_append] at h
        obtain ⟨rfl, hrest⟩ := hhead _ _ (hcomma _) (hcomma _) h
        have htail := List.append_cancel_left (List.cons.inj hrest).2
        obtain ⟨hlists, rfl⟩ := ih
          (fun x hx y hy => hf x (List.mem_cons_of_mem _ hx) y (List.mem_cons_of_mem _ hy))
          (List.cons_ne_nil _ _) (List.cons_ne_nil _ _) htail
        exact ⟨by rw [hlists], rfl⟩

end separated

/-- Values on one line are separated by blanks. -/
lemma inline_append (depth : Nat) (close : Char) (v : Value) (vs : List Value) :
    inline depth (v :: vs) ++ [close] = separated (chars depth) [' '] [close] (v :: vs) := by
  induction vs generalizing v with
  | nil => simp [inline, separated]
  | cons w vs ih => simp [inline, separated, ← ih]

/-- The lines of an array are separated by line feeds, behind their indentation. -/
lemma itemLines_eq (depth : Nat) (vs : List Value) :
    itemLines depth vs = separated (fun v => indent depth ++ chars depth v) ['\n'] ['\n'] vs := by
  induction vs with
  | nil => rfl
  | cons v vs ih => cases vs <;> simp_all [itemLines, separated]

/-- An entry of an object in a line of its own, without what follows it. -/
def entryChars (depth : Nat) (e : String × Value) : List Char :=
  indent depth ++ keyChars e.1.toList ++ ':' :: ' ' :: chars depth e.2

/-- The lines of an object are separated by line feeds too. -/
lemma entryLines_eq (depth : Nat) (es : List (String × Value)) :
    entryLines depth es = separated (entryChars depth) ['\n'] ['\n'] es := by
  induction es with
  | nil => rfl
  | cons e es ih => cases es <;> simp_all [entryLines, separated, entryChars]

/-! ## Keys -/

/-- Every character of a bare key could continue one. -/
lemma continuesBareKey_of_isBareKey {k : List Char} (hk : isBareKey k = true) :
    ∀ c ∈ k, continuesBareKey c = true := by
  intro c hc
  cases k with
  | nil => cases hc
  | cons a k =>
    simp only [isBareKey, Bool.and_eq_true, List.all_eq_true] at hk
    rcases List.mem_cons.1 hc with rfl | hc
    · simp [continuesBareKey, hk.1]
    · exact hk.2 c hc

/-- It can be told where a key ends. -/
lemma keyChars_append_inj {k k' r s : List Char}
    (h : keyChars k ++ ':' :: r = keyChars k' ++ ':' :: s) : k = k' ∧ r = s := by
  -- a key without quotes does not begin with a quote
  have hquote : ∀ {k k' : List Char} {r s}, isBareKey k = true →
      k ++ ':' :: r ≠ Text.quoted k' ++ s := by
    intro k k' r s hk heq
    cases k with
    | nil => cases hk
    | cons a k =>
      have hne := continuesBareKey_of_isBareKey hk a List.mem_cons_self
      rw [(List.cons.inj heq).1] at hne
      exact absurd hne (by decide)
  unfold keyChars at h
  split at h
  · next hk =>
    split at h
    · next hk' =>
      obtain ⟨rfl, hrest⟩ := Text.append_inj_of_forall continuesBareKey
        (continuesBareKey_of_isBareKey hk) (continuesBareKey_of_isBareKey hk') rfl rfl h
      exact ⟨rfl, (List.cons.inj hrest).2⟩
    · exact absurd h (hquote hk)
  · split at h
    · next hk' => exact absurd h.symm (hquote hk')
    · obtain ⟨rfl, hrest⟩ := Text.quoted_append_inj h
      exact ⟨rfl, (List.cons.inj hrest).2⟩

/-! ## Values -/

/-- The name of every class that a value constructs can be told from what follows it. -/
inductive Legible : Value → Prop
  | undefined : Legible undefined
  | null : Legible null
  | bool (b : Bool) : Legible (bool b)
  | number (n : Int) : Legible (number n)
  | text (s : String) : Legible (text s)
  | array {items : List Value} : (∀ v ∈ items, Legible v) → Legible (array items)
  | object {entries : List (String × Value)} :
    (∀ e ∈ entries, Legible e.2) → Legible (object entries)
  | construct {className : String} {args : List Value} :
    '(' ∉ className.toList → (∀ v ∈ args, Legible v) → Legible (construct className args)
  | lazyImport (path : String) : Legible (lazyImport path)

/-- A value can be told from all other ones wherever their texts stand. -/
def Distinguished (v : Value) : Prop :=
  ∀ {w : Value} {depth : Nat} {r s : List Char}, Legible w → Stops r → Stops s →
    chars depth v ++ r = chars depth w ++ s → v = w ∧ r = s

/-- No value begins with a character that tells no sort. -/
lemma ne_inline_append {c : Char} (hc : ∀ t, shapeAt (c :: t) = none) (depth : Nat) (v : Value)
    (vs : List Value) (r s : List Char) : c :: r ≠ inline depth (v :: vs) ++ s := by
  intro h
  have hfront : ∃ t, inline depth (v :: vs) ++ s = chars depth v ++ t := by
    cases vs <;> simp [inline]
  obtain ⟨t, ht⟩ := hfront
  have hshape := hc r
  rw [h, ht, shapeAt_chars] at hshape
  cases hshape

/-- It can be told where values on one line end. -/
lemma inline_append_inj {vs ws : List Value} (hvs : ∀ v ∈ vs, Distinguished v)
    (hws : ∀ w ∈ ws, Legible w) {depth : Nat} {close : Char} {r s : List Char}
    (hclose : close = ')' ∨ close = ']')
    (h : inline depth vs ++ close :: r = inline depth ws ++ close :: s) : vs = ws ∧ r = s := by
  -- the closing sign begins no value, so neither list can go on where the other ends
  have hshape : ∀ t, shapeAt (close :: t) = none := by
    rintro t
    rcases hclose with rfl | rfl <;> rfl
  cases vs with
  | nil =>
    cases ws with
    | nil => exact ⟨rfl, (List.cons.inj h).2⟩
    | cons w ws => exact absurd h (ne_inline_append hshape depth w ws _ _)
  | cons v vs =>
    cases ws with
    | nil => exact absurd h.symm (ne_inline_append hshape depth v vs _ _)
    | cons w ws =>
      rw [List.append_cons, inline_append, List.append_cons, inline_append] at h
      refine separated_append_inj ?_ ?_ (List.cons_ne_nil _ _) (List.cons_ne_nil _ _) h
      · rcases hclose with rfl | rfl <;> decide
      · intro a ha b hb r s hr hs
        exact hvs a ha (hws b hb) hr hs

/-- It can be told where the lines of an array end. -/
lemma itemLines_append_inj {vs ws : List Value} (hvs : ∀ v ∈ vs, Distinguished v)
    (hws : ∀ w ∈ ws, Legible w) (hne : vs ≠ []) (hne' : ws ≠ []) {depth : Nat} {r s : List Char}
    (h : itemLines depth vs ++ r = itemLines depth ws ++ s) : vs = ws ∧ r = s := by
  rw [itemLines_eq, itemLines_eq] at h
  refine separated_append_inj (by decide) ?_ hne hne' h
  intro a ha b hb r s hr hs heq
  rw [List.append_assoc, List.append_assoc] at heq
  exact hvs a ha (hws b hb) hr hs (List.append_cancel_left heq)

/-- It can be told where the lines of an object end. -/
lemma entryLines_append_inj {es es' : List (String × Value)}
    (hes : ∀ e ∈ es, Distinguished e.2) (hes' : ∀ e ∈ es', Legible e.2) (hne : es ≠ [])
    (hne' : es' ≠ []) {depth : Nat} {r s : List Char}
    (h : entryLines depth es ++ r = entryLines depth es' ++ s) : es = es' ∧ r = s := by
  rw [entryLines_eq, entryLines_eq] at h
  refine separated_append_inj (by decide) ?_ hne hne' h
  intro a ha b hb r s hr hs heq
  simp only [entryChars, List.append_assoc, List.cons_append] at heq
  obtain ⟨hkey, hvalue⟩ := keyChars_append_inj (List.append_cancel_left heq)
  obtain ⟨hab, hrest⟩ := hes a ha (hes' b hb) hr hs (List.cons.inj hvalue).2
  exact ⟨Prod.ext (String.toList_inj.1 hkey) hab, hrest⟩

/-- A value that is the only one of its sort needs nothing more than its beginning. -/
lemma distinguished_of_unique {v : Value} (h : ∀ {w : Value}, v.shape = w.shape → v = w) :
    Distinguished v := by
  intro w depth r s _ _ _ heq
  obtain rfl := h (shape_eq_of_append heq)
  exact ⟨rfl, List.append_cancel_left heq⟩

/-- The two truth values begin with different characters. -/
lemma distinguished_bool (b : Bool) : Distinguished (bool b) := by
  intro w depth r s hw _ _ heq
  have hshape := shape_eq_of_append heq
  cases hw with
  | bool b' =>
    simp only [chars_bool] at heq
    cases b <;> cases b' <;> simp_all
  | _ => cases hshape

/-- A number ends where no digit follows. -/
lemma distinguished_number (n : Int) : Distinguished (number n) := by
  intro w depth r s hw hr hs heq
  have hshape := shape_eq_of_append heq
  cases hw with
  | number k =>
    obtain ⟨hn, hrest⟩ := Text.append_inj_of_forall isNumeric
      (fun _ => isNumeric_of_mem_decimal) (fun _ => isNumeric_of_mem_decimal) hr hs heq
    exact ⟨by rw [decimal_inj hn], hrest⟩
  | _ => cases hshape

/-- A text ends at its closing quote. -/
lemma distinguished_text (t : String) : Distinguished (text t) := by
  intro w depth r s hw _ _ heq
  have hshape := shape_eq_of_append heq
  cases hw with
  | text t' =>
    obtain ⟨ht, hrest⟩ := Text.quoted_append_inj heq
    exact ⟨by rw [String.toList_inj.1 ht], hrest⟩
  | _ => cases hshape

/-- A lazy import ends behind the quotes of its path. -/
lemma distinguished_lazyImport (path : String) : Distinguished (lazyImport path) := by
  intro w depth r s hw _ _ heq
  have hshape := shape_eq_of_append heq
  cases hw with
  | lazyImport path' =>
    simp only [chars_lazyImport, List.append_assoc] at heq
    obtain ⟨hpath, hrest⟩ := Text.quoted_append_inj (List.append_cancel_left heq)
    exact ⟨by rw [String.toList_inj.1 hpath], List.append_cancel_left hrest⟩
  | _ => cases hshape

/-- An array ends at its bracket, and its first two characters say on how many lines. -/
lemma distinguished_array {items : List Value} (h : ∀ v ∈ items, Distinguished v) :
    Distinguished (array items) := by
  intro w depth r s hw _ _ heq
  have hshape := shape_eq_of_append heq
  cases hw with
  | @array items' hlegible =>
    rw [chars_array, chars_array, List.cons_append, List.cons_append] at heq
    have hbody := (List.cons.inj heq).2
    have hfeed : ∀ t, shapeAt ('\n' :: t) = none := fun _ => rfl
    have hnil : ∀ {vs : List Value}, ¬vs.all isScalar = true → vs ≠ [] := by
      rintro vs hvs rfl
      exact hvs rfl
    -- an array in one line has no line feed behind its bracket
    have hline : ∀ (vs : List Value) (r s), '\n' :: r ≠ inline depth vs ++ [']'] ++ s := by
      intro vs r s
      rw [List.append_assoc]
      cases vs with
      | nil => exact fun h => absurd (List.cons.inj h).1 (by decide)
      | cons v vs => exact ne_inline_append hfeed depth v vs _ _
    split at hbody <;> split at hbody
    · rw [List.append_assoc, List.append_assoc] at hbody
      obtain ⟨rfl, hrest⟩ := inline_append_inj h hlegible (.inr rfl) hbody
      exact ⟨rfl, hrest⟩
    · exact absurd hbody.symm (hline _ _ _)
    · exact absurd hbody (hline _ _ _)
    · next hv hw =>
      simp only [List.cons_append, List.append_assoc] at hbody
      obtain ⟨rfl, hrest⟩ := itemLines_append_inj h hlegible (hnil hv) (hnil hw)
        (List.cons.inj hbody).2
      exact ⟨rfl, (List.cons.inj (List.append_cancel_left hrest)).2⟩
  | _ => cases hshape

/-- An object ends at its brace. -/
lemma distinguished_object {entries : List (String × Value)}
    (h : ∀ e ∈ entries, Distinguished e.2) : Distinguished (object entries) := by
  intro w depth r s hw _ _ heq
  have hshape := shape_eq_of_append heq
  cases hw with
  | @object entries' hlegible =>
    rw [chars_object, chars_object, List.cons_append, List.cons_append] at heq
    have hbody := (List.cons.inj heq).2
    simp only [List.isEmpty_iff] at hbody
    -- an empty object closes in the line in which it opens
    split at hbody <;> split at hbody
    · next hes hes' => exact ⟨by rw [hes, hes'], (List.cons.inj hbody).2⟩
    · exact absurd (List.cons.inj hbody).1 (by decide)
    · exact absurd (List.cons.inj hbody).1 (by decide)
    · next hes hes' =>
      simp only [List.cons_append, List.append_assoc] at hbody
      obtain ⟨rfl, hrest⟩ := entryLines_append_inj h hlegible hes hes' (List.cons.inj hbody).2
      exact ⟨rfl, (List.cons.inj (List.append_cancel_left hrest)).2⟩
  | _ => cases hshape

/-- A class that is constructed is told by its name up to the parenthesis. -/
lemma distinguished_construct {className : String} {args : List Value}
    (hname : '(' ∉ className.toList) (h : ∀ v ∈ args, Distinguished v) :
    Distinguished (construct className args) := by
  intro w depth r s hw _ _ heq
  have hshape := shape_eq_of_append heq
  cases hw with
  | @construct className' args' hname' hlegible =>
    have hall : ∀ {n : String}, '(' ∉ n.toList → ∀ c ∈ n.toList, (c != '(') = true := by
      intro n hn c hc
      exact bne_iff_ne.2 fun he => hn (he ▸ hc)
    simp only [chars_construct, List.append_assoc, List.cons_append, List.nil_append] at heq
    obtain ⟨hnames, hrest⟩ := Text.append_inj_of_forall (· != '(') (hall hname) (hall hname') rfl rfl
      (List.append_cancel_left heq)
    obtain ⟨rfl, hend⟩ := inline_append_inj h hlegible (.inl rfl) (List.cons.inj hrest).2
    exact ⟨by rw [String.toList_inj.1 hnames], hend⟩
  | _ => cases hshape

/-- The text of a value tells the value, and where it ends. -/
lemma Legible.distinguished {v : Value} (hv : Legible v) : Distinguished v := by
  induction hv with
  | undefined => exact distinguished_of_unique fun {w} h => by cases w <;> first | rfl | cases h
  | null => exact distinguished_of_unique fun {w} h => by cases w <;> first | rfl | cases h
  | bool b => exact distinguished_bool b
  | number n => exact distinguished_number n
  | text t => exact distinguished_text t
  | array _ ih => exact distinguished_array ih
  | object _ ih => exact distinguished_object ih
  | construct hname _ ih => exact distinguished_construct hname ih
  | lazyImport path => exact distinguished_lazyImport path

/-- A value is determined by its text. -/
theorem render_inj {v w : Value} (hv : Legible v) (hw : Legible w) : v.render = w.render ↔ v = w := by
  refine ⟨fun h => ?_, fun h => by rw [h]⟩
  have hstops : Stops [] := rfl
  have hchars : chars 0 v ++ [] = chars 0 w ++ [] := by
    rw [String.ofList_inj.1 h]
  exact (hv.distinguished hw hstops hstops hchars).1

end StoreBindings.Generate.Value
