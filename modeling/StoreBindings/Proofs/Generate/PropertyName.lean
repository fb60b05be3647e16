import Mathlib.Data.List.TakeWhile
import StoreBindings.Proofs.Generate.Declarations
import StoreBindings.Proofs.Generate.Loader

/-!
# The name that a property is declared under

The loader tells the binding of a store as a text in quotes, the declarations as the name of a
property. Here the name of a property is read as the language reads it (`propertyName?`): a text in
double quotes, or an identifier up to its end, in which a character can be given by its code.

Written as the loader writes its keys, every binding would be read back
(`propertyName?_keyChars`). The declarations write it without quotes, whatever it holds. Then the
property is called as the loader says exactly if the binding is an identifier letter by letter:
`declaredName_iff`. Otherwise the name ends too early, is none at all, or is the name of something
else, as a backslash in it begins the code of a character.
-/

namespace StoreBindings.Generate

open Store (Metadata)

/-! ## Identifiers -/

/-- The characters beyond the first 128 that an identifier can begin with, and those that it can go on
with. There are more of them with every version of the language, so they are left open. -/
structure Letters where
  begins : Char → Bool
  follows : Char → Bool

namespace Letters

variable (l : Letters)

/-- Whether an identifier can begin with a character. -/
def canBegin (c : Char) : Bool := Value.startsBareKey c || (0x80 ≤ c.toNat && l.begins c)

/-- Whether an identifier can go on with a character. -/
def canFollow (c : Char) : Bool := Value.continuesBareKey c || (0x80 ≤ c.toNat && l.follows c)

end Letters

/-- The character that a code stands for. -/
def ofCode? (n : Nat) : Option Char := if n.isValidChar then some (Char.ofNat n) else none

def isHexDigit (c : Char) : Bool := (Json.hexDigit? c).isSome

/-- The character whose code stands behind a backslash, and what follows the code: four digits, or
any number of them in braces. -/
def codedLetter? : List Char → Option (Char × List Char)
  | 'u' :: '\x7b' :: cs =>
    match cs.dropWhile isHexDigit with
    | '\x7d' :: rest =>
      if cs.takeWhile isHexDigit = [] then none
      else do
        let c ← ofCode? (← Json.hexNumber? (cs.takeWhile isHexDigit))
        return (c, rest)
    | _ => none
  | 'u' :: a :: b :: c :: d :: rest => do
    let c ← ofCode? (← Json.hexNumber? [a, b, c, d])
    return (c, rest)
  | _ => none

/-- What a code is made of. -/
def isCodePart (c : Char) : Bool := c == 'u' || c == '\x7b' || c == '\x7d' || isHexDigit c

variable {l : Letters} {cs rest name : List Char}

lemma isHexDigit_of_hexNumber? (h : (Json.hexNumber? cs).isSome = true) :
    ∀ c ∈ cs, isHexDigit c = true := by
  have hstep : ∀ (cs : List Char) (n : Nat),
      (cs.foldlM (fun n c => (Json.hexDigit? c).map (16 * n + ·)) n).isSome = true →
        ∀ c ∈ cs, isHexDigit c = true := by
    intro cs
    induction cs with
    | nil => simp
    | cons a cs ih =>
      intro n hn c hc
      rw [List.foldlM_cons] at hn
      cases ha : Json.hexDigit? a with
      | none => simp [ha] at hn
      | some k =>
        rw [ha] at hn
        rcases List.mem_cons.1 hc with rfl | hc
        · rw [isHexDigit, ha]
          rfl
        · exact ih _ hn c hc
  exact hstep cs 0 h

/-- The code of a character takes something from the front of a text. -/
lemma exists_of_codedLetter? {c : Char} (h : codedLetter? cs = some (c, rest)) :
    ∃ code, cs = code ++ rest ∧ 0 < code.length ∧ ∀ d ∈ code, isCodePart d = true := by
  have hdigit : ∀ d, isHexDigit d = true → isCodePart d = true := fun d hd => by simp [isCodePart, hd]
  unfold codedLetter? at h
  -- a code is either in braces or has four digits
  split at h
  · next cs =>
    split at h
    · next rest' hrest =>
      split at h
      · cases h
      · simp only [Option.bind_eq_bind, Option.bind_eq_some_iff, Option.pure_def, Option.some.injEq,
          Prod.mk.injEq] at h
        obtain ⟨-, -, -, -, -, rfl⟩ := h
        have hsplit := List.takeWhile_append_dropWhile (p := isHexDigit) (l := cs)
        rw [hrest] at hsplit
        refine ⟨'u' :: '\x7b' :: (cs.takeWhile isHexDigit ++ ['\x7d']), ?_, by simp, ?_⟩
        · rw [List.cons_append, List.cons_append, List.append_assoc, List.singleton_append, hsplit]
        · simp only [List.mem_cons, List.mem_append, List.not_mem_nil, or_false]
          rintro d (rfl | rfl | hd | rfl)
          · decide
          · decide
          · exact hdigit d (List.mem_takeWhile_imp hd)
          · decide
    · cases h
  · next a b c' d rest' hbrace =>
    simp only [Option.bind_eq_bind, Option.bind_eq_some_iff, Option.pure_def, Option.some.injEq,
      Prod.mk.injEq] at h
    obtain ⟨n, hn, -, -, -, rfl⟩ := h
    refine ⟨'u' :: [a, b, c', d], rfl, by simp, ?_⟩
    intro x hx
    rcases List.mem_cons.1 hx with rfl | hx
    · decide
    · exact hdigit x (isHexDigit_of_hexNumber? (by rw [hn]; rfl) x hx)
  · cases h

/-- What is left behind a code is shorter. -/
lemma length_of_codedLetter? {c : Char} (h : codedLetter? cs = some (c, rest)) :
    rest.length < cs.length := by
  obtain ⟨code, rfl, hpos, -⟩ := exists_of_codedLetter? h
  rw [List.length_append]
  omega

/-- The characters that an identifier goes on with, and what follows it. A backslash has to begin the
code of such a character. -/
def readLetters (l : Letters) (cs : List Char) : Option (List Char × List Char) :=
  match cs with
  | [] => some ([], [])
  | '\\' :: cs =>
    match h : codedLetter? cs with
    | some (c, rest) =>
      have := length_of_codedLetter? h
      if l.canFollow c then (readLetters l rest).map fun (name, rest) => (c :: name, rest) else none
    | none => none
  | c :: cs =>
    if l.canFollow c then (readLetters l cs).map fun (name, rest) => (c :: name, rest)
    else some ([], c :: cs)
termination_by cs.length

/-- The character at the front of an identifier, written as it is or by its code. -/
def readLetter? : List Char → Option (Char × List Char)
  | '\\' :: cs => codedLetter? cs
  | c :: cs => some (c, cs)
  | [] => none

/-- The property name at the front of a text, as it is meant, and what follows it. -/
def propertyName? (l : Letters) : List Char → Option (List Char × List Char)
  | '"' :: cs => do
    let (text, rest) ← Json.readText cs
    return ((← text).toList, rest)
  | cs => do
    let (first, rest) ← readLetter? cs
    if l.canBegin first then
      let (more, rest) ← readLetters l rest
      return (first :: more, rest)
    else none

/-! ## What a name is read from -/

/-- The letters of other scripts do not matter for what is spelled in the first 128 characters. -/
lemma canFollow_of_lt {c : Char} (hc : c.toNat < 0x80) : l.canFollow c = Value.continuesBareKey c := by
  rw [Letters.canFollow, decide_eq_false (Nat.not_le.2 hc), Bool.false_and, Bool.or_false]

lemma ne_colon_of_canFollow {c : Char} (h : l.canFollow c = true) : c ≠ ':' := by
  rintro rfl
  rw [canFollow_of_lt (by decide)] at h
  exact absurd h (by decide)

/-- A name takes no more characters than it is read from, and as many only if each of them stands for
itself. -/
structure Spells (l : Letters) (consumed name : List Char) : Prop where
  ended : ':' ∉ consumed
  length_le : name.length ≤ consumed.length
  eq_of_length : name.length = consumed.length → name = consumed ∧ ∀ c ∈ name, l.canFollow c = true

lemma Spells.nil (l : Letters) : Spells l [] [] := ⟨by simp, Nat.le_refl 0, by simp⟩

lemma Spells.cons {consumed : List Char} (h : Spells l consumed name) {c : Char}
    (hc : l.canFollow c = true) : Spells l (c :: consumed) (c :: name) := by
  refine ⟨?_, Nat.succ_le_succ h.length_le, fun heq => ?_⟩
  · rw [List.mem_cons, not_or]
    exact ⟨(ne_colon_of_canFollow hc).symm, h.ended⟩
  · obtain ⟨rfl, hname⟩ := h.eq_of_length (Nat.succ.inj heq)
    rw [List.forall_mem_cons]
    exact ⟨rfl, hc, hname⟩

/-- Where a character is given by its code, the name is shorter than what it is read from. -/
lemma Spells.coded {consumed code : List Char} (h : Spells l consumed name) (c : Char)
    (hpos : 0 < code.length) (hcode : ∀ d ∈ code, isCodePart d = true) :
    Spells l ('\\' :: (code ++ consumed)) (c :: name) := by
  have hle := h.length_le
  refine ⟨?_, ?_, fun heq => ?_⟩
  · simp only [List.mem_cons, List.mem_append, not_or]
    refine ⟨by decide, fun hmem => ?_, h.ended⟩
    exact absurd (hcode _ hmem) (by decide)
  · simp only [List.length_cons, List.length_append]
    omega
  · simp only [List.length_cons, List.length_append] at heq
    omega

lemma exists_spells_of_readLetters (h : readLetters l cs = some (name, rest)) :
    ∃ consumed, cs = consumed ++ rest ∧ Spells l consumed name := by
  fun_induction readLetters l cs generalizing name with
  | case1 =>
    cases h
    exact ⟨[], rfl, .nil l⟩
  | case2 cs c after hcode _ hc ih =>
    obtain ⟨⟨more, rest'⟩, hmore, heq⟩ := Option.map_eq_some_iff.1 h
    obtain ⟨rfl, rfl⟩ := Prod.mk.inj heq
    obtain ⟨consumed, rfl, hspells⟩ := ih hmore
    obtain ⟨code, rfl, hpos, hparts⟩ := exists_of_codedLetter? hcode
    exact ⟨'\\' :: (code ++ consumed), by simp, hspells.coded c hpos hparts⟩
  | case3 => cases h
  | case4 => cases h
  | case5 c cs _ hc ih =>
    obtain ⟨⟨more, rest'⟩, hmore, heq⟩ := Option.map_eq_some_iff.1 h
    obtain ⟨rfl, rfl⟩ := Prod.mk.inj heq
    obtain ⟨consumed, rfl, hspells⟩ := ih hmore
    exact ⟨c :: consumed, rfl, hspells.cons hc⟩
  | case6 =>
    cases h
    exact ⟨[], rfl, .nil l⟩

/-- An identifier that is written as it is is read as it is, up to what cannot belong to it. -/
lemma readLetters_append (h : ∀ c ∈ name, l.canFollow c = true) (rest : List Char) :
    readLetters l (name ++ ':' :: rest) = some (name, ':' :: rest) := by
  induction name with
  | nil =>
    have hcolon : ¬l.canFollow ':' = true := fun h => ne_colon_of_canFollow h rfl
    rw [List.nil_append, readLetters, if_neg hcolon]
    simp
  | cons c name ih =>
    rw [List.forall_mem_cons] at h
    have hback : c ≠ '\\' := by
      rintro rfl
      rw [canFollow_of_lt (by decide)] at h
      exact absurd h.1 (by decide)
    rw [List.cons_append, readLetters, if_pos h.1, ih h.2]
    · rfl
    · exact hback

lemma propertyName?_of_sign (cs : List Char) : propertyName? l ('$' :: cs) =
    (readLetters l cs).map fun (name, rest) => ('$' :: name, rest) := by
  have hbegin : l.canBegin '$' = true := by simp [Letters.canBegin, Value.startsBareKey]
  show (if l.canBegin '$' = true then (readLetters l cs).bind fun (name, rest) =>
    some ('$' :: name, rest) else none) = _
  rw [if_pos hbegin]
  cases readLetters l cs <;> rfl

/-- Behind the sign a name is read back, if it is read at all, exactly if each of its characters can
stand for itself in an identifier. -/
lemma exists_propertyName?_iff (name after : List Char) :
    (∃ rest, propertyName? l ('$' :: (name ++ ':' :: after)) = some ('$' :: name, rest)) ↔
      ∀ c ∈ name, l.canFollow c = true := by
  rw [propertyName?_of_sign]
  constructor
  · rintro ⟨rest, h⟩
    obtain ⟨⟨name', rest'⟩, hread, heq⟩ := Option.map_eq_some_iff.1 h
    obtain ⟨hname, rfl⟩ := Prod.mk.inj heq
    obtain rfl : name' = name := (List.cons.inj hname).2
    obtain ⟨consumed, hsplit, hspells⟩ := exists_spells_of_readLetters hread
    -- a name ends before the colon, and cannot be longer than what it is read from
    have hlength : consumed.length ≤ name'.length := by
      rcases List.append_eq_append_iff.1 hsplit with ⟨more, rfl, hmore⟩ | ⟨more, hmore, -⟩
      · cases more with
        | nil => simp
        | cons c more =>
          have hcolon : ':' ∈ name' ++ c :: more := by
            rw [(List.cons.inj hmore).1]
            simp
          exact absurd hcolon hspells.ended
      · rw [hmore, List.length_append]
        omega
    exact (hspells.eq_of_length (Nat.le_antisymm hspells.length_le hlength)).2
  · intro h
    exact ⟨':' :: after, by rw [readLetters_append h]; rfl⟩

lemma propertyName?_quoted (l : Letters) (cs rest : List Char) :
    propertyName? l (Text.quoted cs ++ rest) = some (cs, rest) := by
  have hread := Text.readText_escaped cs rest
  simp only [Text.quoted, List.cons_append, List.append_assoc, List.nil_append, propertyName?, hread,
    Option.bind_eq_bind, Option.bind_some, Option.pure_def, String.toList_ofList]

/-- What is written as the keys of the loader are is read back, whatever it is. -/
theorem propertyName?_keyChars (l : Letters) (key rest : List Char) :
    propertyName? l (Value.keyChars key ++ ':' :: rest) = some (key, ':' :: rest) := by
  unfold Value.keyChars
  split
  · next hbare =>
    cases key with
    | nil => cases hbare
    | cons c key =>
      rw [Value.isBareKey, Bool.and_eq_true, List.all_eq_true] at hbare
      obtain ⟨hc, hkey⟩ := hbare
      have hbegin : l.canBegin c = true := by simp [Letters.canBegin, hc]
      have hfollow : ∀ d ∈ key, l.canFollow d = true := fun d hd => by
        simp [Letters.canFollow, hkey d hd]
      have hquote : c ≠ '"' := by
        rintro rfl
        exact absurd hc (by decide)
      -- a bare key does not begin with a backslash, which would begin a code
      have hletter : readLetter? (c :: (key ++ ':' :: rest)) = some (c, key ++ ':' :: rest) := by
        unfold readLetter?
        split
        · next heq =>
          rw [(List.cons.inj heq).1] at hc
          exact absurd hc (by decide)
        · next heq => rw [(List.cons.inj heq).1, (List.cons.inj heq).2]
        · next heq => cases heq
      rw [List.cons_append, propertyName?]
      · simp [hletter, hbegin, readLetters_append hfollow]
      · exact fun _ heq => hquote (List.cons.inj heq).1
  · exact propertyName?_quoted l key _

/-! ## Bindings -/

/-- The value that keys lead to, one inside the other. -/
def Value.at? : List String → Value → Option Value
  | [], v => some v
  | key :: keys, .object entries => (entries.find? (·.1 == key)).bind fun e => at? keys e.2
  | _ :: _, _ => none

/-- The name of the property that a line of the declarations declares. -/
def declaredOn? (l : Letters) (line : List Char) : Option (List Char) := do
  let (name, rest) ← propertyName? l (← line.dropPrefix? (Value.indent 2))
  let _ ← rest.dropPrefix? ": typeof ".toList
  return name

lemma declaredOn?_eq (l : Letters) (cs : List Char) : declaredOn? l (Value.indent 2 ++ cs) =
    (propertyName? l cs).bind fun (name, rest) =>
      (rest.dropPrefix? ": typeof ".toList).map fun _ => name := by
  unfold declaredOn?
  rw [List.dropPrefix?_append_of_beq _ (beq_self_eq_true _)]
  simp only [Option.bind_eq_bind, Option.bind_some, Option.pure_def, Option.map_eq_bind]
  rfl

/-- What is declared on a line on which a name is read up to its colon. -/
lemma declaredOn?_of_read {key name after : List Char}
    (h : ∀ rest, propertyName? l (key ++ ':' :: rest) = some (name, ':' :: rest)) :
    declaredOn? l (Value.indent 2 ++ (key ++ (": typeof ".toList ++ after))) = some name := by
  have hcolon : ": typeof ".toList ++ after = ':' :: (" typeof ".toList ++ after) := rfl
  rw [declaredOn?_eq, hcolon, h, ← hcolon]
  show ((": typeof ".toList ++ after).dropPrefix? ": typeof ".toList).map (fun _ => name) = _
  rw [List.dropPrefix?_append_of_beq _ (beq_self_eq_true _)]
  rfl

/-- A binding is declared by its own name exactly if that is an identifier letter by letter. -/
lemma declaredOn?_iff (l : Letters) (name after : List Char) :
    declaredOn? l (Value.indent 2 ++ ('$' :: name ++ (": typeof ".toList ++ after))) =
      some ('$' :: name) ↔ ∀ c ∈ name, l.canFollow c = true := by
  constructor
  · intro h
    rw [declaredOn?_eq] at h
    obtain ⟨⟨name', rest⟩, hread, hrest⟩ := Option.bind_eq_some_iff.1 h
    obtain ⟨_, -, rfl⟩ := Option.map_eq_some_iff.1 hrest
    exact (exists_propertyName?_iff name _).1 ⟨rest, hread⟩
  · intro h
    refine declaredOn?_of_read fun rest => ?_
    rw [List.cons_append, propertyName?_of_sign, readLetters_append h]
    rfl

/-- What the declarations say of a store. -/
def lineOf (m : Metadata) (key : List Char) : List Char :=
  Value.indent 2 ++ (key ++ (": typeof ".toList ++ ((m.exportName.getD "").toList ++ [';'])))

lemma at?_toValue (m : Metadata) :
    m.toValue.at? ["store", "vueBinding"] = some (.optional m.binding) := by
  rw [Metadata.toValue_eq]
  rfl

/-- The line of a valid store stands in the declarations. -/
lemma lineOf_infix {found : List Metadata} {m : Metadata} (hm : m ∈ found)
    (hvalid : m.isValid = true) : lineOf m ('$' :: m.calledName.toList) ++ ['\n'] <:+:
      (declarations (found.map Metadata.settle)).toList := by
  have hline : (Binding.ofValid m).propertyChars = lineOf m ('$' :: m.calledName.toList) := by
    unfold Binding.propertyChars lineOf Binding.ofValid
    rw [String.toList_append]
    rfl
  -- a valid store is bound, and its binding has a line of its own
  have hbound : Binding.ofValid m ∈ bindings (found.map Metadata.settle) :=
    List.mem_filterMap.2 ⟨m.settle, List.mem_filter.2 ⟨List.mem_map_of_mem hm, hvalid⟩,
      Binding.ofStore?_settle hvalid⟩
  have hmem : lineOf m ('$' :: m.calledName.toList) ∈
      declarationLines (bindings (found.map Metadata.settle)) := by
    rw [← hline]
    simp only [declarationLines, List.mem_cons, List.mem_append, List.mem_map]
    exact .inr (.inr (.inr (.inl ⟨_, hbound, rfl⟩)))
  rw [toList_declarations]
  obtain ⟨front, back, hsplit⟩ := List.append_of_mem hmem
  rw [hsplit, List.flatMap_append, List.flatMap_cons]
  exact ⟨_, _, by rw [List.append_assoc]⟩

/-- The loader tells the binding of a valid store as a text that is read back, and the declarations
hold a line for the store. The line declares a property of that name exactly if each character of the
binding, its sign aside, can stand for itself in an identifier. Written as the loader writes its keys,
the name would be declared whatever it is. -/
theorem declaredName_iff (l : Letters) {found : List Metadata} {m : Metadata} (hm : m ∈ found)
    (hvalid : m.isValid = true) :
    let name := '$' :: m.calledName.toList
    let told : Value := .text (String.ofList name)
    m.settle.toValue.at? ["store", "vueBinding"] = some told ∧
      (∀ depth rest, propertyName? l (told.chars depth ++ rest) = some (name, rest)) ∧
      lineOf m name ++ ['\n'] <:+: (declarations (found.map Metadata.settle)).toList ∧
      (declaredOn? l (lineOf m name) = some name ↔
        ∀ c ∈ m.calledName.toList, l.canFollow c = true) ∧
      declaredOn? l (lineOf m (Value.keyChars name)) = some name := by
  intro name told
  have hname : String.ofList name = "$" ++ m.calledName := by
    apply String.toList_injective
    rw [String.toList_ofList, String.toList_append]
    rfl
  refine ⟨?_, ?_, lineOf_infix hm hvalid, declaredOn?_iff l _ _,
    declaredOn?_of_read (propertyName?_keyChars l name)⟩
  · rw [at?_toValue, Metadata.binding_settle hvalid, ← hname]
    rfl
  · intro depth rest
    rw [Value.chars_text, String.toList_ofList]
    exact propertyName?_quoted l name rest

namespace Sample

/-- What a module gives that declares a store class with a static field for its binding. -/
def bound (binding : String) : List Metadata :=
  let source := "class CartStore extends Store()\x7bstatic vueBinding='" ++ binding ++
    "'\nget state()\x7breturn\x7b\x7d\x7d\x7dexport const cart=new CartStore()"
  valid (Program.extractions ⟨[.read (.ofString "/a.ts") source.toList]⟩
    ⟨.ofString "/", .ofString "/"⟩)

end Sample

/-- A binding that is an identifier is declared by its name. -/
theorem declaredName_of_basket : ∃ m ∈ Sample.bound "basket", m.isValid = true ∧
    ∀ l, declaredOn? l (lineOf m "$basket".toList) = some "$basket".toList := by
  have hcalled : (Sample.bound "basket").map Metadata.calledName = ["basket"] := by decide +kernel
  obtain ⟨m, hm, hname⟩ := List.mem_map.1 (hcalled ▸ List.mem_singleton_self "basket")
  have hvalid : m.isValid = true := (List.mem_filter.1 hm).2
  refine ⟨m, hm, hvalid, fun l => ?_⟩
  obtain ⟨-, -, -, hiff, -⟩ := declaredName_iff l hm hvalid
  rw [hname] at hiff
  have hbare : "basket".toList.all Value.continuesBareKey = true := by decide +kernel
  exact hiff.2 fun c hc => by rw [Letters.canFollow, List.all_eq_true.1 hbare c hc, Bool.true_or]

/-- A binding may hold a dash. The loader tells it, and the declarations declare no such property. -/
theorem not_declared_of_dash : ∃ m ∈ Sample.bound "my-cart", m.isValid = true ∧
    m.settle.toValue.at? ["store", "vueBinding"] = some (.text "$my-cart") ∧
    lineOf m "$my-cart".toList ++ ['\n'] <:+:
      (declarations ((Sample.bound "my-cart").map Metadata.settle)).toList ∧
    ∀ l, declaredOn? l (lineOf m "$my-cart".toList) ≠ some "$my-cart".toList := by
  have hcalled : (Sample.bound "my-cart").map Metadata.calledName = ["my-cart"] := by decide +kernel
  obtain ⟨m, hm, hname⟩ := List.mem_map.1 (hcalled ▸ List.mem_singleton_self "my-cart")
  have hvalid : m.isValid = true := (List.mem_filter.1 hm).2
  have hline := lineOf_infix hm hvalid
  rw [hname] at hline
  refine ⟨m, hm, hvalid, ?_, hline, fun l h => ?_⟩
  · rw [at?_toValue, Metadata.binding_settle hvalid, hname]
    rfl
  · have hdash := (declaredOn?_iff l "my-cart".toList _).1 h '-' (by decide)
    rw [canFollow_of_lt (by decide)] at hdash
    exact absurd hdash (by decide)

end StoreBindings.Generate
