import StoreBindings.Proofs.Json.Leaves

/-!
# The grammar of JSON

The grammar that `parse?` reads by, apart from the reader: a document is tokens with spaces around
them (`LaysOut`), and `Spells` says which tokens stand for which value. The reader accepts the
documents of the grammar with the values that they stand for, and no others:
`parse?_eq_some_iff`.

* `Spells.reads` — what tokens stand for is read wherever they are laid out, by induction on the
  grammar. A level of depth for each token is enough, and every token takes a character.
* `spelledAt` — what is read is spelled, by induction on the depth.
-/

namespace StoreBindings.Json

/-! ## Tokens -/

/-- The characters that are tokens of their own. -/
def isSign (c : Char) : Bool := ['[', ']', '\x7b', '\x7d', ',', ':'].elem c

/-- A token of a document. -/
inductive Token
  /-- A bracket, a brace, a comma or a colon. -/
  | sign (c : Char)
  /-- A text in quotes; the quotes are no part of `body`. -/
  | text (body : List Char)
  /-- Any other value. -/
  | word (cs : List Char)
deriving DecidableEq, Repr

namespace Token

/-- A token as it is written. -/
def chars : Token → List Char
  | sign c => [c]
  | text body => '"' :: body ++ ['"']
  | word cs => cs

/-- Whether a token ends an array or an object. -/
def closes : Token → Bool
  | sign c => c == ']' || c == '\x7d'
  | _ => false

end Token

/-- The tokens there are. -/
inductive IsToken : Token → Prop
  | sign {c} : isSign c = true → IsToken (.sign c)
  | text {body ps} : IsText body ps → IsToken (.text body)
  | nullWord : IsToken (.word "null".toList)
  | trueWord : IsToken (.word "true".toList)
  | falseWord : IsToken (.word "false".toList)
  | number {ds} : IsNumber ds → IsToken (.word ds)

/-- Every word consists of the characters of words. -/
lemma IsToken.isWordChar {cs : List Char} (h : IsToken (.word cs)) :
    cs.all Json.isWordChar = true := by
  cases h with
  | nullWord | trueWord | falseWord => decide
  | number h => exact h.isWordChar

/-- The signs are the brackets, the braces, the comma and the colon. -/
lemma mem_signs {c : Char} (h : isSign c = true) :
    c = '[' ∨ c = ']' ∨ c = '\x7b' ∨ c = '\x7d' ∨ c = ',' ∨ c = ':' := by
  simpa [isSign] using h

/-- No token is empty or begins with a blank. -/
lemma IsToken.exists_cons {t : Token} (h : IsToken t) :
    ∃ c cs, t.chars = c :: cs ∧ Text.isBlank c = false := by
  cases h with
  | @sign c hc =>
    refine ⟨c, [], rfl, ?_⟩
    rcases mem_signs hc with rfl | rfl | rfl | rfl | rfl | rfl <;> rfl
  | @text body => exact ⟨'"', body ++ ['"'], rfl, rfl⟩
  | nullWord | trueWord | falseWord => exact ⟨_, _, rfl, rfl⟩
  | number h =>
    obtain ⟨c, cs, rfl, hc⟩ := h.exists_cons
    exact ⟨c, cs, rfl, isBlank_of_beginsNumber hc⟩

/-- A text is tokens with spaces before them, and what follows. -/
inductive LaidOut : List Token → List Char → List Char → Prop
  | nil {rest} : LaidOut [] rest rest
  | cons {t ts spaces cs rest} : IsSpaced spaces → LaidOut ts cs rest →
      LaidOut (t :: ts) (spaces ++ (t.chars ++ cs)) rest

/-- A document is tokens with spaces around them. -/
def LaysOut (ts : List Token) (cs : List Char) : Prop := ∃ rest, IsSpaced rest ∧ LaidOut ts cs rest

namespace LaidOut

variable {t : Token} {ts us : List Token} {cs mid rest : List Char}

/-- A token at once. -/
lemma next (h : LaidOut ts cs rest) : LaidOut (t :: ts) (t.chars ++ cs) rest := by
  have hnone : IsSpaced [] := by simp [IsSpaced]
  exact .cons hnone h

/-- Tokens can stand without spaces. -/
lemma chars (ts : List Token) (rest : List Char) :
    LaidOut ts (ts.flatMap Token.chars ++ rest) rest := by
  induction ts with
  | nil => exact .nil
  | cons t ts ih =>
    rw [List.flatMap_cons, List.append_assoc]
    exact ih.next

/-- Tokens are laid out one after the other. -/
lemma append (h : LaidOut ts cs mid) (h' : LaidOut us mid rest) : LaidOut (ts ++ us) cs rest := by
  induction h with
  | nil => exact h'
  | cons hspaces _ ih => exact .cons hspaces (ih h')

/-- What is laid out can be split between any two tokens. -/
lemma of_append (h : LaidOut (ts ++ us) cs rest) : ∃ mid, LaidOut ts cs mid ∧ LaidOut us mid rest := by
  induction ts generalizing cs with
  | nil => exact ⟨cs, .nil, h⟩
  | cons t ts ih =>
    obtain - | ⟨hspaces, h⟩ := h
    obtain ⟨mid, hts, hus⟩ := ih h
    exact ⟨mid, .cons hspaces hts, hus⟩

/-- Spaces before a token can be skipped. -/
lemma skip (h : LaidOut (t :: ts) cs rest) (ht : IsToken t) :
    ∃ mid, Json.skip cs = t.chars ++ mid ∧ LaidOut ts mid rest := by
  obtain - | @⟨_, _, spaces, mid, _, hspaces, h⟩ := h
  obtain ⟨c, cs, hchars, hc⟩ := ht.exists_cons
  refine ⟨mid, ?_, h⟩
  rw [skip_append hspaces]
  exact skip_eq_self (by simp [hchars, isSpace_eq_false_of_isBlank hc])

/-- More spaces before the first token make no difference. -/
lemma of_spaces {spaces : List Char} (hspaces : IsSpaced spaces) (hts : ts ≠ [])
    (h : LaidOut ts cs rest) : LaidOut ts (spaces ++ cs) rest := by
  cases h with
  | nil => exact absurd rfl hts
  | cons hspaces' h =>
    rw [← List.append_assoc]
    exact .cons (List.forall_mem_append.2 ⟨hspaces, hspaces'⟩) h

/-- Tokens that are laid out behind spaces are laid out with them. -/
lemma of_laidOut_skip (hts : ts ≠ []) (h : LaidOut ts (Json.skip cs) rest) :
    LaidOut ts cs rest := by
  obtain ⟨spaces, hspaces, heq⟩ := exists_isSpaced cs
  rw [heq]
  exact h.of_spaces hspaces hts

/-- A token behind spaces. -/
lemma of_skip (hcs : Json.skip cs = t.chars ++ mid) (h : LaidOut ts mid rest) :
    LaidOut (t :: ts) cs rest := by
  obtain ⟨spaces, hspaces, heq⟩ := exists_isSpaced cs
  rw [heq, hcs]
  exact .cons hspaces h

/-- Every token takes a character. -/
lemma length_le (h : LaidOut ts cs rest) (hts : ∀ t ∈ ts, IsToken t) : ts.length ≤ cs.length := by
  induction h with
  | nil => exact Nat.zero_le _
  | @cons t ts _ _ _ _ _ ih =>
    have hle := ih fun t ht => hts t (List.mem_cons_of_mem _ ht)
    obtain ⟨c, cs, hchars, -⟩ := (hts t List.mem_cons_self).exists_cons
    simp only [List.length_append, List.length_cons, hchars]
    omega

end LaidOut

/-- A number ends at a space and at a sign. -/
lemma ends_cons {c : Char} (h : isSpace c = true ∨ isSign c = true) (cs : List Char) :
    Ends (c :: cs) := by
  rcases h with h | h
  · rcases isSpace_iff.1 h with rfl | rfl | rfl | rfl <;> rfl
  · rcases mem_signs h with rfl | rfl | rfl | rfl | rfl | rfl <;> rfl

/-- A number ends at spaces, and where nothing follows. -/
lemma IsSpaced.ends {cs : List Char} (h : IsSpaced cs) : Ends cs := by
  cases cs with
  | nil => rfl
  | cons c cs => exact ends_cons (.inl (h c List.mem_cons_self)) cs

/-- A number ends at a sign that is next. -/
lemma LaidOut.ends {c : Char} {ts : List Token} {cs rest : List Char}
    (h : LaidOut (.sign c :: ts) cs rest) (hc : isSign c = true) : Ends cs := by
  obtain - | @⟨_, _, spaces, mid, _, hspaces, -⟩ := h
  cases spaces with
  | nil => exact ends_cons (.inr hc) mid
  | cons s spaces => exact ends_cons (.inl (hspaces s List.mem_cons_self)) _

/-! ## Values -/

/-- What tokens can stand for: a value, or what stands between the brackets of a list. -/
inductive Phrase
  | value (v : Json)
  | items (vs : List Json)
  | entries (es : List (Option String × Json))

/-- What tokens stand for what. -/
inductive Spells : List Token → Phrase → Prop
  | null : Spells [.word "null".toList] (.value .null)
  | true : Spells [.word "true".toList] (.value (.bool Bool.true))
  | false : Spells [.word "false".toList] (.value (.bool Bool.false))
  | number {ds} : IsNumber ds → Spells [.word ds] (.value (.number ds))
  | text {body ps} : IsText body ps → Spells [.text body] (.value (.text (textOf ps)))
  | emptyArray : Spells [.sign '[', .sign ']'] (.value (.array []))
  | array {ts vs} : Spells ts (.items vs) →
      Spells (.sign '[' :: (ts ++ [.sign ']'])) (.value (.array vs))
  | emptyObject : Spells [.sign '\x7b', .sign '\x7d'] (.value (.object []))
  | object {ts es} : Spells ts (.entries es) →
      Spells (.sign '\x7b' :: (ts ++ [.sign '\x7d'])) (.value (.object es))
  | item {ts v} : Spells ts (.value v) → Spells ts (.items [v])
  | items {ts us v vs} : Spells ts (.value v) → Spells us (.items vs) →
      Spells (ts ++ .sign ',' :: us) (.items (v :: vs))
  | entry {key ps ts v} : IsText key ps → Spells ts (.value v) →
      Spells (.text key :: .sign ':' :: ts) (.entries [(textOf ps, v)])
  | entries {key ps ts us v es} : IsText key ps → Spells ts (.value v) → Spells us (.entries es) →
      Spells (.text key :: .sign ':' :: (ts ++ .sign ',' :: us)) (.entries ((textOf ps, v) :: es))

/-- What is spelled is spelled in tokens. -/
lemma Spells.isToken {ts : List Token} {p : Phrase} (h : Spells ts p) : ∀ t ∈ ts, IsToken t := by
  induction h with
  | null => exact List.forall_mem_singleton.2 .nullWord
  | true => exact List.forall_mem_singleton.2 .trueWord
  | false => exact List.forall_mem_singleton.2 .falseWord
  | number h => exact List.forall_mem_singleton.2 (.number h)
  | text h => exact List.forall_mem_singleton.2 (.text h)
  | emptyArray | emptyObject =>
    exact List.forall_mem_cons.2 ⟨.sign rfl, List.forall_mem_singleton.2 (.sign rfl)⟩
  | array _ ih | object _ ih =>
    exact List.forall_mem_cons.2 ⟨.sign rfl, List.forall_mem_append.2
      ⟨ih, List.forall_mem_singleton.2 (.sign rfl)⟩⟩
  | item _ ih => exact ih
  | items _ _ ih ih' =>
    exact List.forall_mem_append.2 ⟨ih, List.forall_mem_cons.2 ⟨.sign rfl, ih'⟩⟩
  | entry hkey _ ih =>
    exact List.forall_mem_cons.2 ⟨.text hkey, List.forall_mem_cons.2 ⟨.sign rfl, ih⟩⟩
  | entries hkey _ _ ih ih' =>
    exact List.forall_mem_cons.2 ⟨.text hkey, List.forall_mem_cons.2 ⟨.sign rfl,
      List.forall_mem_append.2 ⟨ih, List.forall_mem_cons.2 ⟨.sign rfl, ih'⟩⟩⟩⟩

/-- Nothing that is spelled is empty or begins with a closing bracket. -/
lemma Spells.exists_cons {ts : List Token} {p : Phrase} (h : Spells ts p) :
    ∃ t us, ts = t :: us ∧ t.closes = Bool.false := by
  induction h with
  | items _ _ ih _ =>
    obtain ⟨t, us, rfl, ht⟩ := ih
    exact ⟨t, _, rfl, ht⟩
  | item _ ih => exact ih
  | _ => exact ⟨_, _, rfl, rfl⟩

/-! ## What is spelled is read -/

/-- What tokens stand for is read wherever they are laid out, if there is a level for each token. -/
def Reads (ts : List Token) : Phrase → Prop
  | .value v => ∀ {depth cs rest}, LaidOut ts cs rest → Ends rest → ts.length ≤ depth →
      readValue depth cs = some (v, rest)
  | .items vs => ∀ {depth cs rest}, LaidOut (ts ++ [.sign ']']) cs rest → ts.length < depth →
      readItems depth cs = some (vs, rest)
  | .entries es => ∀ {depth cs rest}, LaidOut (ts ++ [.sign '\x7d']) cs rest → ts.length < depth →
      readEntries depth cs = some (es, rest)

/-- What begins with another token does not begin with a closing bracket. -/
lemma IsToken.chars_append_ne {t : Token} (h : IsToken t) (ht : t.closes = false) {c : Char}
    (hc : (Token.sign c).closes = true) (cs mid : List Char) : t.chars ++ mid ≠ c :: cs := by
  intro heq
  cases t with
  | sign d =>
    obtain rfl : d = c := (List.cons.inj heq).1
    simp [hc] at ht
  | text body =>
    obtain rfl : '"' = c := (List.cons.inj heq).1
    exact absurd hc (by decide)
  | word ds =>
    obtain ⟨d, ds', hds, -⟩ := h.exists_cons
    obtain rfl : ds = d :: ds' := hds
    obtain rfl : d = c := (List.cons.inj heq).1
    have hword : Json.isWordChar d = true := List.all_eq_true.1 h.isWordChar d List.mem_cons_self
    have hd : d = ']' ∨ d = '\x7d' := by simpa [Token.closes] using hc
    rcases hd with rfl | rfl <;> exact absurd hword (by decide)

/-- A level is left for the first token. -/
lemma exists_depth {t : Token} {ts : List Token} {depth : Nat} (h : (t :: ts).length ≤ depth) :
    ∃ k, depth = k + 1 ∧ ts.length ≤ k := by
  rw [List.length_cons] at h
  exact ⟨depth - 1, by omega, by omega⟩

/-- A value of one token is read if it is read behind spaces. -/
lemma reads_token {t : Token} {v : Json} (ht : IsToken t)
    (h : ∀ {depth : Nat} {cs rest : List Char}, skip cs = t.chars ++ rest → Ends rest →
      readValue (depth + 1) cs = some (v, rest)) : Reads [t] (.value v) := by
  intro depth cs rest hlaid hrest hdepth
  obtain ⟨depth, rfl, -⟩ := exists_depth hdepth
  obtain ⟨mid, hskip, hmid⟩ := hlaid.skip ht
  cases hmid
  exact h hskip hrest

/-- A text is read with its closing quote. -/
lemma IsText.readText {body : List Char} {ps : List Piece} (h : IsText body ps)
    (rest : List Char) : readText (body ++ ['"'] ++ rest) = some (textOf ps, rest) := by
  rw [List.append_assoc, List.singleton_append, Json.readText, h.readPieces]
  rfl

/-- A text in quotes is read as a value. -/
lemma reads_text {body : List Char} {ps : List Piece} (h : IsText body ps) :
    Reads [.text body] (.value (.text (textOf ps))) := by
  refine reads_token (.text h) fun {depth cs rest} hskip _ => ?_
  rw [readValue, show skip cs = '"' :: (body ++ ['"'] ++ rest) from hskip]
  simp only [h.readText]
  rfl

/-- A number is read as a value, if nothing continues it. -/
lemma reads_number {ds : List Char} (h : IsNumber ds) : Reads [.word ds] (.value (.number ds)) := by
  refine reads_token (.number h) fun {depth cs rest} hskip hrest => ?_
  have hread := h.readNumber hrest
  obtain ⟨c, ds, rfl, hc⟩ := h.exists_cons
  have hne : ∀ d tail, beginsNumber d = false → skip cs ≠ d :: tail := by
    rintro d tail hd heq
    rw [hskip] at heq
    rw [← (List.cons.inj heq).1] at hd
    exact absurd hc (by simp [hd])
  rw [readValue]
  split
  -- no other value begins as a number does
  · next heq => exact absurd heq (hne 'n' _ rfl)
  · next heq => exact absurd heq (hne 't' _ rfl)
  · next heq => exact absurd heq (hne 'f' _ rfl)
  · next heq => exact absurd heq (hne '"' _ rfl)
  · next heq => exact absurd heq (hne '[' _ rfl)
  · next heq => exact absurd heq (hne '\x7b' _ rfl)
  · rw [hskip, Token.chars, hread]
    rfl

/-- Brackets with nothing between them. -/
lemma LaidOut.empty {o c : Char} {cs rest : List Char} (ho : isSign o = true)
    (hc : isSign c = true) (h : LaidOut [.sign o, .sign c] cs rest) :
    ∃ mid, Json.skip cs = o :: mid ∧ Json.skip mid = c :: rest := by
  obtain ⟨mid, hopen, hmid⟩ := h.skip (.sign ho)
  obtain ⟨tail, hclose, htail⟩ := hmid.skip (.sign hc)
  cases htail
  exact ⟨mid, hopen, hclose⟩

/-- Brackets with something between them, which does not look like the closing one. -/
lemma LaidOut.nonempty {o c : Char} {ts : List Token} {p : Phrase} {cs rest : List Char}
    (ho : isSign o = true) (hc : (Token.sign c).closes = true) (hts : Spells ts p)
    (h : LaidOut (.sign o :: (ts ++ [.sign c])) cs rest) :
    ∃ mid, Json.skip cs = o :: mid ∧ LaidOut (ts ++ [.sign c]) (Json.skip mid) rest ∧
      ∀ tail, Json.skip mid ≠ c :: tail := by
  obtain ⟨mid, hopen, hmid⟩ := h.skip (.sign ho)
  obtain ⟨t, us, rfl, ht⟩ := hts.exists_cons
  have htoken := hts.isToken t List.mem_cons_self
  obtain ⟨tail, hskip, htail⟩ := hmid.skip htoken
  refine ⟨mid, hopen, ?_, fun cs => ?_⟩
  · rw [hskip]
    exact htail.next
  · rw [hskip]
    exact htoken.chars_append_ne ht hc cs tail

/-- Two brackets are an array without items. -/
lemma reads_emptyArray : Reads [.sign '[', .sign ']'] (.value (.array [])) := by
  intro depth cs rest hlaid _ hdepth
  obtain ⟨depth, rfl, -⟩ := exists_depth hdepth
  obtain ⟨mid, hopen, hclose⟩ := hlaid.empty rfl rfl
  rw [readValue, hopen]
  simp only [hclose]

/-- Two braces are an object without entries. -/
lemma reads_emptyObject : Reads [.sign '\x7b', .sign '\x7d'] (.value (.object [])) := by
  intro depth cs rest hlaid _ hdepth
  obtain ⟨depth, rfl, -⟩ := exists_depth hdepth
  obtain ⟨mid, hopen, hclose⟩ := hlaid.empty rfl rfl
  rw [readValue, hopen]
  simp only [hclose]

/-- Items in brackets are read as an array. -/
lemma reads_array {ts : List Token} {vs : List Json} (hts : Spells ts (.items vs))
    (h : Reads ts (.items vs)) : Reads (.sign '[' :: (ts ++ [.sign ']'])) (.value (.array vs)) := by
  intro depth cs rest hlaid _ hdepth
  obtain ⟨depth, rfl, hroom⟩ := exists_depth hdepth
  rw [List.length_append] at hroom
  obtain ⟨mid, hopen, hmid, hne⟩ := hlaid.nonempty rfl rfl hts
  rw [readValue, hopen]
  -- the list is not empty by `hne`
  simp [h hmid hroom]

/-- Entries in braces are read as an object. -/
lemma reads_object {ts : List Token} {es : List (Option String × Json)}
    (hts : Spells ts (.entries es)) (h : Reads ts (.entries es)) :
    Reads (.sign '\x7b' :: (ts ++ [.sign '\x7d'])) (.value (.object es)) := by
  intro depth cs rest hlaid _ hdepth
  obtain ⟨depth, rfl, hroom⟩ := exists_depth hdepth
  rw [List.length_append] at hroom
  obtain ⟨mid, hopen, hmid, hne⟩ := hlaid.nonempty rfl rfl hts
  rw [readValue, hopen]
  -- the list is not empty by `hne`
  simp [h hmid hroom]

/-- A value is read as the last item. -/
lemma reads_item {ts : List Token} {v : Json} (h : Reads ts (.value v)) :
    Reads ts (.items [v]) := by
  intro depth cs rest hlaid hdepth
  obtain ⟨depth, rfl⟩ : ∃ k, depth = k + 1 := ⟨depth - 1, by omega⟩
  obtain ⟨mid, hts, hmid⟩ := hlaid.of_append
  obtain ⟨tail, hclose, htail⟩ := hmid.skip (.sign rfl)
  cases htail
  have hread : readValue depth cs = some (v, mid) := h hts (hmid.ends rfl) (by omega)
  rw [readItems, hread]
  simp only [Option.bind_eq_bind, Option.bind_some, show skip mid = ']' :: rest from hclose]
  rfl

/-- A value and a comma are read before further items. -/
lemma reads_items {ts us : List Token} {v : Json} {vs : List Json} (h : Reads ts (.value v))
    (h' : Reads us (.items vs)) : Reads (ts ++ .sign ',' :: us) (.items (v :: vs)) := by
  intro depth cs rest hlaid hdepth
  rw [List.append_assoc] at hlaid
  rw [List.length_append, List.length_cons] at hdepth
  obtain ⟨depth, rfl⟩ : ∃ k, depth = k + 1 := ⟨depth - 1, by omega⟩
  obtain ⟨mid, hts, hmid⟩ := hlaid.of_append
  obtain ⟨tail, hcomma, htail⟩ := hmid.skip (.sign rfl)
  have hread : readValue depth cs = some (v, mid) := h hts (hmid.ends rfl) (by omega)
  have hread' : readItems depth tail = some (vs, rest) := h' htail (by omega)
  rw [readItems, hread]
  simp only [Option.bind_eq_bind, Option.bind_some, show skip mid = ',' :: tail from hcomma, hread']
  rfl

/-- A key and its colon are read. -/
lemma LaidOut.key {key : List Char} {ps : List Piece} {ts : List Token} {cs rest : List Char}
    (hkey : IsText key ps) (h : LaidOut (.text key :: .sign ':' :: ts) cs rest) :
    ∃ quoted mid tail, Json.skip cs = '"' :: quoted ∧ readText quoted = some (textOf ps, mid) ∧
      Json.skip mid = ':' :: tail ∧ LaidOut ts tail rest := by
  obtain ⟨mid, hquote, hmid⟩ := h.skip (.text hkey)
  obtain ⟨tail, hcolon, htail⟩ := hmid.skip (.sign rfl)
  exact ⟨_, mid, tail, hquote, hkey.readText mid, hcolon, htail⟩

/-- A key and its value are read as the last entry. -/
lemma reads_entry {key : List Char} {ps : List Piece} {ts : List Token} {v : Json}
    (hkey : IsText key ps) (h : Reads ts (.value v)) :
    Reads (.text key :: .sign ':' :: ts) (.entries [(textOf ps, v)]) := by
  intro depth cs rest hlaid hdepth
  simp only [List.length_cons] at hdepth
  obtain ⟨depth, rfl⟩ : ∃ k, depth = k + 1 := ⟨depth - 1, by omega⟩
  obtain ⟨quoted, afterKey, body, hquote, hread, hcolon, hbody⟩ := hlaid.key hkey
  obtain ⟨mid, hts, hmid⟩ := hbody.of_append
  obtain ⟨tail, hclose, htail⟩ := hmid.skip (.sign rfl)
  cases htail
  have hvalue : readValue depth body = some (v, mid) := h hts (hmid.ends rfl) (by omega)
  rw [readEntries, hquote]
  simp only [Option.bind_eq_bind, Option.bind_some, hread, hcolon, hvalue,
    show skip mid = '\x7d' :: rest from hclose]
  rfl

/-- A key, its value and a comma are read before further entries. -/
lemma reads_entries {key : List Char} {ps : List Piece} {ts us : List Token} {v : Json}
    {es : List (Option String × Json)} (hkey : IsText key ps) (h : Reads ts (.value v))
    (h' : Reads us (.entries es)) :
    Reads (.text key :: .sign ':' :: (ts ++ .sign ',' :: us)) (.entries ((textOf ps, v) :: es)) := by
  intro depth cs rest hlaid hdepth
  rw [List.cons_append, List.cons_append, List.append_assoc] at hlaid
  simp only [List.length_cons, List.length_append] at hdepth
  obtain ⟨depth, rfl⟩ : ∃ k, depth = k + 1 := ⟨depth - 1, by omega⟩
  obtain ⟨quoted, afterKey, body, hquote, hread, hcolon, hbody⟩ := hlaid.key hkey
  obtain ⟨mid, hts, hmid⟩ := hbody.of_append
  obtain ⟨tail, hcomma, htail⟩ := hmid.skip (.sign rfl)
  have hvalue : readValue depth body = some (v, mid) := h hts (hmid.ends rfl) (by omega)
  have hrest : readEntries depth tail = some (es, rest) := h' htail (by omega)
  rw [readEntries, hquote]
  simp only [Option.bind_eq_bind, Option.bind_some, hread, hcolon, hvalue,
    show skip mid = ',' :: tail from hcomma, hrest]
  rfl

/-- What tokens stand for is read wherever they are laid out. -/
theorem Spells.reads {ts : List Token} {p : Phrase} (h : Spells ts p) : Reads ts p := by
  induction h with
  | null =>
    refine reads_token .nullWord fun {depth cs rest} hskip _ => ?_
    rw [readValue, show skip cs = 'n' :: 'u' :: 'l' :: 'l' :: rest from hskip]
    rfl
  | true =>
    refine reads_token .trueWord fun {depth cs rest} hskip _ => ?_
    rw [readValue, show skip cs = 't' :: 'r' :: 'u' :: 'e' :: rest from hskip]
    rfl
  | false =>
    refine reads_token .falseWord fun {depth cs rest} hskip _ => ?_
    rw [readValue, show skip cs = 'f' :: 'a' :: 'l' :: 's' :: 'e' :: rest from hskip]
    rfl
  | number h => exact reads_number h
  | text h => exact reads_text h
  | emptyArray => exact reads_emptyArray
  | array h ih => exact reads_array h ih
  | emptyObject => exact reads_emptyObject
  | object h ih => exact reads_object h ih
  | item _ ih => exact reads_item ih
  | items _ _ ih ih' => exact reads_items ih ih'
  | entry hkey _ ih => exact reads_entry hkey ih
  | entries hkey _ _ ih ih' => exact reads_entries hkey ih ih'

/-! ## What is read is spelled -/

/-- Whatever is read at a depth is spelled by tokens that are laid out there. -/
structure SpelledAt (depth : Nat) : Prop where
  value : ∀ {cs v rest}, readValue depth cs = some (v, rest) →
    ∃ ts, Spells ts (.value v) ∧ LaidOut ts cs rest
  items : ∀ {cs vs rest}, readItems depth cs = some (vs, rest) →
    ∃ ts, Spells ts (.items vs) ∧ LaidOut (ts ++ [.sign ']']) cs rest
  entries : ∀ {cs es rest}, readEntries depth cs = some (es, rest) →
    ∃ ts, Spells ts (.entries es) ∧ LaidOut (ts ++ [.sign '\x7d']) cs rest

/-- What has been read as a text is spelled by a text in quotes. -/
lemma spelled_text {cs rest : List Char} {s : Option String} (h : readText cs = some (s, rest)) :
    ∃ body ps, IsText body ps ∧ s = textOf ps ∧ '"' :: cs = (Token.text body).chars ++ rest := by
  simp only [readText, Option.bind_eq_bind, Option.bind_eq_some_iff, Option.pure_def,
    Option.some.injEq, Prod.mk.injEq, Prod.exists] at h
  obtain ⟨ps, _, hps, rfl, rfl⟩ := h
  obtain ⟨body, hbody, rfl⟩ := isText_of_readPieces hps
  exact ⟨body, ps, hbody, rfl, by simp [Token.chars]⟩

namespace SpelledAt

variable {depth : Nat} {cs rest : List Char}

/-- One level deeper, a value that is read is spelled. -/
lemma value_succ (h : SpelledAt depth) {v : Json}
    (hread : readValue (depth + 1) cs = some (v, rest)) :
    ∃ ts, Spells ts (.value v) ∧ LaidOut ts cs rest := by
  rw [readValue] at hread
  split at hread
  · next heq =>
    cases hread
    exact ⟨_, .null, .of_skip heq .nil⟩
  · next heq =>
    cases hread
    exact ⟨_, .true, .of_skip heq .nil⟩
  · next heq =>
    cases hread
    exact ⟨_, .false, .of_skip heq .nil⟩
  · next mid heq =>
    simp only [Option.bind_eq_bind, Option.bind_eq_some_iff, Option.pure_def, Option.some.injEq,
      Prod.mk.injEq, Prod.exists] at hread
    obtain ⟨s, _, hs, rfl, rfl⟩ := hread
    obtain ⟨body, ps, hbody, rfl, hchars⟩ := spelled_text hs
    exact ⟨_, .text hbody, .of_skip (heq.trans hchars) .nil⟩
  · next mid heq =>
    split at hread
    · next hclose =>
      cases hread
      exact ⟨_, .emptyArray, .of_skip heq (.of_skip hclose .nil)⟩
    · simp only [Option.bind_eq_bind, Option.bind_eq_some_iff, Option.pure_def, Option.some.injEq,
        Prod.mk.injEq, Prod.exists] at hread
      obtain ⟨vs, _, hvs, rfl, rfl⟩ := hread
      obtain ⟨ts, hts, hlaid⟩ := h.items hvs
      exact ⟨_, .array hts, .of_skip heq (.of_laidOut_skip (by simp) hlaid)⟩
  · next mid heq =>
    split at hread
    · next hclose =>
      cases hread
      exact ⟨_, .emptyObject, .of_skip heq (.of_skip hclose .nil)⟩
    · simp only [Option.bind_eq_bind, Option.bind_eq_some_iff, Option.pure_def, Option.some.injEq,
        Prod.mk.injEq, Prod.exists] at hread
      obtain ⟨es, _, hes, rfl, rfl⟩ := hread
      obtain ⟨ts, hts, hlaid⟩ := h.entries hes
      exact ⟨_, .object hts, .of_skip heq (.of_laidOut_skip (by simp) hlaid)⟩
  · simp only [Option.bind_eq_bind, Option.bind_eq_some_iff, Option.pure_def, Option.some.injEq,
      Prod.mk.injEq, Prod.exists] at hread
    obtain ⟨ds, _, hds, rfl, rfl⟩ := hread
    obtain ⟨hnumber, heq⟩ := isNumber_of_readNumber hds
    exact ⟨_, .number hnumber, .of_skip heq .nil⟩

/-- One level deeper, the items of an array are spelled. -/
lemma items_succ (h : SpelledAt depth) {vs : List Json}
    (hread : readItems (depth + 1) cs = some (vs, rest)) :
    ∃ ts, Spells ts (.items vs) ∧ LaidOut (ts ++ [.sign ']']) cs rest := by
  simp only [readItems, Option.bind_eq_bind, Option.bind_eq_some_iff, Prod.exists] at hread
  obtain ⟨v, mid, hv, hread⟩ := hread
  obtain ⟨ts, hts, hlaid⟩ := h.value hv
  split at hread
  · next heq =>
    cases hread
    exact ⟨ts, .item hts, hlaid.append (.of_skip heq .nil)⟩
  · next heq =>
    simp only [Option.bind_eq_some_iff, Option.pure_def, Option.some.injEq, Prod.mk.injEq,
      Prod.exists] at hread
    obtain ⟨vs, _, hvs, rfl, rfl⟩ := hread
    obtain ⟨us, hus, hlaid'⟩ := h.items hvs
    refine ⟨_, .items hts hus, ?_⟩
    rw [List.append_assoc]
    exact hlaid.append (.of_skip heq hlaid')
  · cases hread

/-- One level deeper, the entries of an object are spelled. -/
lemma entries_succ (h : SpelledAt depth) {es : List (Option String × Json)}
    (hread : readEntries (depth + 1) cs = some (es, rest)) :
    ∃ ts, Spells ts (.entries es) ∧ LaidOut (ts ++ [.sign '\x7d']) cs rest := by
  rw [readEntries] at hread
  split at hread
  · next quoted hquote =>
    simp only [Option.bind_eq_bind, Option.bind_eq_some_iff, Prod.exists] at hread
    obtain ⟨s, afterKey, hs, hread⟩ := hread
    obtain ⟨key, ps, hkey, rfl, hchars⟩ := spelled_text hs
    split at hread
    · next body hcolon =>
      simp only [Option.bind_eq_some_iff, Prod.exists] at hread
      obtain ⟨v, mid, hv, hread⟩ := hread
      obtain ⟨ts, hts, hlaid⟩ := h.value hv
      -- the key and its colon stand in front of either continuation
      have hfront {us} (hus : LaidOut us body rest) :
          LaidOut (.text key :: .sign ':' :: us) cs rest :=
        .of_skip (hquote.trans hchars) (.of_skip hcolon hus)
      split at hread
      · next heq =>
        cases hread
        exact ⟨_, .entry hkey hts, hfront (hlaid.append (.of_skip heq .nil))⟩
      · next heq =>
        simp only [Option.bind_eq_some_iff, Option.pure_def, Option.some.injEq, Prod.mk.injEq,
          Prod.exists] at hread
        obtain ⟨es, _, hes, rfl, rfl⟩ := hread
        obtain ⟨us, hus, hlaid'⟩ := h.entries hes
        refine ⟨_, .entries hkey hts hus, hfront ?_⟩
        show LaidOut (ts ++ .sign ',' :: us ++ [.sign '\x7d']) body _
        rw [List.append_assoc]
        exact hlaid.append (.of_skip heq hlaid')
      · cases hread
    · cases hread
  · cases hread

end SpelledAt

/-- What is read is spelled, at every depth. -/
theorem spelledAt (depth : Nat) : SpelledAt depth := by
  induction depth with
  | zero => exact ⟨by simp [readValue], by simp [readItems], by simp [readEntries]⟩
  | succ depth ih => exact ⟨ih.value_succ, ih.items_succ, ih.entries_succ⟩

/-- The reader accepts the documents of the grammar, with the values that they stand for. -/
theorem parse?_eq_some_iff {cs : List Char} {v : Json} :
    parse? cs = some v ↔ ∃ ts, Spells ts (.value v) ∧ LaysOut ts cs := by
  simp only [parse?, Option.bind_eq_bind, Option.bind_eq_some_iff, Option.guard_eq_some',
    Option.pure_def, Option.some.injEq, Prod.exists, List.isEmpty_iff]
  constructor
  · rintro ⟨v, rest, hread, _, hrest, rfl⟩
    obtain ⟨ts, hts, hlaid⟩ := (spelledAt _).value hread
    obtain ⟨spaces, hspaces, heq⟩ := exists_isSpaced rest
    rw [hrest, List.append_nil] at heq
    exact ⟨ts, hts, rest, heq ▸ hspaces, hlaid⟩
  · rintro ⟨ts, hts, rest, hrest, hlaid⟩
    have hlength := hlaid.length_le hts.isToken
    refine ⟨v, rest, hts.reads hlaid hrest.ends (by omega), (), ?_, rfl⟩
    simpa [skip] using skip_append hrest []

end StoreBindings.Json
