import StoreBindings.Proofs.Syntax.Reading
import StoreBindings.Proofs.Text.Basic
import StoreBindings.Syntax.Grammar

/-!
# Values that are spelled like numbers

Where a number, or a sign with a number right behind it, begins a value, the value is that number or
goes on behind it with more than blanks (`Begins`). A number is read as far as it goes, so no value
that goes on is spelled like one: `suits_of_begins`. Readers of values lay one (`Values`) from readers
that begin one and readers that only make what was laid last a part of something larger (`Widens`).
-/

namespace StoreBindings.Syntax

/-! ## Numerals at the front of a text -/

/-- The number at the front of a text, or the sign there with the number right behind it. -/
inductive NumeralAt : List Char → Tree → Prop
  | number {cs : List Char} (h : startsNumber cs = true) :
      NumeralAt cs (.leaf .plain .number (takeNumber cs).1)
  | signed {s : Char} {cs : List Char} (hs : s = '+' ∨ s = '-') (h : startsNumber cs = true) :
      NumeralAt (s :: cs)
        (.node .plain .other [.leaf .plain .keyword [s], .leaf .plain .number (takeNumber cs).1])

/-- Whether a text has a character that is no blank. -/
def Shows (cs : List Char) : Prop := ∃ c ∈ cs, Text.isBlank c = false

/-- A tree in which another one stands first, with more than blanks behind it, or that other one. -/
def Tree.Extends (t t' : Tree) : Prop := t' = t ∨ ∃ more, Shows more ∧ t'.chars = t.chars ++ more

/-- What a value is that begins at the front of a text. -/
def Begins (cs : List Char) (v : Tree) : Prop := ∀ t, NumeralAt cs t → t.Extends v

lemma NumeralAt.isNumeral {cs : List Char} {t : Tree} (h : NumeralAt cs t) : t.IsNumeral := by
  cases h with
  | number => exact .inl rfl
  | signed hs => exact .inr ⟨_, _, hs, rfl, rfl, rfl⟩

/-- A decimal number at the front of a text, perhaps with a sign, is part of the numeral there. -/
lemma exists_numeralAt {cs number : List Char} (h : number <+: cs)
    (hnumber : Text.isDecimal (Text.withoutSign number) = true) :
    ∃ t, NumeralAt cs t ∧ number.length ≤ t.chars.length := by
  have hplain (hdecimal : Text.isDecimal number = true) :
      ∃ t, NumeralAt cs t ∧ number.length ≤ t.chars.length :=
    ⟨_, .number (startsNumber_of_isDecimal h hdecimal), length_le_takeNumber h hdecimal⟩
  have hsigned {s : Char} {digits : List Char} (hs : s = '+' ∨ s = '-')
      (hcs : number = s :: digits) (hdecimal : Text.isDecimal digits = true) :
      ∃ t, NumeralAt cs t ∧ number.length ≤ t.chars.length := by
    subst hcs
    obtain ⟨rest, rfl⟩ := h
    have hdigits : digits <+: digits ++ rest := List.prefix_append _ _
    refine ⟨_, .signed hs (startsNumber_of_isDecimal hdigits hdecimal), ?_⟩
    have hlength := length_le_takeNumber hdigits hdecimal
    simpa [Tree.chars, Tree.charsOfAll] using hlength
  -- a sign in front is a token of its own
  unfold Text.withoutSign at hnumber
  split at hnumber
  · exact hsigned (.inl rfl) rfl hnumber
  · exact hsigned (.inr rfl) rfl hnumber
  · exact hplain hnumber

/-- A value that begins where it should is spelled like a number only if it is one. -/
theorem suits_of_begins {cs : List Char} {v : Tree} (hv : v.chars <+: cs)
    (hstart : ∀ a ∈ cs.head?, isSpace a = false) (h : Begins cs v) : Tree.Suits .value v := by
  intro hdecimal
  rcases hchars : v.chars with - | ⟨a, as⟩
  · rw [hchars] at hdecimal
    cases hdecimal
  have ha : Text.isBlank a = false := by
    obtain ⟨rest, rfl⟩ := hv
    have hspace := hstart a (by rw [hchars]; rfl)
    simp only [isSpace, Bool.or_eq_false_iff] at hspace
    exact hspace.1.1.1
  obtain ⟨blanks, htrim, hblanks⟩ := Text.exists_blanks_of_trim ha as
  rw [← hchars] at htrim
  have hnumber : Text.trim v.chars <+: cs := List.IsPrefix.trans ⟨blanks, htrim⟩ hv
  obtain ⟨t, ht, hlength⟩ := exists_numeralAt hnumber hdecimal
  rcases h t ht with rfl | ⟨more, ⟨c, hc, hshows⟩, hmore⟩
  · exact ht.isNumeral
  · -- what stands behind the numeral would have been trimmed
    have hsuffix : more <:+ blanks := by
      have hmore' : more <:+ v.chars := ⟨_, hmore.symm⟩
      refine List.suffix_of_suffix_length_le hmore' ⟨_, htrim⟩ ?_
      have := congrArg List.length (htrim.trans hmore)
      simp only [List.length_append] at this
      omega
    rw [hblanks c (hsuffix.subset hc)] at hshows
    cases hshows

lemma Shows.append_left {cs : List Char} (h : Shows cs) (before : List Char) :
    Shows (before ++ cs) :=
  let ⟨c, hc, hshows⟩ := h
  ⟨c, List.mem_append_right _ hc, hshows⟩

lemma Shows.append_right {cs : List Char} (h : Shows cs) (behind : List Char) :
    Shows (cs ++ behind) :=
  let ⟨c, hc, hshows⟩ := h
  ⟨c, List.mem_append_left _ hc, hshows⟩

lemma Tree.Extends.trans {t t' t'' : Tree} (h : t.Extends t') (h' : t'.Extends t'') :
    t.Extends t'' := by
  rcases h with rfl | ⟨more, hshows, hchars⟩
  · exact h'
  rcases h' with rfl | ⟨more', -, hchars'⟩
  · exact .inr ⟨more, hshows, hchars⟩
  · exact .inr ⟨more ++ more', hshows.append_right _, by rw [hchars', hchars, List.append_assoc]⟩

namespace Cursor

variable {c : Cursor}

/-- What is ahead begins with something that shows, unless the source ends there. -/
lemma Good.shows_take (h : c.Good) (hstop : c.token ≠ .stop) {n : Nat} (hn : 0 < n) :
    Shows (c.front.take n) := by
  rcases hfront : c.front with - | ⟨a, as⟩
  · have hread := h.read
    rw [hfront] at hread
    exact absurd (congrArg Prod.fst hread).symm hstop
  · obtain ⟨n, rfl⟩ := Nat.exists_eq_succ_of_ne_zero (Nat.ne_of_gt hn)
    have hspace := h.start a (by rw [hfront]; rfl)
    simp only [isSpace, Bool.or_eq_false_iff] at hspace
    exact ⟨a, List.mem_cons_self, hspace.1.1.1⟩

lemma Good.shows_chars (h : c.Good) {s : String} (hs : c.token = .symbol s) :
    Shows c.chars := by
  have hne : c.chars ≠ [] := by
    rw [h.chars hs]
    exact ne_nil_of_read (h.token_read.trans hs)
  have htake := h.shows_take (by simp [hs]) (List.length_pos_iff.2 hne)
  rwa [front, List.take_left] at htake

end Cursor

namespace Reader

variable {α β : Type}

/-! ## Readers that only look ahead -/

/-- A reader that does not move on. -/
class Looks (p : Reader α) : Prop where
  looks : ∀ {c c' : Cursor} {a : α}, p c = some (a, c') → c' = c

section

variable {p q : Reader α} {f : α → Reader β}

instance looks_pure (a : α) : Looks (pure a : Reader α) := ⟨fun h => by cases h; rfl⟩

instance looks_failure : Looks (failure : Reader α) := ⟨fun h => by cases h⟩

instance looks_guard (b : Prop) [Decidable b] : Looks (guard b : Reader Unit) :=
  ⟨fun h => (guard_eq_some h).2⟩

instance looks_get : Looks (get : Reader Cursor) := ⟨fun h => by cases h; rfl⟩

instance looks_bind [g : Looks p] [h : ∀ a, Looks (f a)] : Looks (p >>= f) where
  looks hread := by
    obtain ⟨a, c₁, hp, hf⟩ := bind_eq_some hread
    exact ((h a).looks hf).trans (g.looks hp)

instance looks_ite (b : Prop) [Decidable b] [g : Looks p] [h : Looks q] :
    Looks (if b then p else q) := by
  split <;> assumption

instance looks_token : Looks token := inferInstanceAs (Looks (get >>= _))

instance looks_isSymbol (s : String) : Looks (isSymbol s) := inferInstanceAs (Looks (get >>= _))

instance looks_isWord (w : String) : Looks (isWord w) := inferInstanceAs (Looks (get >>= _))

instance looks_atLineStart : Looks atLineStart := inferInstanceAs (Looks (get >>= _))

instance looks_second : Looks second := inferInstanceAs (Looks (get >>= _))

instance looks_atAngle : Looks atAngle := by
  unfold atAngle
  infer_instance

end

/-! ## Readers that lay one part -/

/-- A reader that lays one part behind what has been read and the blanks behind it. -/
class LaysOne (p : Reader Unit) : Prop where
  lays : Lays (fun _ => True) p

lemma laysOne_of_lays {P : Tree → Prop} {p : Reader Unit} (h : Lays P p) : LaysOne p where
  lays hc hread :=
    let ⟨t, hdone, _⟩ := h hc hread
    ⟨t, hdone, trivial⟩

instance laysOne_take (r : Role) (k : Kind) : LaysOne (take r k) :=
  laysOne_of_lays (lays_take r k)

instance laysOne_takeChars (r : Role) (k : Kind) (n : Nat) : LaysOne (takeChars r k n) where
  lays _ hread := by
    cases hread
    exact ⟨_, rfl, trivial⟩

instance laysOne_failure : LaysOne failure := ⟨lays_failure⟩

instance laysOne_nodeBy (p : Reader Kind) : LaysOne (nodeBy p) where
  lays _ hread := by
    obtain ⟨_, _, _, rfl⟩ := nodeBy_eq_some hread
    exact ⟨_, rfl, trivial⟩

instance laysOne_node (kind : Kind) (p : Reader Unit) : LaysOne (node kind p) :=
  inferInstanceAs (LaysOne (nodeBy _))

instance laysOne_ite (b : Prop) [Decidable b] {p q : Reader Unit} [g : LaysOne p] [h : LaysOne q] :
    LaysOne (if b then p else q) := by
  split <;> assumption

instance laysOne_bind {p : Reader α} {f : α → Reader Unit} [g : Looks p] [h : ∀ a, LaysOne (f a)] :
    LaysOne (p >>= f) where
  lays hc hread := by
    obtain ⟨a, c₁, hp, hf⟩ := bind_eq_some hread
    obtain rfl := g.looks hp
    exact (h a).lays hc hf

/-! ## Readers that take something that shows -/

/-- A reader that goes on behind something that is no blank. -/
class Takes (p : Reader α) : Prop where
  takes : ∀ {c c' : Cursor} {a : α}, c.Good → p c = some (a, c') →
    ∃ more, Shows more ∧ c'.text = c.text ++ more

section

variable {p q : Reader α} {f : α → Reader β}

instance takes_failure : Takes (failure : Reader α) := ⟨fun _ hread => by cases hread⟩

instance (priority := low) takes_bind_of_takes [g : Sound p] [h : Takes p] [k : ∀ a, Sound (f a)] :
    Takes (p >>= f) where
  takes hc hread := by
    obtain ⟨a, c₁, hp, hf⟩ := bind_eq_some hread
    obtain ⟨more, hshows, hmore⟩ := h.takes hc hp
    obtain ⟨more', hmore'⟩ := ((k a).leads (g.good hc hp) hf).text
    exact ⟨more ++ more', hshows.append_right _, by rw [← hmore', hmore, List.append_assoc]⟩

instance takes_bind [g : Sound p] [h : ∀ a, Takes (f a)] : Takes (p >>= f) where
  takes hc hread := by
    obtain ⟨a, c₁, hp, hf⟩ := bind_eq_some hread
    obtain ⟨more, hmore⟩ := (g.leads hc hp).text
    obtain ⟨more', hshows, hmore'⟩ := (h a).takes (g.good hc hp) hf
    exact ⟨more ++ more', hshows.append_left _, by rw [hmore', ← hmore, List.append_assoc]⟩

instance takes_ite (b : Prop) [Decidable b] [g : Takes p] [h : Takes q] :
    Takes (if b then p else q) := by
  split <;> assumption

end

/-- A leaf that is added together with the blanks before it. -/
lemma takes_leaf (c : Cursor) (r : Role) (k : Kind) {cs : List Char} (h : Shows cs)
    (ahead : List Char) : ∃ more, Shows more ∧
      (Cursor.before (.leaf r k cs :: c.doneWithBlanks) ahead).text = c.text ++ more :=
  ⟨Tree.charsOfAll c.blanks ++ cs, h.append_left _, by
    simp [Cursor.text, Cursor.before, Cursor.doneWithBlanks, Tree.charsOfAll, Tree.chars]⟩

instance takes_symbol (s : String) : Takes (symbol s) where
  takes {c _ _} hc hread := by
    obtain ⟨_, _, hsymbol, hread⟩ := bind_eq_some hread
    cases hsymbol
    obtain ⟨_, _, hguard, htake⟩ := bind_eq_some hread
    obtain ⟨htoken, rfl⟩ := guard_eq_some hguard
    cases htake
    exact takes_leaf _ _ _ (hc.shows_chars (eq_of_beq htoken)) _

instance takes_openAngle : Takes openAngle where
  takes {c _ _} hc hread := by
    obtain ⟨_, _, hone, hread⟩ := bind_eq_some hread
    cases hone
    obtain ⟨_, _, htwo, hread⟩ := bind_eq_some hread
    cases htwo
    obtain ⟨_, _, hguard, htake⟩ := bind_eq_some hread
    obtain ⟨htoken, rfl⟩ := guard_eq_some hguard
    cases htake
    refine takes_leaf _ _ _ (hc.shows_take (fun hstop => ?_) Nat.one_pos) _
    rw [hstop] at htoken
    cases htoken

instance takes_node {kind : Kind} {p : Reader Unit} [h : Takes p] : Takes (node kind p) where
  takes {c _ _} hc hread := by
    obtain ⟨_, c', hp, rfl⟩ := nodeBy_eq_some hread
    obtain ⟨_, c₁, hp, hpure⟩ := bind_eq_some hp
    cases hpure
    obtain ⟨more, hshows, hmore⟩ := h.takes (good_opened hc) hp
    refine ⟨Tree.charsOfAll c.blanks ++ more, hshows.append_left _, ?_⟩
    rw [text_closed, hmore]
    simp [Cursor.doneWithBlanks, Cursor.text, opened, Tree.charsOfAll]

instance takes_inRole {r : Role} {p : Reader Unit} [h : Takes p] : Takes (inRole r p) where
  takes {c _ _} hc hread := by
    obtain ⟨c', hp, ⟨-, rfl⟩ | ⟨part, outside, hdone, rfl⟩⟩ := inRole_eq_some hread
    · exact h.takes hc hp
    · obtain ⟨more, hshows, hmore⟩ := h.takes hc hp
      refine ⟨more, hshows, ?_⟩
      rw [← hmore]
      simp [Cursor.text, hdone, Tree.charsOfAll]

/-! ## Readers that go on with what was laid last -/

/-- A reader that leaves the part that was read last or makes it the beginning of a larger one. -/
class Widens (p : Reader α) : Prop where
  widens : ∀ {c c' : Cursor} {a : α} {t : Tree} {outside : List Tree}, c.Good →
    p c = some (a, c') → c.done = t :: outside → ∃ t', c'.done = t' :: outside ∧ t.Extends t'

section

variable {p q : Reader α} {f : α → Reader β}

instance (priority := low) widens_of_looks [h : Looks p] : Widens p where
  widens _ hread hdone := ⟨_, h.looks hread ▸ hdone, .inl rfl⟩

instance widens_bind [Sound p] [g : Widens p] [h : ∀ a, Widens (f a)] : Widens (p >>= f) where
  widens hc hread hdone := by
    obtain ⟨a, c₁, hp, hf⟩ := bind_eq_some hread
    obtain ⟨t₁, hdone₁, hextends₁⟩ := g.widens hc hp hdone
    obtain ⟨t₂, hdone₂, hextends₂⟩ := (h a).widens (Sound.good hc hp) hf hdone₁
    exact ⟨t₂, hdone₂, hextends₁.trans hextends₂⟩

instance widens_ite (b : Prop) [Decidable b] [g : Widens p] [h : Widens q] :
    Widens (if b then p else q) := by
  split <;> assumption

instance widens_attempt {p : Reader Unit} [h : Widens p] : Widens (attempt p) where
  widens hc hread hdone := by
    unfold attempt at hread
    split at hread
    · next hp =>
      cases hread
      exact h.widens hc hp hdone
    · cases hread
      exact ⟨_, hdone, .inl rfl⟩

instance widens_repeatWhile {p : Reader Bool} [Sound p] [h : Widens p] :
    Widens (repeatWhile p) where
  widens {c c' _ t outside} hc hread hdone := by
    refine repeatWhile_keeps (p := p)
      (I := fun d => ∃ t', d.done = t' :: outside ∧ t.Extends t') ?_ hc ⟨t, hdone, .inl rfl⟩ hread
    rintro d d' b hd ⟨t₁, hdone₁, hextends₁⟩ hp
    obtain ⟨t₂, hdone₂, hextends₂⟩ := h.widens hd hp hdone₁
    exact ⟨t₂, hdone₂, hextends₁.trans hextends₂⟩

instance widens_wrap {r : Role} {kind : Kind} {p : Reader Unit} [hr : Holds r.isFree] [h : Takes p] :
    Widens (wrap r kind p) where
  widens {c c' _ t outside} hc hread hdone := by
    obtain ⟨first, outside', c₁, hdone', hp, rfl⟩ := wrap_eq_some hread
    obtain ⟨rfl, rfl⟩ := List.cons.inj (hdone.symm.trans hdone')
    obtain ⟨more, hshows, hmore⟩ := h.takes (good_inside hr.holds hc hdone) hp
    refine ⟨_, rfl, .inr ⟨more, hshows, ?_⟩⟩
    have hinside : (Tree.node .plain kind c₁.done.reverse).chars = c₁.text := rfl
    rw [hinside, hmore]
    simp [Cursor.text, Tree.charsOfAll]

end

/-! ## Readers of values -/

/-- At a place a reader lays one value where it begins, behind remarks at most. -/
def ValuesAt (p : Reader Unit) (c : Cursor) : Prop :=
  ∀ {c' : Cursor}, p c = some ((), c') → ∃ c₀ v, c₀.Good ∧ c₀.Leads c' ∧
    c'.done = v :: c₀.doneWithBlanks ∧ Begins c₀.front v ∧ (remark? c.front = none → c₀ = c)

/-- A reader that lays one value where it begins. -/
class Values (p : Reader Unit) : Prop where
  values : ∀ {c : Cursor}, c.Good → ValuesAt p c

instance values_failure : Values failure := ⟨fun _ _ hread => by cases hread⟩

/-- A value that is laid where it begins is made of the text there. -/
lemma prefix_of_leads {c c' : Cursor} {v : Tree} (hc : c.Good) (hleads : c.Leads c')
    (hdone : c'.done = v :: c.doneWithBlanks) : v.chars <+: c.front := by
  refine ⟨c'.ahead, ?_⟩
  have hwhole := hleads.whole
  have htext : c'.text = c.text ++ (Tree.charsOfAll c.blanks ++ v.chars) := by
    simp [Cursor.text, hdone, Cursor.doneWithBlanks, Tree.charsOfAll]
  rw [htext, hc.ahead, List.append_assoc, List.append_assoc] at hwhole
  exact List.append_cancel_left (List.append_cancel_left hwhole)

instance gives_value {p : Reader Unit} [h : Values p] : Gives .value p where
  suits hc hread hdone := by
    obtain ⟨c₀, v, hc₀, hleads, hdone', hbegins, -⟩ := h.values hc hread
    obtain ⟨rfl, -⟩ := List.cons.inj (hdone.symm.trans hdone')
    exact suits_of_begins (prefix_of_leads hc₀ hleads hdone') hc₀.start hbegins

/-- A value, and what it may be the beginning of. -/
lemma valuesAt_bind {p : Reader Unit} {f : Unit → Reader Unit} [Sound p] [∀ u, Sound (f u)]
    [h : ∀ u, Widens (f u)] {c : Cursor} (hc : c.Good) (hvalues : ValuesAt p c) :
    ValuesAt (p >>= f) c := by
  intro c' hread
  obtain ⟨_, c₁, hp, hf⟩ := bind_eq_some hread
  have hc₁ := Sound.good hc hp
  obtain ⟨c₀, v, hc₀, hleads, hdone, hbegins, hremark⟩ := hvalues hp
  obtain ⟨v', hdone', hextends⟩ := (h _).widens hc₁ hf hdone
  exact ⟨c₀, v', hc₀, hleads.trans (Sound.leads hc₁ hf), hdone',
    fun t ht => (hbegins t ht).trans hextends, hremark⟩

instance values_bind {p : Reader Unit} {f : Unit → Reader Unit} [Sound p] [g : Values p]
    [∀ u, Sound (f u)] [∀ u, Widens (f u)] : Values (p >>= f) where
  values hc := valuesAt_bind hc (g.values hc)

/-- A part that is laid where no numeral stands. -/
lemma valuesAt_of_laysOne {p : Reader Unit} [Sound p] [h : LaysOne p] {c : Cursor} (hc : c.Good)
    (hfront : ∀ t, ¬NumeralAt c.front t) : ValuesAt p c := by
  intro c' hread
  obtain ⟨v, hdone, -⟩ := h.lays hc hread
  exact ⟨c, v, hc, Sound.leads hc hread, hdone, fun t ht => absurd ht (hfront t), fun _ => rfl⟩

/-- Where a numeral stands, the token is a number or a sign. -/
lemma token_of_numeralAt {c : Cursor} (hc : c.Good) {t : Tree} (h : NumeralAt c.front t) :
    (c.token = .number ∧ t = .leaf .plain .number c.chars) ∨
      ∃ s, (s = '+' ∨ s = '-') ∧ c.token = .symbol s.toString ∧ c.chars = [s] ∧
        startsNumber c.rest = true ∧ t = .node .plain .other
          [.leaf .plain .keyword [s], .leaf .plain .number (takeNumber c.rest).1] := by
  have hread := hc.read
  generalize c.front = front at h hread
  cases h with
  | number h =>
    rw [read_of_startsNumber h] at hread
    obtain ⟨htoken, htake⟩ := Prod.mk.inj hread
    exact .inl ⟨htoken.symm, by rw [htake]⟩
  | @signed s _ hs h =>
    rw [read_of_sign hs h] at hread
    obtain ⟨htoken, htake⟩ := Prod.mk.inj hread
    obtain ⟨hchars, rfl⟩ := Prod.mk.inj htake
    exact .inr ⟨s, hs, htoken.symm, hchars.symm, h, rfl⟩

/-- No numeral stands where the token is neither a number nor a sign. -/
lemma not_numeralAt {c : Cursor} (hc : c.Good) (hnumber : c.token ≠ .number)
    (hplus : c.token ≠ .symbol "+") (hminus : c.token ≠ .symbol "-") (t : Tree) :
    ¬NumeralAt c.front t := by
  intro h
  rcases token_of_numeralAt hc h with ⟨htoken, -⟩ | ⟨s, rfl | rfl, htoken, -⟩
  · exact hnumber htoken
  · exact hplus htoken
  · exact hminus htoken

end Reader

end StoreBindings.Syntax
