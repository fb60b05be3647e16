import Mathlib.Data.Option.Basic
import StoreBindings.Proofs.Syntax.Formed

/-!
# Readers that keep what is read in form

A reader is `Sound` if it leaves formed trees behind where it finds formed ones, takes nothing back of
the text that has been read and leaves nothing of the text ahead out. Readers are put together by a few
combinators, so there is one instance for each of these, and that a reader is sound follows from how it
is written. A part that is given a role has to be one for that role, which is asked of the reader of it
(`Gives`). What a call is made of needs more: each such part is laid right behind what has been read
before (`Lays`).
-/

namespace StoreBindings.Syntax

/-! ## Cursors -/

namespace Cursor

/-- A place in a source before which all trees are formed, and at which the blanks and the token
ahead have been read. -/
structure Good (c : Cursor) : Prop where
  done : ∀ t ∈ c.done, t.Formed
  blanks : ∀ t ∈ c.blanks, t.IsGap
  ahead : c.ahead = Tree.charsOfAll c.blanks ++ c.front
  read : Token.read c.front = (c.token, c.chars, c.rest)
  start : ∀ a ∈ c.front.head?, isSpace a = false

/-- The token of a good cursor is what its front begins with. -/
lemma Good.token_read {c : Cursor} (h : c.Good) : (Token.read c.front).1 = c.token := by
  rw [h.read]

/-- The characters of a mark are the mark. -/
lemma Good.chars {c : Cursor} (h : c.Good) {s : String} (hs : c.token = .symbol s) :
    c.chars = s.toList := by
  have hchars := chars_of_read (h.token_read.trans hs)
  rwa [h.read] at hchars

/-- The text that has been read of the node under construction. -/
def text (c : Cursor) : List Char := Tree.charsOfAll c.done.reverse

/-- Whether something that counts has been read of the node under construction. -/
def Counts (c : Cursor) : Prop := ∃ t ∈ c.done, t.kind.counts = true

/-- One place is reached from another: nothing that has been read is taken back, and nothing of the
text ahead is left out. -/
structure Leads (c c' : Cursor) : Prop where
  text : c.text <+: c'.text
  counts : c.Counts → c'.Counts
  whole : c'.text ++ c'.ahead = c.text ++ c.ahead

lemma Leads.refl (c : Cursor) : Leads c c := ⟨List.prefix_rfl, id, rfl⟩

lemma Leads.trans {c c' c'' : Cursor} (h : Leads c c') (h' : Leads c' c'') : Leads c c'' :=
  ⟨h.text.trans h'.text, h'.counts ∘ h.counts, h'.whole.trans h.whole⟩

/-- What has been read stays, and trees that hold the text ahead are added to it. -/
lemma leads_of_append {c c' : Cursor} (ts : List Tree) (h : c'.done = ts ++ c.done)
    (hahead : Tree.charsOfAll ts.reverse ++ c'.ahead = c.ahead) : Leads c c' where
  text := by
    rw [text, text, h, List.reverse_append, Tree.charsOfAll_append]
    exact List.prefix_append _ _
  counts := by
    rintro ⟨t, ht, hcounts⟩
    exact ⟨t, h ▸ List.mem_append_right _ ht, hcounts⟩
  whole := by
    rw [text, text, h, List.reverse_append, Tree.charsOfAll_append, List.append_assoc, hahead]

/-- A cursor in front of a text has skipped its blanks. -/
lemma front_before (done : List Tree) (ahead : List Char) :
    (before done ahead).front = (skipBlanks ahead.length ahead).2 :=
  read_append _

/-- A cursor in front of a text is good if what is done is well-formed. -/
lemma good_before {done : List Tree} (h : ∀ t ∈ done, t.Formed) (ahead : List Char) :
    (before done ahead).Good where
  done := h
  blanks _ ht := isGap_of_mem_skipBlanks ht
  ahead := by
    rw [front_before]
    exact (skipBlanks_append _ _).symm
  read := by
    rw [front_before]
    rfl
  start a ha := by
    rw [front_before] at ha
    obtain ⟨cs, hcs⟩ := List.head?_eq_some_iff.1 ha
    exact isSpace_of_blank? (hcs ▸ blank?_skipBlanks (Nat.le_refl _))

/-- The same place with other trees before it. -/
lemma Good.withDone {c : Cursor} (h : c.Good) {done : List Tree} (hdone : ∀ t ∈ done, t.Formed) :
    Good { c with done } := ⟨hdone, h.blanks, h.ahead, h.read, h.start⟩

/-- Blanks are well-formed trees, and so is all that is done with them. -/
lemma Good.doneWithBlanks {c : Cursor} (h : c.Good) : ∀ t ∈ c.doneWithBlanks, t.Formed := by
  intro t ht
  rcases List.mem_append.1 ht with ht | ht
  · exact (h.blanks t (List.mem_reverse.1 ht)).formed
  · exact h.done t ht

/-- A part that is added together with the blanks before it. -/
lemma Good.add {c : Cursor} (h : c.Good) {t : Tree} (ht : t.Formed) (ahead : List Char) :
    (before (t :: c.doneWithBlanks) ahead).Good := by
  refine good_before (fun t' ht' => ?_) ahead
  rcases List.mem_cons.1 ht' with rfl | ht'
  · exact ht
  · exact h.doneWithBlanks t' ht'

/-- A tree that takes characters from the front leads on from a cursor. -/
lemma Good.leads_add {c : Cursor} (h : c.Good) {t : Tree} {ahead : List Char}
    (ht : t.chars ++ ahead = c.front) : Leads c (before (t :: c.doneWithBlanks) ahead) := by
  refine leads_of_append (t :: c.blanks.reverse) rfl ?_
  simp only [List.reverse_cons, List.reverse_reverse, Tree.charsOfAll_append, Tree.charsOfAll,
    List.append_nil, List.append_assoc]
  exact (congrArg _ ht).trans h.ahead.symm

end Cursor

namespace Reader

variable {α β : Type}

/-! ## Sound readers -/

/-- A reader that leaves formed trees and takes nothing back. -/
class Sound (p : Reader α) : Prop where
  good : ∀ {c c' : Cursor} {a : α}, c.Good → p c = some (a, c') → c'.Good
  leads : ∀ {c c' : Cursor} {a : α}, c.Good → p c = some (a, c') → c.Leads c'

/-- A condition that can be seen to hold. -/
class Holds (b : Bool) : Prop where
  holds : b = true

instance : Holds true := ⟨rfl⟩

section combinators

variable {p q : Reader α} {f : α → Reader β}

/-- Two readers in a row succeed if the second succeeds where the first has stopped. -/
lemma bind_eq_some {c c'' : Cursor} {b : β} (h : (p >>= f) c = some (b, c'')) :
    ∃ a c', p c = some (a, c') ∧ f a c' = some (b, c'') := by
  obtain ⟨⟨a, c'⟩, hp, hf⟩ := Option.bind_eq_some_iff.1 h
  exact ⟨a, c', hp, hf⟩

/-- What is read in the end only has to be read soundly behind what can be read before it. -/
lemma sound_bind_of [g : Sound p]
    (h : ∀ {c c' : Cursor} {a : α}, p c = some (a, c') → Sound (f a)) : Sound (p >>= f) where
  good hc hread := by
    obtain ⟨a, c', hp, hf⟩ := bind_eq_some hread
    exact (h hp).good (g.good hc hp) hf
  leads hc hread := by
    obtain ⟨a, c', hp, hf⟩ := bind_eq_some hread
    exact (g.leads hc hp).trans ((h hp).leads (g.good hc hp) hf)

instance sound_bind [g : Sound p] [h : ∀ a, Sound (f a)] : Sound (p >>= f) :=
  sound_bind_of fun {_ _ a} _ => h a

/-- A reader that looks at a place without moving on. -/
lemma sound_of_looks (h : ∀ {c c' : Cursor} {a : α}, p c = some (a, c') → c' = c) : Sound p where
  good hc hread := h hread ▸ hc
  leads {c _ _} _ hread := h hread ▸ .refl c

instance sound_pure (a : α) : Sound (pure a : Reader α) :=
  sound_of_looks fun h => by cases h; rfl

instance sound_failure : Sound (failure : Reader α) :=
  sound_of_looks fun h => by cases h

instance sound_get : Sound (get : Reader Cursor) :=
  sound_of_looks fun h => by cases h; rfl

/-- A condition reads nothing. -/
lemma guard_eq_some {b : Prop} [Decidable b] {c c' : Cursor} {u : Unit}
    (h : (guard b : Reader Unit) c = some (u, c')) : b ∧ c' = c := by
  unfold guard at h
  split at h
  · next hb =>
    cases h
    exact ⟨hb, rfl⟩
  · cases h

/-- Behind a condition it only matters what is read where the condition holds. -/
lemma guard_bind_congr {b : Prop} [Decidable b] {c : Cursor} (h : p c = q c) :
    (do guard b; p) c = (do guard b; q) c := by
  unfold guard
  split
  · exact h
  · rfl

instance sound_guard (b : Prop) [Decidable b] : Sound (guard b : Reader Unit) := by
  unfold guard
  split <;> infer_instance

instance sound_ite (b : Prop) [Decidable b] [g : Sound p] [h : Sound q] :
    Sound (if b then p else q) := by
  split <;> assumption

instance sound_discard [h : Sound p] : Sound (discard p) :=
  inferInstanceAs (Sound (p >>= fun _ => pure ()))

instance sound_follows : Sound (follows p) :=
  sound_of_looks fun h => by cases h; rfl

instance sound_attempt {p : Reader Unit} [h : Sound p] : Sound (attempt p) where
  good {c c' a} hc hread := by
    unfold attempt at hread
    split at hread
    · next hp =>
      cases hread
      exact h.good hc hp
    · cases hread
      exact hc
  leads {c c' a} hc hread := by
    unfold attempt at hread
    split at hread
    · next hp =>
      cases hread
      exact h.leads hc hp
    · cases hread
      exact .refl c

instance sound_repeatWhile {p : Reader Bool} [h : Sound p] : Sound (repeatWhile p) := by
  have hloop : ∀ fuel, Sound (repeatWhile.loop p fuel) := by
    intro fuel
    induction fuel with
    | zero => exact sound_failure
    | succ fuel ih => exact sound_bind
  exact sound_bind

end combinators

/-! ## Looking ahead -/

instance sound_token : Sound token := inferInstanceAs (Sound (get >>= _))

instance sound_isSymbol (s : String) : Sound (isSymbol s) := inferInstanceAs (Sound (get >>= _))

instance sound_isWord (w : String) : Sound (isWord w) := inferInstanceAs (Sound (get >>= _))

instance sound_atLineStart : Sound atLineStart := inferInstanceAs (Sound (get >>= _))

instance sound_second : Sound second := inferInstanceAs (Sound (get >>= _))

/-- A reader that does at every place what some sound reader does there. -/
lemma sound_of_apply {p : Reader α} (h : ∀ c : Cursor, ∃ q : Reader α, Sound q ∧ p c = q c) :
    Sound p where
  good {c _ _} hc hread := by
    obtain ⟨q, hq, heq⟩ := h c
    exact hq.good hc (heq ▸ hread)
  leads {c _ _} hc hread := by
    obtain ⟨q, hq, heq⟩ := h c
    exact hq.leads hc (heq ▸ hread)

/-- What is read depends on the token that comes next: at every place it is read soundly. -/
lemma sound_of_token {f : Token → Reader α}
    (h : ∀ c : Cursor, ∃ q : Reader α, Sound q ∧ f c.token c = q c) : Sound (token >>= f) :=
  sound_of_apply h

/-! ## Taking text -/

/-- A leaf of a free kind is well-formed, whatever it reads. -/
lemma formed_leaf {r : Role} {k : Kind} (hr : r.isFree = true) (hk : k.isFree = true)
    (cs : List Char) : (Tree.leaf r k cs).Formed :=
  .leaf r k cs (Tree.spells_of_isFree hk cs) (Tree.suits_of_isFree hr _)

instance sound_takeChars (r : Role) (k : Kind) (n : Nat) [hr : Holds r.isFree]
    [hk : Holds k.isFree] : Sound (takeChars r k n) where
  good hc hread := by
    cases hread
    exact hc.add (formed_leaf hr.holds hk.holds _) _
  leads hc hread := by
    cases hread
    exact hc.leads_add (List.take_append_drop _ _)

/-- Taking a token leads on from a cursor. -/
lemma leads_take {r : Role} {k : Kind} {c c' : Cursor} {u : Unit} (hc : c.Good)
    (hread : take r k c = some (u, c')) : c.Leads c' := by
  cases hread
  exact hc.leads_add rfl

instance sound_take (r : Role) (k : Kind) [hr : Holds r.isFree] [hk : Holds k.isFree] :
    Sound (take r k) where
  good hc hread := by
    cases hread
    exact hc.add (formed_leaf hr.holds hk.holds _) _
  leads := leads_take

/-- A number that comes next. -/
instance sound_takeNumber (r : Role) [hr : Holds r.isFree] :
    Sound (do guard ((← token) == .number); take r .number) where
  good {c _ _} hc hread := by
    obtain ⟨_, _, htoken, hread⟩ := bind_eq_some hread
    cases htoken
    obtain ⟨_, c₁, hguard, htake⟩ := bind_eq_some hread
    obtain ⟨htoken, hc₁⟩ := guard_eq_some hguard
    obtain rfl := hc₁.symm
    cases htake
    have htext := isNumberText_of_read (hc.token_read.trans (eq_of_beq htoken))
    rw [hc.read] at htext
    exact hc.add (.leaf r .number c.chars htext (Tree.suits_of_isFree hr.holds _)) _
  leads hc hread := by
    obtain ⟨_, _, htoken, hread⟩ := bind_eq_some hread
    cases htoken
    obtain ⟨_, _, hguard, htake⟩ := bind_eq_some hread
    obtain ⟨-, rfl⟩ := guard_eq_some hguard
    exact leads_take hc htake

/-- The test for a number is no step of its own in front of one. -/
lemma takeNumber_eq_take {r : Role} {c : Cursor} (h : c.token = .number) :
    (do guard ((← token) == .number); take r .number : Reader Unit) c = take r .number c := by
  have hguard : (do guard ((← token) == .number); take r .number : Reader Unit) c =
      (do guard ((c.token == .number) = true); take r .number : Reader Unit) c := rfl
  rw [hguard, guard, if_pos (beq_iff_eq.2 h)]
  rfl

instance sound_takeBlanks : Sound takeBlanks where
  good hc hread := by
    cases hread
    exact ⟨hc.doneWithBlanks, by simp, rfl, hc.read, hc.start⟩
  leads {c _ _} hc hread := by
    cases hread
    exact Cursor.leads_of_append c.blanks.reverse rfl (by rw [List.reverse_reverse]; exact hc.ahead.symm)

/-- A way to cut text off that leaves nothing out. -/
class Cuts (split : List Char → List Char × List Char) : Prop where
  append : ∀ cs, (split cs).1 ++ (split cs).2 = cs

instance cuts_span (p : Char → Bool) : Cuts (fun cs => cs.span p) where
  append cs := by rw [List.span_eq_takeWhile_dropWhile, List.takeWhile_append_dropWhile]

instance sound_takeRaw (r : Role) (k : Kind) (split : List Char → List Char × List Char)
    [hr : Holds r.isFree] [hk : Holds k.isFree] [h : Cuts split] : Sound (takeRaw r k split) where
  good {c _ _} hc hread := by
    cases hread
    dsimp only
    split
    · exact hc
    · refine Cursor.good_before (fun t ht => ?_) _
      rcases List.mem_cons.1 ht with rfl | ht
      · exact formed_leaf hr.holds hk.holds _
      · exact hc.done t ht
  leads {c _ _} _ hread := by
    cases hread
    dsimp only
    split
    · exact .refl c
    · refine Cursor.leads_of_append [_] rfl ?_
      simp only [List.reverse_singleton, Tree.charsOfAll, Tree.chars, List.append_nil]
      exact h.append c.ahead

instance sound_symbol (s : String) : Sound (symbol s) := by
  unfold symbol
  infer_instance

instance sound_keyword (w : String) : Sound (keyword w) := by
  unfold keyword
  infer_instance

instance sound_symbol? (s : String) : Sound (symbol? s) := by
  unfold symbol?
  infer_instance

instance sound_keyword? (w : String) : Sound (keyword? w) := by
  unfold keyword?
  infer_instance

/-- Any word at all is taken as a token is. -/
lemma anyWord_apply (r : Role) (k : Kind) (c : Cursor) : anyWord r k c =
    (match c.token with
      | .word _ => take r k
      | _ => failure : Reader Unit) c := rfl

/-- Where a word comes next it is that word that is taken. -/
lemma anyWord_eq_take {r : Role} {k : Kind} {c : Cursor} {w : String} (h : c.token = .word w) :
    anyWord r k c = take r k c := by
  rw [anyWord_apply, h]

/-- Any word is taken in front of a word only. -/
lemma anyWord_eq_some {r : Role} {k : Kind} {c c' : Cursor} {u : Unit}
    (h : anyWord r k c = some (u, c')) : (∃ w, c.token = .word w) ∧ take r k c = some (u, c') := by
  cases htoken : c.token with
  | word w => exact ⟨⟨w, rfl⟩, anyWord_eq_take htoken ▸ h⟩
  | _ =>
    rw [anyWord_apply, htoken] at h
    cases h

/-- The leaf of a word has a telling character. -/
lemma isTelling_of_word {c : Cursor} (hc : c.Good) {w : String} (h : c.token = .word w) (r : Role)
    (k : Kind) : (Tree.leaf r k c.chars).IsTelling := by
  have htelling := isTelling_of_read (hc.token_read.trans h)
  rwa [hc.read] at htelling

instance sound_anyWord (r : Role) (k : Kind) [hr : Holds r.isNamed] [hk : Holds k.isFree] :
    Sound (anyWord r k) where
  good {c _ _} hc hread := by
    obtain ⟨⟨w, htoken⟩, htake⟩ := anyWord_eq_some hread
    cases htake
    have hsuits := (isTelling_of_word hc htoken r k).suits hr.holds
    exact hc.add (.leaf r k c.chars (Tree.spells_of_isFree hk.holds _) hsuits) _
  leads hc hread := leads_take hc (anyWord_eq_some hread).2

/-- Where a mark comes next it is that mark that is taken. -/
lemma symbol_eq_take {s : String} {c : Cursor} (h : c.token = .symbol s) :
    symbol s c = take .plain .symbol c := by
  have hguard : symbol s c =
      (do guard ((c.token == .symbol s) = true); take .plain .symbol : Reader Unit) c := rfl
  rw [hguard, guard, if_pos (beq_iff_eq.2 h)]
  rfl

/-- An optional mark is read, or the cursor stays where it is. -/
lemma symbol?_eq_some {s : String} {c c' : Cursor} {b : Bool} (h : symbol? s c = some (b, c')) :
    symbol s c = some ((), c') ∨ c' = c := by
  obtain ⟨_, _, hsymbol, h⟩ := bind_eq_some h
  cases hsymbol
  cases hb : c.token == .symbol s with
  | false =>
    rw [hb] at h
    cases h
    exact .inr rfl
  | true =>
    rw [hb] at h
    cases h
    rw [symbol_eq_take (eq_of_beq hb)]
    exact .inl rfl

/-! ## Nodes -/

/-- The place at which the parts of a node begin. -/
def opened (c : Cursor) : Cursor := { c with done := [], ahead := c.front, blanks := [] }

/-- The place after a node, given the place after its parts and what has been read before it. -/
def closed (kind : Kind) (c : Cursor) (outside : List Tree) : Cursor :=
  { c with done := .node .plain kind c.done.reverse :: outside }

/-- A node is read by reading its parts in an empty list, and is then closed with its kind. -/
lemma nodeBy_eq_some {p : Reader Kind} {c c'' : Cursor} (h : nodeBy p c = some ((), c'')) :
    ∃ kind c', p (opened c) = some (kind, c') ∧ c'' = closed kind c' c.doneWithBlanks := by
  obtain ⟨_, _, htake, h⟩ := bind_eq_some h
  cases htake
  obtain ⟨_, _, hget, h⟩ := bind_eq_some h
  cases hget
  obtain ⟨_, _, hopen, h⟩ := bind_eq_some h
  cases hopen
  obtain ⟨kind, c', hp, h⟩ := bind_eq_some h
  cases h
  exact ⟨kind, c', hp, rfl⟩

/-- The last tree becomes the first part of a node. -/
lemma wrap_eq_some {r : Role} {kind : Kind} {p : Reader Unit} {c c'' : Cursor}
    (h : wrap r kind p c = some ((), c'')) : ∃ first outside c', c.done = first :: outside ∧
      p { c with done := [first.withRole r] } = some ((), c') ∧ c'' = closed kind c' outside := by
  obtain ⟨_, _, hget, h⟩ := bind_eq_some h
  cases hget
  cases hdone : c.done with
  | nil =>
    rw [hdone] at h
    cases h
  | cons first outside =>
    rw [hdone] at h
    obtain ⟨_, _, hopen, h⟩ := bind_eq_some h
    cases hopen
    obtain ⟨_, c', hp, h⟩ := bind_eq_some h
    cases h
    exact ⟨first, outside, c', rfl, hp, rfl⟩

/-- Readers that agree at a cursor agree in front of any third. -/
lemma bind_congr_left {α β : Type} {p q : Reader α} {c : Cursor} (h : p c = q c)
    (f : α → Reader β) : (p >>= f) c = (q >>= f) c := congrArg (Option.bind · _) h

/-- Readers that agree at the cursor agree inside a node. -/
lemma wrap_congr {r : Role} {kind : Kind} {p q : Reader Unit} {c : Cursor}
    (h : ∀ done, p { c with done } = q { c with done }) : wrap r kind p c = wrap r kind q c := by
  obtain ⟨done, ahead, blanks, token, chars, rest⟩ := c
  cases done with
  | nil => rfl
  | cons first outside =>
    have hinside := h [first.withRole r]
    exact congrArg (Option.bind · fun x => some ((), closed kind x.2 outside)) hinside

/-- A reader that has seen a mark ahead and takes whatever comes next takes that mark. -/
lemma wrap_take {s : String} {c : Cursor} (h : c.token = .symbol s) (r : Role) (kind : Kind)
    (p : Reader Unit) : wrap r kind (do take .plain .symbol; p) c = wrap r kind (do symbol s; p) c :=
  wrap_congr fun done => bind_congr_left (symbol_eq_take (c := { c with done }) h).symm _

/-- A role is given to the last tree that has been read, if there is one. -/
lemma inRole_eq_some {r : Role} {p : Reader Unit} {c c'' : Cursor}
    (h : inRole r p c = some ((), c'')) : ∃ c', p c = some ((), c') ∧
      (c'.done = [] ∧ c'' = c' ∨ ∃ part outside, c'.done = part :: outside ∧
        c'' = { c' with done := part.withRole r :: outside }) := by
  obtain ⟨_, c', hp, h⟩ := bind_eq_some h
  refine ⟨c', hp, ?_⟩
  cases h
  cases hdone : c'.done with
  | nil => exact .inl ⟨rfl, by dsimp only; rw [hdone]⟩
  | cons part outside => exact .inr ⟨part, outside, rfl, by dsimp only; rw [hdone]⟩

/-- The cursor in front of the parts of a node is good. -/
lemma good_opened {c : Cursor} (h : c.Good) : (opened c).Good :=
  ⟨by simp [opened], by simp [opened], rfl, h.read, h.start⟩

/-- The cursor behind a node is good if its parts fit its kind. -/
lemma good_closed {kind : Kind} {c : Cursor} {outside : List Tree} (h : c.Good)
    (hfits : Tree.Fits kind c.done.reverse) (houtside : ∀ t ∈ outside, t.Formed) :
    (closed kind c outside).Good := by
  refine h.withDone fun t ht => ?_
  rcases List.mem_cons.1 ht with rfl | ht
  · exact .node hfits (fun p hp => h.done p (List.mem_reverse.1 hp)) trivial
  · exact houtside t ht

/-- A node spells what its parts spell. -/
lemma text_closed (kind : Kind) (c : Cursor) (outside : List Tree) :
    (closed kind c outside).text = Tree.charsOfAll outside.reverse ++ c.text := by
  simp [closed, Cursor.text, Tree.charsOfAll, Tree.chars]

/-- A node that counts has been read. -/
lemma counts_closed {kind : Kind} (h : kind.counts = true) (c : Cursor) (outside : List Tree) :
    (closed kind c outside).Counts := ⟨_, List.mem_cons_self, h⟩

/-- The cursor of which the last tree has become a part is good. -/
lemma good_inside {r : Role} (hr : r.isFree = true) {c : Cursor} (h : c.Good) {first : Tree}
    {outside : List Tree} (hdone : c.done = first :: outside) :
    Cursor.Good { c with done := [first.withRole r] } := by
  refine h.withDone fun t ht => ?_
  rw [List.mem_singleton.1 ht]
  exact (h.done first (hdone ▸ List.mem_cons_self)).withRole (Tree.suits_of_isFree hr first)

/-- Reading a node is sound if its parts are what belongs to its kind. -/
lemma sound_nodeBy_of {p : Reader Kind} [h : Sound p]
    (hfits : ∀ {c c' : Cursor} {kind : Kind}, c.Good → c.doneWithBlanks = [] →
      p c = some (kind, c') → kind.counts = true ∧ Tree.Fits kind c'.done.reverse) :
    Sound (nodeBy p) where
  good {c _ _} hc hread := by
    obtain ⟨kind, c', hp, rfl⟩ := nodeBy_eq_some hread
    exact good_closed (h.good (good_opened hc) hp) (hfits (good_opened hc) rfl hp).2
      hc.doneWithBlanks
  leads {c _ _} hc hread := by
    obtain ⟨kind, c', hp, rfl⟩ := nodeBy_eq_some hread
    have hcounts := (hfits (good_opened hc) rfl hp).1
    have hbefore : Tree.charsOfAll c.doneWithBlanks.reverse =
        c.text ++ Tree.charsOfAll c.blanks := by
      simp [Cursor.doneWithBlanks, Cursor.text]
    refine ⟨?_, fun _ => counts_closed hcounts _ _, ?_⟩
    · rw [text_closed, hbefore, List.append_assoc]
      exact List.prefix_append _ _
    · have hwhole : c'.text ++ c'.ahead = c.front := (h.leads (good_opened hc) hp).whole
      rw [text_closed, hbefore, List.append_assoc, List.append_assoc, hc.ahead]
      exact congrArg _ (congrArg _ hwhole)

/-- Reading a node around what stands before is sound if its parts are what belongs to its kind. -/
lemma sound_wrap_of {r : Role} {kind : Kind} {p : Reader Unit} [h : Sound p]
    (hr : r.isFree = true) (hcounts : kind.counts = true)
    (hfits : ∀ {c c' : Cursor} {first : Tree}, c.Good → first.role = r → c.done = [first] →
      p c = some ((), c') → Tree.Fits kind c'.done.reverse) : Sound (wrap r kind p) where
  good {c _ _} hc hread := by
    obtain ⟨first, outside, c', hdone, hp, rfl⟩ := wrap_eq_some hread
    have hinside := good_inside hr hc hdone
    refine good_closed (h.good hinside hp) (hfits hinside (Tree.role_withRole r first) rfl hp) ?_
    exact fun t ht => hc.done t (hdone ▸ List.mem_cons_of_mem _ ht)
  leads {c _ _} hc hread := by
    obtain ⟨first, outside, c', hdone, hp, rfl⟩ := wrap_eq_some hread
    obtain ⟨htext, -, hwhole⟩ := h.leads (good_inside hr hc hdone) hp
    have hfirst : Cursor.text { c with done := [first.withRole r] } = first.chars := by
      simp [Cursor.text, Tree.charsOfAll]
    have hbefore : c.text = Tree.charsOfAll outside.reverse ++ first.chars := by
      simp [Cursor.text, hdone, Tree.charsOfAll]
    rw [hfirst] at htext hwhole
    refine ⟨?_, fun _ => counts_closed hcounts _ _, ?_⟩
    · rw [text_closed, hbefore]
      exact List.prefix_append_right_inj _ |>.2 htext
    · rw [text_closed, hbefore, List.append_assoc, List.append_assoc]
      exact congrArg _ hwhole

/-- A reader that tells the kind of a node, which is one of those that may consist of anything. -/
class Builds (p : Reader Kind) : Prop where
  loose : ∀ {c c' : Cursor} {kind : Kind}, p c = some (kind, c') → kind.isLoose = true

instance builds_pure (kind : Kind) [h : Holds kind.isLoose] : Builds (pure kind) where
  loose hread := by
    cases hread
    exact h.holds

instance builds_bind {p : Reader α} {f : α → Reader Kind} [h : ∀ a, Builds (f a)] :
    Builds (p >>= f) where
  loose hread := by
    obtain ⟨a, c', -, hf⟩ := bind_eq_some hread
    exact (h a).loose hf

instance builds_ite {p q : Reader Kind} (b : Prop) [Decidable b] [g : Builds p] [h : Builds q] :
    Builds (if b then p else q) := by
  split <;> assumption

instance builds_pure_ite (b : Prop) [Decidable b] (kind kind' : Kind)
    [g : Builds (pure kind)] [h : Builds (pure kind')] :
    Builds (pure (if b then kind else kind')) := by
  split <;> assumption

instance sound_nodeBy {p : Reader Kind} [g : Sound p] [h : Builds p] : Sound (nodeBy p) :=
  sound_nodeBy_of fun _ _ hp =>
    ⟨Kind.counts_of_isLoose (h.loose hp), Tree.fits_of_isLoose (h.loose hp) _⟩

instance sound_node {kind : Kind} {p : Reader Unit} [g : Holds kind.isLoose] [h : Sound p] :
    Sound (node kind p) :=
  sound_nodeBy

instance sound_wrap {r : Role} {kind : Kind} {p : Reader Unit} [hr : Holds r.isFree]
    [g : Holds kind.isLoose] [h : Sound p] : Sound (wrap r kind p) :=
  sound_wrap_of hr.holds (Kind.counts_of_isLoose g.holds) fun _ _ _ _ =>
    Tree.fits_of_isLoose g.holds _

/-- A reader behind which the part read last is one for a given role. -/
class Gives (r : Role) (p : Reader Unit) : Prop where
  suits : ∀ {c c' : Cursor} {t : Tree} {outside : List Tree}, c.Good → p c = some ((), c') →
    c'.done = t :: outside → Tree.Suits r t

instance gives_of_isFree (r : Role) (p : Reader Unit) [h : Holds r.isFree] : Gives r p where
  suits _ _ _ := Tree.suits_of_isFree h.holds _

instance sound_inRole {r : Role} {p : Reader Unit} [h : Sound p] [g : Gives r p] :
    Sound (inRole r p) where
  good {c _ _} hc hread := by
    obtain ⟨c', hp, ⟨-, rfl⟩ | ⟨part, outside, hdone, rfl⟩⟩ := inRole_eq_some hread
    · exact h.good hc hp
    · have hgood := h.good hc hp
      refine hgood.withDone fun t ht => ?_
      rcases List.mem_cons.1 ht with rfl | ht
      · exact (hgood.done part (hdone ▸ List.mem_cons_self)).withRole (g.suits hc hp hdone)
      · exact hgood.done t (hdone ▸ List.mem_cons_of_mem _ ht)
  leads {c _ _} hc hread := by
    obtain ⟨c', hp, ⟨-, rfl⟩ | ⟨part, outside, hdone, rfl⟩⟩ := inRole_eq_some hread
    · exact h.leads hc hp
    · -- a role is neither part of the text nor of the kind
      have htext : Cursor.text { c' with done := part.withRole r :: outside } = c'.text := by
        simp [Cursor.text, hdone, Tree.charsOfAll]
      refine (h.leads hc hp).trans ⟨?_, ?_, ?_⟩
      · exact htext ▸ List.prefix_rfl
      · rintro ⟨t, ht, hcounts⟩
        rw [hdone] at ht
        rcases List.mem_cons.1 ht with rfl | ht
        · exact ⟨_, List.mem_cons_self, by rwa [Tree.kind_withRole]⟩
        · exact ⟨t, List.mem_cons_of_mem _ ht, hcounts⟩
      · rw [htext]

/-- What a step keeps is kept when the step is repeated. -/
lemma repeatWhile_keeps {p : Reader Bool} [h : Sound p] {I : Cursor → Prop}
    (hstep : ∀ {c c' : Cursor} {b : Bool}, c.Good → I c → p c = some (b, c') → I c') {c c' : Cursor}
    {u : Unit} (hc : c.Good) (hI : I c) (hread : repeatWhile p c = some (u, c')) : I c' := by
  obtain ⟨_, _, hget, hloop⟩ := bind_eq_some hread
  cases hget
  -- the induction is on the number of steps that are allowed
  generalize c.ahead.length + 1 = fuel at hloop
  clear hread
  induction fuel generalizing c with
  | zero => cases hloop
  | succ fuel ih =>
    obtain ⟨b, c₁, hp, hrest⟩ := bind_eq_some hloop
    have hc₁ := h.good hc hp
    have hI₁ := hstep hc hI hp
    cases b with
    | true => exact ih hc₁ hI₁ hrest
    | false =>
      cases hrest
      exact hI₁

instance sound_listUntil (close separator : String) {item : Reader Unit} [h : Sound item] :
    Sound (listUntil close separator item) := by
  unfold listUntil
  infer_instance

instance sound_separated (separator : String) {item : Reader Unit} [h : Sound item] :
    Sound (separated separator item) := by
  unfold separated
  infer_instance

instance sound_statementEnd : Sound statementEnd := by
  unfold statementEnd
  infer_instance

/-! ## Readers of something that counts -/

/-- A reader behind which something that counts has been read. -/
class Fills (p : Reader α) : Prop where
  counts : ∀ {c c' : Cursor} {a : α}, c.Good → p c = some (a, c') → c'.Counts

section fills

variable {p q : Reader α} {f : α → Reader β}

instance fills_failure : Fills (failure : Reader α) where
  counts _ hread := by cases hread

instance (priority := low) fills_bind_of_fills [g : Sound p] [h : Fills p] [k : ∀ a, Sound (f a)] :
    Fills (p >>= f) where
  counts hc hread := by
    obtain ⟨a, c', hp, hf⟩ := bind_eq_some hread
    exact ((k a).leads (g.good hc hp) hf).counts (h.counts hc hp)

instance fills_bind [g : Sound p] [h : ∀ a, Fills (f a)] : Fills (p >>= f) where
  counts hc hread := by
    obtain ⟨a, c', hp, hf⟩ := bind_eq_some hread
    exact (h a).counts (g.good hc hp) hf

instance fills_ite (b : Prop) [Decidable b] [g : Fills p] [h : Fills q] :
    Fills (if b then p else q) := by
  split <;> assumption

/-- A step that is taken if it succeeds, and another one if it does not. -/
instance fills_attempt {p q : Reader Unit} [h : Fills p] [k : Fills q] :
    Fills (attempt p >>= fun b => if b = true then pure () else q) where
  counts hc hread := by
    obtain ⟨b, c', hp, hf⟩ := bind_eq_some hread
    unfold attempt at hp
    split at hp
    · next hp' =>
      cases hp
      cases hf
      exact h.counts hc hp'
    · cases hp
      exact k.counts hc hf

end fills

instance fills_take (r : Role) (kind : Kind) [h : Holds kind.isLoose] : Fills (take r kind) where
  counts _ hread := by
    cases hread
    exact ⟨_, List.mem_cons_self, Kind.counts_of_isLoose h.holds⟩

instance fills_takeNumber (r : Role) : Fills (take r .number) where
  counts _ hread := by
    cases hread
    exact ⟨_, List.mem_cons_self, rfl⟩

instance fills_takeChars (r : Role) (kind : Kind) (n : Nat) [h : Holds kind.isLoose] :
    Fills (takeChars r kind n) where
  counts _ hread := by
    cases hread
    exact ⟨_, List.mem_cons_self, Kind.counts_of_isLoose h.holds⟩

instance fills_nodeBy {p : Reader Kind} [h : Builds p] : Fills (nodeBy p) where
  counts _ hread := by
    obtain ⟨kind, c', hp, rfl⟩ := nodeBy_eq_some hread
    exact counts_closed (Kind.counts_of_isLoose (h.loose hp)) _ _

/-- A node that counts is something, whatever its parts are. -/
lemma fills_node_of {kind : Kind} (h : kind.counts = true) (p : Reader Unit) :
    Fills (node kind p) where
  counts _ hread := by
    obtain ⟨_, c', hp, rfl⟩ := nodeBy_eq_some hread
    obtain ⟨_, _, _, hpure⟩ := bind_eq_some hp
    cases hpure
    exact counts_closed h _ _

instance fills_node {kind : Kind} {p : Reader Unit} [h : Holds kind.isLoose] :
    Fills (node kind p) :=
  fills_node_of (Kind.counts_of_isLoose h.holds) p

/-! ## Readers that lay a part behind what has been read -/

/-- A reader that adds one part, of which something is known, to what has been read and the blanks
behind it. -/
def Lays (P : Tree → Prop) (p : Reader Unit) : Prop :=
  ∀ {c c' : Cursor}, c.Good → p c = some ((), c') → ∃ t, c'.done = t :: c.doneWithBlanks ∧ P t

/-- Looking at the next token lays nothing. -/
lemma lays_token {P : Tree → Prop} {f : Token → Reader Unit} (h : ∀ t, Lays P (f t)) :
    Lays P (token >>= f) := by
  intro c c' hc hread
  obtain ⟨_, _, htoken, hread⟩ := bind_eq_some hread
  cases htoken
  exact h _ hc hread

/-- What is laid depends on the token that comes next. -/
lemma lays_of_token {P : Tree → Prop} {f : Token → Reader Unit}
    (h : ∀ c : Cursor, ∃ q : Reader Unit, Lays P q ∧ f c.token c = q c) : Lays P (token >>= f) := by
  intro c c' hc hread
  obtain ⟨_, _, htoken, hread⟩ := bind_eq_some hread
  cases htoken
  obtain ⟨q, hq, heq⟩ := h c
  exact hq hc (heq ▸ hread)

/-- A reader that fails lays no tree at all. -/
lemma lays_failure {P : Tree → Prop} : Lays P failure := fun _ hread => by cases hread

/-- Any word lays a leaf that tells something. -/
lemma lays_anyWord (r : Role) (k : Kind) : Lays Tree.IsTelling (anyWord r k) := by
  intro c c' hc hread
  obtain ⟨⟨w, htoken⟩, htake⟩ := anyWord_eq_some hread
  cases htake
  exact ⟨_, rfl, isTelling_of_word hc htoken r k⟩

/-- A token lays a leaf in its role. -/
lemma lays_take (r : Role) (kind : Kind) : Lays (fun t => t.role = r) (take r kind) := by
  intro c c' hc hread
  cases hread
  exact ⟨_, rfl, rfl⟩

/-- A mark lays its leaf. -/
lemma lays_symbol (s : String) : Lays (fun t => t = .mark s) (symbol s) := by
  intro c c' hc hread
  obtain ⟨_, _, hsymbol, hread⟩ := bind_eq_some hread
  cases hsymbol
  obtain ⟨_, _, hguard, htake⟩ := bind_eq_some hread
  obtain ⟨htoken, rfl⟩ := guard_eq_some hguard
  cases htake
  exact ⟨_, rfl, by rw [Tree.mark, ← hc.chars (eq_of_beq htoken)]⟩

/-- A node lays a tree with the parts that are read in it. -/
lemma lays_node {kind : Kind} {p : Reader Unit} {P : List Tree → Prop}
    (h : ∀ {c c' : Cursor}, c.Good → c.doneWithBlanks = [] → p c = some ((), c') →
      P c'.done.reverse) :
    Lays (fun t => ∃ parts, t = .node .plain kind parts ∧ P parts) (node kind p) := by
  intro c c' hc hread
  obtain ⟨kind', c₁, hp, rfl⟩ := nodeBy_eq_some hread
  obtain ⟨_, _, hp, hpure⟩ := bind_eq_some hp
  cases hpure
  exact ⟨_, rfl, _, rfl, h (good_opened hc) rfl hp⟩

/-- A node lays a tree of its kind. -/
lemma lays_isNode (kind : Kind) (p : Reader Unit) : Lays (·.IsNode kind) (node kind p) := by
  intro c c' hc hread
  obtain ⟨t, hdone, parts, ht, -⟩ := lays_node (P := fun _ => True) (fun _ _ _ => trivial) hc hread
  exact ⟨t, hdone, parts, ht⟩

/-- In a role the same trees are laid, the role apart. -/
lemma lays_inRole (r : Role) {p : Reader Unit} {P : Tree → Prop} (h : Lays P p) :
    Lays (fun t => ∃ t', P t' ∧ t = t'.withRole r) (inRole r p) := by
  intro c c' hc hread
  obtain ⟨c₁, hp, ⟨hdone, -⟩ | ⟨part, outside, hdone, rfl⟩⟩ := inRole_eq_some hread
  · obtain ⟨t, hadded, -⟩ := h hc hp
    rw [hdone] at hadded
    cases hadded
  · obtain ⟨t, hadded, ht⟩ := h hc hp
    rw [hdone] at hadded
    obtain ⟨rfl, rfl⟩ := List.cons.inj hadded
    exact ⟨_, rfl, part, ht, rfl⟩

/-- The text of a node that begins with a mark begins with the characters of that mark. -/
lemma head?_of_lays {s : String} {q p : Reader Unit} [g : Sound q] [h : Sound p]
    (hq : Lays (fun t => t = .mark s) q) {c c' : Cursor} (hc : c.Good)
    (hdone : c.doneWithBlanks = []) (hread : (do q; p) c = some ((), c')) {a : Char}
    (ha : s.toList.head? = some a) : (Tree.charsOfAll c'.done.reverse).head? = some a := by
  obtain ⟨_, c₁, hmark, hp⟩ := bind_eq_some hread
  obtain ⟨t, ht, rfl⟩ := hq hc hmark
  obtain ⟨cs, hcs⟩ := List.head?_eq_some_iff.1 ha
  obtain ⟨rest, hrest⟩ := (h.leads (g.good hc hmark) hp).text
  rw [hdone] at ht
  rw [Cursor.text, ht, Cursor.text] at hrest
  rw [← hrest]
  simp [Tree.charsOfAll, Tree.mark, Tree.chars, hcs]

/-- A node in which something telling is laid last. -/
lemma lays_telling_node {kind : Kind} {s : String} {p : Reader Unit} (h : Lays Tree.IsTelling p) :
    Lays Tree.IsTelling (node kind (do symbol s; p)) := by
  have hparts {c c' : Cursor} (hc : c.Good) (hread : (do symbol s; p) c = some ((), c')) :
      ∃ a ∈ Tree.charsOfAll c'.done.reverse, isTelling a = true := by
    obtain ⟨_, c₁, hmark, hp⟩ := bind_eq_some hread
    obtain ⟨t, ht, a, ha, htelling⟩ := h (Sound.good hc hmark) hp
    refine ⟨a, ?_, htelling⟩
    rw [ht]
    simp [Tree.charsOfAll, ha]
  intro c c' hc hread
  obtain ⟨_, hdone, parts, rfl, a, ha, htelling⟩ := lays_node
    (P := fun parts => ∃ a ∈ Tree.charsOfAll parts, isTelling a = true)
    (fun hc _ hp => hparts hc hp) hc hread
  exact ⟨_, hdone, a, ha, htelling⟩

/-- A reader that lays telling trees gives them in a role by which parts are named. -/
lemma gives_of_lays {r : Role} {p : Reader Unit} (hr : r.isNamed = true)
    (h : Lays Tree.IsTelling p) : Gives r p where
  suits hc hread hdone := by
    obtain ⟨t, hlaid, htelling⟩ := h hc hread
    obtain ⟨rfl, -⟩ := List.cons.inj (hdone.symm.trans hlaid)
    exact htelling.suits hr

/-- A node that begins with a mark that is no part of a number. -/
lemma lays_telling_mark {kind : Kind} {s : String} {p : Reader Unit} [Sound p] {a : Char}
    (ha : s.toList.head? = some a) (htelling : isTelling a = true) :
    Lays Tree.IsTelling (node kind (do symbol s; p)) := by
  intro c c' hc hread
  obtain ⟨_, hdone, parts, rfl, hhead⟩ := lays_node
    (P := fun parts => (Tree.charsOfAll parts).head? = some a)
    (fun hc hdone hp => head?_of_lays (lays_symbol s) hc hdone hp ha) hc hread
  exact ⟨_, hdone, a, List.mem_of_head? hhead, htelling⟩

end Reader

end StoreBindings.Syntax
