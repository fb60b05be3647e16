import Mathlib.Data.List.Forall2
import StoreBindings.Proofs.Report.Excerpt

/-!
# Reports without their colours

A look is set by a sequence that a terminal does not show. Taken out of a report with colours, these
sequences leave the report without colours (`plain_render`), since a row is laid out first and painted
afterwards: its colours stand around texts of a width of their own, and never inside.

`ShowsAs on off` says that a text without its sequences is another text, whatever stands behind it. So
rows are compared piece by piece, with one lemma for each kind of row.
-/

namespace StoreBindings.Report

/-- What stands behind the codes of a sequence, which an `m` ends. -/
def afterCodes? : List Char → Option (List Char)
  | [] => none
  | c :: cs =>
    if c = 'm' then some cs else if c.isDigit ∨ c = ';' then afterCodes? cs else none

/-- What stands behind a sequence that sets a look, if a text begins with one. -/
def afterLook? : List Char → Option (List Char)
  | c :: d :: cs => if c = escapeChar ∧ d = '[' then afterCodes? cs else none
  | _ => none

/-- The codes of a sequence end with a character. -/
lemma length_of_afterCodes? {cs rest : List Char} (h : afterCodes? cs = some rest) :
    rest.length < cs.length := by
  induction cs with
  | nil => cases h
  | cons c cs ih =>
    rw [afterCodes?] at h
    split at h
    · cases h
      exact Nat.lt_succ_self _
    · split at h
      · exact (ih h).trans (Nat.lt_succ_self _)
      · cases h

/-- A sequence that sets a look is not empty. -/
lemma length_of_afterLook? {cs rest : List Char} (h : afterLook? cs = some rest) :
    rest.length < cs.length := by
  unfold afterLook? at h
  split at h
  · split at h
    · have hrest := length_of_afterCodes? h
      rw [List.length_cons, List.length_cons]
      omega
    · cases h
  · cases h

/-- A text without the sequences that set a look. -/
def plain (cs : List Char) : List Char :=
  match cs with
  | [] => []
  | c :: cs =>
    match _h : afterLook? (c :: cs) with
    | some rest => plain rest
    | none => c :: plain cs
termination_by cs.length
decreasing_by
  · exact length_of_afterLook? _h
  · exact Nat.lt_succ_self _

/-- A sequence at the beginning is dropped. -/
lemma plain_of_afterLook? {cs rest : List Char} (h : afterLook? cs = some rest) :
    plain cs = plain rest := by
  cases cs with
  | nil => cases h
  | cons c cs =>
    rw [plain]
    split
    · next rest' h' =>
      rw [h] at h'
      cases h'
      rfl
    · next h' =>
      rw [h] at h'
      cases h'

/-- What is no escape character begins no sequence. -/
lemma plain_cons_of_ne {c : Char} (h : c ≠ escapeChar) (cs : List Char) :
    plain (c :: cs) = c :: plain cs := by
  have hnone : afterLook? (c :: cs) = none := by
    cases cs with
    | nil => rfl
    | cons d cs => exact if_neg fun hand => h hand.1
  rw [plain]
  split
  · next h' =>
    rw [hnone] at h'
    cases h'
  · rfl

/-! ## Painted texts -/

/-- Without its sequences a text is another one, whatever stands behind it. -/
def ShowsAs (on off : List Char) : Prop := ∀ rest, plain (on ++ rest) = off ++ plain rest

variable {on off on' off' cs : List Char} {width : Nat}

/-- Texts that stand behind one another are shown behind one another. -/
lemma ShowsAs.append (h : ShowsAs on off) (h' : ShowsAs on' off') :
    ShowsAs (on ++ on') (off ++ off') := by
  intro rest
  rw [List.append_assoc, h, h', List.append_assoc]

/-- A text without an escape character is shown as it is. -/
lemma showsAs_self (h : escapeChar ∉ cs) : ShowsAs cs cs := by
  intro rest
  induction cs with
  | nil => rfl
  | cons c cs ih =>
    rw [List.mem_cons, not_or] at h
    obtain ⟨hc, hcs⟩ := h
    rw [List.cons_append, plain_cons_of_ne (Ne.symm hc), ih hcs, List.cons_append]

/-- A painted text is shown as the text. -/
lemma showsAs_paint (look : Look) (h : escapeChar ∉ cs) :
    ShowsAs (Layout.paint ⟨width, true⟩ look cs) (Layout.paint ⟨width, false⟩ look cs) := by
  intro rest
  have hon : ∀ more, afterLook? (escapeChar :: '[' :: (look.codes.toList ++ 'm' :: more)) =
      some more := by
    intro more
    cases look <;> rfl
  have hoff : afterLook? (escapeChar :: '[' :: '0' :: 'm' :: rest) = some rest := rfl
  show plain (escapeChar :: '[' :: (look.codes.toList ++ 'm' :: (cs ++ _)) ++ rest) = cs ++ plain rest
  rw [List.cons_append, List.cons_append, List.append_assoc, List.cons_append,
    plain_of_afterLook? (hon _), List.append_assoc, showsAs_self h]
  show cs ++ plain (escapeChar :: '[' :: '0' :: 'm' :: rest) = _
  rw [plain_of_afterLook? hoff]

/-! ## Rows -/

/-- Laying a text out in a width adds blanks only. -/
lemma not_mem_padStart {width : Nat} (h : escapeChar ∉ cs) : escapeChar ∉ padStart width cs := by
  rw [padStart, List.mem_append, not_or]
  exact ⟨fun hmem => absurd (List.eq_of_mem_replicate hmem) (by decide), h⟩

/-- The banner of a message is shown as its severity. -/
lemma showsAs_banner (s : Severity) :
    ShowsAs (banner ⟨width, true⟩ s) (banner ⟨width, false⟩ s) := by
  refine showsAs_paint _ ?_
  rw [padEnd, List.mem_append, not_or]
  refine ⟨?_, fun hmem => absurd (List.eq_of_mem_replicate hmem) (by decide)⟩
  cases s <;> decide

/-- A row is shown as the number and what stands beside it. -/
lemma ShowsAs.row (h : ShowsAs on off) (number : Nat) :
    ShowsAs (row ⟨width, true⟩ number on) (row ⟨width, false⟩ number off) := by
  refine ((showsAs_paint _ (not_mem_padStart fun hmem => ?_)).append (showsAs_self (by decide))).append h
  exact absurd (Text.isDigit_of_mem_toString hmem) (by decide)

/-- Rows that are shown as others. -/
abbrev RowsShowAs (on off : List (List Char)) : Prop := List.Forall₂ ShowsAs on off

/-- Lists that are made index by index are related if their elements are. -/
lemma forall₂_mapIdx {α β : Type} {R : β → β → Prop} {f g : Nat → α → β} {xs : List α}
    (h : ∀ i, ∀ x ∈ xs, R (f i x) (g i x)) : List.Forall₂ R (xs.mapIdx f) (xs.mapIdx g) := by
  induction xs generalizing f g with
  | nil => exact .nil
  | cons x xs ih =>
    rw [List.mapIdx_cons, List.mapIdx_cons]
    exact .cons (h 0 x List.mem_cons_self) (ih fun i y hy => h (i + 1) y (List.mem_cons_of_mem _ hy))

/-- The rows of code are shown as numbered lines. -/
lemma rowsShowAs_codeRows (startLine : Nat) {lines : List (List Char)}
    (h : ∀ line ∈ lines, escapeChar ∉ line) :
    RowsShowAs (codeRows ⟨width, true⟩ startLine lines) (codeRows ⟨width, false⟩ startLine lines) := by
  refine List.rel_append ?_ ?_
  · exact forall₂_mapIdx fun i line hline =>
      (showsAs_self (h line (List.mem_of_mem_take hline))).row _
  · split
    · refine forall₂_mapIdx fun i points _ => (showsAs_paint _ fun hmem => ?_).row _
      exact absurd (List.eq_of_mem_replicate hmem) (by decide)
    · exact .nil

/-- Rows that are made one by one are shown one by one. -/
lemma rowsShowAs_map {α : Type} {f g : α → List Char} {xs : List α}
    (h : ∀ x ∈ xs, ShowsAs (f x) (g x)) : RowsShowAs (xs.map f) (xs.map g) := by
  rw [RowsShowAs, List.forall₂_map_left_iff, List.forall₂_map_right_iff, List.forall₂_same]
  exact h

/-- The lines of a text have no escape character either. -/
lemma not_mem_line (h : escapeChar ∉ cs) {line : List Char} (hline : line ∈ splitLines cs) :
    escapeChar ∉ line :=
  fun hmem => h ((of_mem_splitLines hline).2 hmem)

/-! ## Messages -/

/-- An example without escape characters. -/
structure Example.IsBare (e : Example) : Prop where
  heading : escapeChar ∉ e.heading.toList
  content : escapeChar ∉ e.content.toList

/-- The comment above an example is shown without its colours. -/
lemma rowsShowAs_commentRows {e : Example} (h : e.IsBare) :
    RowsShowAs (commentRows ⟨width, true⟩ e) (commentRows ⟨width, false⟩ e) := by
  refine List.rel_append (rowsShowAs_map fun line hline => ?_) (rowsShowAs_map fun line hline => ?_)
  · refine (showsAs_self (by decide)).append (showsAs_paint _ ?_)
    rw [List.mem_append, not_or]
    exact ⟨by decide, not_mem_line h.heading hline⟩
  · exact (showsAs_self (by decide)).append (showsAs_self (not_mem_line h.content hline))

/-- An example is shown without its colours. -/
lemma rowsShowAs_exampleRows {e : Example} (h : e.IsBare) :
    RowsShowAs (exampleRows ⟨width, true⟩ e) (exampleRows ⟨width, false⟩ e) := by
  have hblank : ShowsAs [] [] := showsAs_self List.not_mem_nil
  have hcontent : escapeChar ∉ '\n' :: (e.content.toList ++ ['\n']) := by
    rw [List.mem_cons, List.mem_append, not_or, not_or]
    exact ⟨by decide, h.content, by decide⟩
  refine List.rel_append (List.rel_append ?_ ?_) (.cons hblank .nil)
  · exact .cons hblank (.cons (showsAs_paint _ h.heading) .nil)
  · exact rowsShowAs_codeRows 0 fun line => not_mem_line hcontent

/-- The texts of a part of a message. -/
def Part.texts : Part → List String
  | .text line => [line]
  | .sample e => [e.heading, e.content]

/-- The texts that a message is made of, and what it shows of a source and of the path to it. -/
def Message.texts (m : Message) : List String :=
  m.parts.flatMap Part.texts ++ m.excerpt.toList.flatMap fun x => [x.code, x.location]

/-- A message without escape characters. -/
def Message.IsBare (m : Message) : Prop := ∀ t ∈ m.texts, escapeChar ∉ t.toList

instance : DecidablePred Message.IsBare := fun m =>
  inferInstanceAs (Decidable (∀ t ∈ m.texts, escapeChar ∉ t.toList))

variable {m : Message}

/-- A bare message has no escape character in a text of its parts. -/
lemma Message.IsBare.of_part (h : m.IsBare) {p : Part} (hp : p ∈ m.parts) {t : String}
    (ht : t ∈ p.texts) : escapeChar ∉ t.toList :=
  h t (List.mem_append_left _ (List.mem_flatMap_of_mem hp ht))

/-- Nor in a line that it is laid out in. -/
lemma Message.IsBare.line (h : m.IsBare) {line : String} (hline : line ∈ m.lines) :
    escapeChar ∉ line.toList := by
  obtain ⟨p, hp, hp'⟩ := List.mem_filterMap.1 hline
  cases p with
  | text line' =>
    cases hp'
    exact h.of_part hp List.mem_cons_self
  | sample e => cases hp'

/-- The example of a bare message is bare. -/
lemma Message.IsBare.sample (h : m.IsBare) {e : Example} (he : m.sample? = some e) :
    e.IsBare := by
  obtain ⟨p, hp, hp'⟩ := List.exists_of_findSome?_eq_some he
  cases p with
  | text line => cases hp'
  | sample e' =>
    cases hp'
    exact ⟨h.of_part hp (by simp [Part.texts]), h.of_part hp (by simp [Part.texts])⟩

/-- The code that a bare message quotes is bare, and so is the place of it. -/
lemma Message.IsBare.excerpt (h : m.IsBare) {x : Excerpt} (hx : m.excerpt = some x) :
    escapeChar ∉ x.code.toList ∧ escapeChar ∉ x.location.toList := by
  have htexts : ∀ t ∈ [x.code, x.location], t ∈ m.texts := by
    intro t ht
    refine List.mem_append_right _ (List.mem_flatMap_of_mem (a := x) ?_ ht)
    rw [hx]
    exact List.mem_cons_self
  exact ⟨h _ (htexts _ (by simp)), h _ (htexts _ (by simp))⟩

/-- What stands above or below the code is shown without its colours. -/
lemma rowsShowAs_besideRows (h : m.IsBare) (side : Placement) :
    RowsShowAs (besideRows ⟨width, true⟩ side m) (besideRows ⟨width, false⟩ side m) := by
  unfold besideRows
  split
  · next e he =>
    split
    · exact rowsShowAs_commentRows (h.sample (Option.filter_eq_some_iff.1 he).1)
    · exact .nil
  · exact .nil

/-- The code that a message quotes is shown without its colours, example included. -/
lemma rowsShowAs_excerptRows (h : m.IsBare) {x : Excerpt} (hx : m.excerpt = some x) :
    RowsShowAs (excerptRows ⟨width, true⟩ x (m.sample?.filter Example.isPlaced))
      (excerptRows ⟨width, false⟩ x (m.sample?.filter Example.isPlaced)) := by
  obtain ⟨hcode, hlocation⟩ := h.excerpt hx
  have hblank : ShowsAs [] [] := showsAs_self List.not_mem_nil
  rw [excerptRows_eq, excerptRows_eq]
  refine List.rel_append (List.rel_append (List.rel_append ?_ ?_) ?_) ?_
  · exact .cons hblank (.cons (showsAs_paint _ (by decide))
      (.cons (showsAs_paint _ hlocation) (.cons hblank .nil)))
  · exact rowsShowAs_besideRows h .after
  · exact rowsShowAs_codeRows _ fun line => not_mem_line hcode
  · -- an example is there with colours if it is there without them
    have hbefore : RowsShowAs (besideRows ⟨width, true⟩ .before m)
        (besideRows ⟨width, false⟩ .before m) := rowsShowAs_besideRows h .before
    unfold footRows
    generalize besideRows ⟨width, true⟩ .before m = on at hbefore ⊢
    generalize besideRows ⟨width, false⟩ .before m = off at hbefore ⊢
    refine .cons hblank ?_
    cases hbefore with
    | nil => exact .nil
    | cons hrow hrows => exact List.rel_append (.cons hrow hrows) (.cons hblank .nil)

/-- The text of a message is shown without its colours. -/
lemma rowsShowAs_textRows (h : m.IsBare) :
    RowsShowAs (textRows ⟨width, true⟩ m) (textRows ⟨width, false⟩ m) := by
  refine .cons (showsAs_banner m.severity) (List.rel_append ?_ ?_)
  · refine rowsShowAs_map fun line hline => showsAs_self ?_
    rw [List.mem_cons, not_or]
    exact ⟨by decide, h.line hline⟩
  · split
    · next e he =>
      split
      · exact .nil
      · exact rowsShowAs_exampleRows (h.sample he)
    · exact .nil

/-- A message is shown without its colours, row by row. -/
lemma rowsShowAs_messageRows (h : m.IsBare) :
    RowsShowAs (messageRows ⟨width, true⟩ m) (messageRows ⟨width, false⟩ m) := by
  rw [messageRows_eq, messageRows_eq]
  refine List.rel_append (rowsShowAs_textRows h) ?_
  split
  · next x hx => exact rowsShowAs_excerptRows h hx
  · exact .nil

/-! ## Reports -/

/-- Rows that are printed under one another are shown under one another. -/
lemma showsAs_printed {rows rows' : List (List Char)} (h : RowsShowAs rows rows') :
    ShowsAs (printed rows) (printed rows') := by
  induction h with
  | nil => exact showsAs_self List.not_mem_nil
  | cons hrow _ ih => exact (hrow.append (showsAs_self (by decide))).append ih

/-- A report of bare messages is shown without its colours. -/
lemma showsAs_reportChars {ds : Diagnostics} (h : ∀ m ∈ ds, m.IsBare) :
    ShowsAs (reportChars ⟨width, true⟩ ds) (reportChars ⟨width, false⟩ ds) := by
  induction ds with
  | nil => exact showsAs_self List.not_mem_nil
  | cons m ds ih =>
    obtain ⟨hm, hds⟩ := List.forall_mem_cons.1 h
    exact (showsAs_printed (rowsShowAs_messageRows hm)).append (ih hds)

/-- Without the sequences that set a look, a report with colours is the report without colours. They are
in every report that has a message. -/
theorem plain_render (width : Nat) {ds : Diagnostics} (h : ∀ m ∈ ds, m.IsBare) :
    plain (render ⟨width, true⟩ ds).toList = (render ⟨width, false⟩ ds).toList ∧
      (render ⟨width, true⟩ ds = render ⟨width, false⟩ ds ↔ ds = []) := by
  refine ⟨?_, fun heq => ?_, fun heq => ?_⟩
  · have hreport : plain (reportChars ⟨width, true⟩ ds ++ []) =
        reportChars ⟨width, false⟩ ds ++ plain [] := showsAs_reportChars h []
    rw [List.append_nil, plain, List.append_nil] at hreport
    rw [render, render, String.toList_ofList, String.toList_ofList]
    exact hreport
  · cases ds with
    | nil => rfl
    | cons m ds =>
      -- the one begins with a sequence, the other with a bracket
      have hfirst : some escapeChar = some '[' :=
        congrArg List.head? (String.ofList_injective heq)
      exact absurd hfirst (by decide)
  · rw [heq]
    rfl

/-- A message with a long excerpt and an example in two lines above it, and one with an example of its
own and no excerpt. -/
def Sample.findings : Diagnostics :=
  [Sample.subject.message .warning
      [.text "Too long.", .sample ((Example.alone "const a = [];\n// [1m").placed .after)]
      (some Sample.stretch),
    Sample.subject.message .error [.sample (.alone "export default a;")] none]

theorem plain_render_of_findings :
    (∀ m ∈ Sample.findings, m.IsBare) ∧
      plain (render ⟨30, true⟩ Sample.findings).toList =
        (render ⟨30, false⟩ Sample.findings).toList ∧
      (render ⟨30, true⟩ Sample.findings = render ⟨30, false⟩ Sample.findings ↔
        Sample.findings = []) := by
  have h : ∀ m ∈ Sample.findings, m.IsBare := by decide +kernel
  exact ⟨h, plain_render 30 h⟩

end StoreBindings.Report
