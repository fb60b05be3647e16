import Mathlib.Tactic.IntervalCases
import StoreBindings.Proofs.Text.Lines
import StoreBindings.Proofs.Text.Basic

/-!
# The source in a report

A message shows the lines of the stretch that it is about, each beside the number that the line has in
the whole source: `source_numbered`. A stretch begins in the middle of a line and is trimmed at its end, so
its first and its last line need not be whole lines of the source; all others are. Only the first ten
lines are shown, and if there are more, three rows of points go on with the numbers.
-/

namespace StoreBindings

namespace Text

variable {cs code : List Char} {start stop : Nat}

/-- What stands before a stretch of a text ends where the stretch starts. -/
lemma exists_of_slice? (h : slice? cs start stop = some code) :
    ∃ before after, cs = before ++ (code ++ after) ∧ byteLength before = start := by
  unfold slice? at h
  split at h
  · obtain ⟨⟨upTo, after⟩, hstop, h⟩ := Option.bind_eq_some_iff.1 h
    obtain ⟨⟨before, inside⟩, hstart, h⟩ := Option.bind_eq_some_iff.1 h
    cases Option.some.inj h
    obtain ⟨rfl, -⟩ := splitAt?_eq_some hstop
    obtain ⟨rfl, hlength⟩ := splitAt?_eq_some hstart
    exact ⟨before, after, List.append_assoc _ _ _, hlength⟩
  · cases h

end Text

namespace Report

open Syntax (Span)

/-! ## Around the source -/

/-- The place at which a stretch of a source starts: file, line and column, the latter two counted from
one. -/
def Subject.locationOf (s : Subject) (span : Span) : String :=
  let place := Text.position s.text span.start
  s!"{s.path.toString}:{place.1 + 1}:{place.2 + 1}"

/-- An example beside the source, on one side of it. -/
def besideRows (l : Layout) (side : Placement) (m : Message) : List (List Char) :=
  match m.sample?.filter Example.isPlaced with
  | some e => if e.placement == some side then commentRows l e else []
  | none => []

/-- What a message shows first: its text, and an example that has no place beside the source. -/
def textRows (l : Layout) (m : Message) : List (List Char) :=
  banner l m.severity ::
    (m.lines.map (fun line => ' ' :: line.toList) ++
      (match m.sample? with
        | some e => if e.besideCode then [] else exampleRows l e
        | none => []))

/-- What a message shows before the source: its text, where the source is, and perhaps an example. -/
def headRows (l : Layout) (m : Message) (location : String) : List (List Char) :=
  textRows l m ++
    [[], l.paint .underlined "Location:".toList, l.paint .dimmed location.toList, []] ++
    besideRows l .after m

/-- What a message shows behind the source: a blank row, and perhaps an example. -/
def footRows (l : Layout) (m : Message) : List (List Char) :=
  [] :: if (besideRows l .before m).isEmpty then [] else besideRows l .before m ++ [[]]

lemma excerptRows_eq (l : Layout) (x : Excerpt) (m : Message) :
    excerptRows l x (m.sample?.filter Example.isPlaced) =
      [[], l.paint .underlined "Location:".toList, l.paint .dimmed x.location.toList, []] ++
        besideRows l .after m ++ codeRows l x.startLine (splitLines x.code.toList) ++
        footRows l m := by
  have hfoot : footRows l m =
      (if (besideRows l .before m).isEmpty then [] else [] :: besideRows l .before m) ++ [[]] := by
    unfold footRows
    split <;> rfl
  rw [hfoot, ← List.append_assoc]
  rfl

lemma messageRows_eq (l : Layout) (m : Message) :
    messageRows l m = textRows l m ++
      (match m.excerpt with
        | some x => excerptRows l x (m.sample?.filter Example.isPlaced)
        | none => []) := rfl

/-- The source stands between these. -/
lemma messageRows_of_excerpt (l : Layout) {m : Message} {x : Excerpt} (h : m.excerpt = some x) :
    messageRows l m = headRows l m x.location ++
      codeRows l x.startLine (splitLines x.code.toList) ++ footRows l m := by
  calc messageRows l m
      = textRows l m ++ excerptRows l x (m.sample?.filter Example.isPlaced) := by
        rw [messageRows_eq, h]
    _ = _ := by
        rw [excerptRows_eq, headRows]
        simp only [List.append_assoc]

/-- Rows as they are printed, each with a line end. -/
def printed (rows : List (List Char)) : List Char := rows.flatMap (· ++ ['\n'])

lemma printed_append (rows rows' : List (List Char)) :
    printed (rows ++ rows') = printed rows ++ printed rows' := List.flatMap_append

lemma reportChars_singleton (l : Layout) (m : Message) :
    reportChars l [m] = printed (messageRows l m) := List.append_nil _

/-! ## Numbered rows -/

/-- Rows with the first ten of some lines, each beside its number. If there are more lines, the numbers
go on beside three rows of points. -/
structure Numbers (l : Layout) (first : Nat) (lines rows : List (List Char)) : Prop where
  length : rows.length = min 10 lines.length + if 10 < lines.length then 3 else 0
  row : ∀ i line, i < 10 → lines[i]? = some line → rows[i]? = some (row l (first + i) line)
  trail : ∀ j, 10 < lines.length → j < 3 → rows[10 + j]? =
    some (Report.row l (first + (10 + j)) (l.paint .dimmed (List.replicate (3 - j) '.')))

lemma not_mem_paint (l : Layout) (look : Look) {cs : List Char} (h : '\n' ∉ cs) :
    '\n' ∉ l.paint look cs := by
  have hcodes : '\n' ∉ look.codes.toList := by cases look <;> decide
  unfold Layout.paint
  split
  · simp [hcodes, h, escapeChar]
  · exact h

lemma not_mem_row (l : Layout) (number : Nat) {code : List Char} (h : '\n' ∉ code) :
    '\n' ∉ row l number code := by
  have hnumber : '\n' ∉ padStart 3 (toString number).toList := by
    rw [padStart, List.mem_append, not_or]
    exact ⟨fun hmem => absurd (List.eq_of_mem_replicate hmem) (by decide),
      fun hmem => absurd (Text.isDigit_of_mem_toString hmem) (by decide)⟩
  unfold row
  rw [List.mem_append, List.mem_append, not_or, not_or]
  exact ⟨⟨not_mem_paint l _ hnumber, by decide⟩, h⟩

/-- Each row is one line of the report. -/
lemma not_mem_of_mem_codeRows (l : Layout) (startLine : Nat) {lines : List (List Char)}
    (h : ∀ line ∈ lines, '\n' ∉ line) {r : List Char} (hr : r ∈ codeRows l startLine lines) :
    '\n' ∉ r := by
  unfold codeRows trail at hr
  rcases List.mem_append.1 hr with hr | hr
  · obtain ⟨i, hi, rfl⟩ := List.mem_mapIdx.1 hr
    exact not_mem_row l _ (h _ (List.mem_of_mem_take (List.getElem_mem _)))
  · split at hr
    · obtain ⟨i, hi, rfl⟩ := List.mem_mapIdx.1 hr
      exact not_mem_row l _ (not_mem_paint l _ fun hmem =>
        absurd (List.eq_of_mem_replicate hmem) (by decide))
    · cases hr

lemma getElem?_trail (l : Layout) (number : Nat) {j : Nat} (hj : j < 3) : (trail l number)[j]? =
    some (row l (number + j) (l.paint .dimmed (List.replicate (3 - j) '.'))) := by
  have hpoints : [3, 2, 1][j]? = some (3 - j) := by interval_cases j <;> rfl
  rw [trail, List.getElem?_mapIdx, hpoints, Option.map_some]

lemma numbers_codeRows (l : Layout) (startLine : Nat) (lines : List (List Char)) :
    Numbers l (startLine + 1) lines (codeRows l startLine lines) where
  length := by
    unfold codeRows maxLines
    rw [List.length_append, List.length_mapIdx, List.length_take]
    congr 1
    split <;> rfl
  row i line hi hline := by
    have hlength := (List.getElem?_eq_some_iff.1 hline).1
    unfold codeRows maxLines
    rw [List.getElem?_append_left (by simp; omega), List.getElem?_mapIdx, List.getElem?_take,
      if_pos hi, hline, Nat.add_right_comm]
    rfl
  trail j hlong hj := by
    have hnumber : startLine + 10 + 1 + j = startLine + 1 + (10 + j) := by omega
    unfold codeRows maxLines
    rw [List.getElem?_append_right (by simp), if_pos hlong, List.length_mapIdx,
      List.length_take, Nat.min_eq_left (Nat.le_of_lt hlong), Nat.add_sub_cancel_left,
      getElem?_trail l _ hj, hnumber]

/-- Numbers stand at the right of three columns. -/
example : codeRows ⟨80, false⟩ 8 ["a;".toList, "b;".toList] = ["  9 | a;".toList, " 10 | b;".toList] := by
  decide +kernel

/-! ## Parts of lines -/

/-- Lines that stand in a text one behind the other: the first of them from a column on, the inner ones
as whole lines of the text. -/
def AreLinesFrom (text : List Char) (line column : Nat) (parts : List (List Char)) : Prop :=
  ∀ i part, parts[i]? = some part → ∃ whole, (text.splitOn '\n')[line + i]? = some whole ∧
    part <+: whole.drop (if i = 0 then column else 0) ∧
    (i + 1 < parts.length → part = whole.drop (if i = 0 then column else 0))

/-- The lines of a part of a text are lines of the text from where the part begins. -/
lemma areLinesFrom_splitLines (before code after : List Char) :
    AreLinesFrom (before ++ (code ++ after)) (Text.lineEnds before) (Text.lastLine before).length
      (splitLines code) := by
  intro i part hpart
  obtain ⟨whole, hwhole, hfront, heq⟩ := exists_splitLines_append code after hpart
  rw [← splitLines_eq_splitOn, getElem?_splitLines_append, hwhole, Option.map_some]
  refine ⟨_, rfl, ?_⟩
  have hdrop : (if i = 0 then Text.lastLine before ++ whole else whole).drop
      (if i = 0 then (Text.lastLine before).length else 0) = whole := by
    split
    · exact List.drop_left
    · exact List.drop_zero
  rw [hdrop]
  exact ⟨hfront, heq⟩

lemma excerpt?_of_slice? {s : Subject} {span : Span} {code : List Char}
    (h : Text.slice? s.text span.start span.stop = some code) :
    s.excerpt? span = some
      { code := String.ofList (Text.trim code)
        startLine := (Text.position s.text span.start).1
        location := s.locationOf span } := by
  rw [Subject.excerpt?, h]
  rfl

/-- A message about a stretch of a source that begins with no blank shows, between its text and what may
stand behind it, the lines of the stretch, the blanks at its end left off: the first ten of them, each
beside its number in the source, and then three rows of points if there are more. The first line begins
at the column at which the stretch starts, and the inner ones are whole lines of the source. -/
theorem source_numbered (l : Layout) (s : Subject) (severity : Severity) (parts : List Part)
    (span : Span) {c : Char} {cs : List Char}
    (hspan : Text.slice? s.text span.start span.stop = some (c :: cs))
    (hc : Text.isBlank c = false) :
    let m := s.message severity parts (some span)
    let place := Text.position s.text span.start
    let lines := (Text.trim (c :: cs)).splitOn '\n'
    ∃ rows, reportChars l [m] = printed (headRows l m (s.locationOf span)) ++ printed rows ++
        printed (footRows l m) ∧
      (∀ r ∈ rows, '\n' ∉ r) ∧ Numbers l (place.1 + 1) lines rows ∧
      AreLinesFrom s.text place.1 place.2 lines := by
  intro m place lines
  obtain ⟨before, after, htext, hstart⟩ := Text.exists_of_slice? hspan
  -- the slice does not begin with a blank, so trimming only takes its end
  obtain ⟨blanks, hblanks⟩ := Text.exists_trim_append hc cs
  have hlines : splitLines (Text.trim (c :: cs)) = lines := splitLines_eq_splitOn _
  have hplace : place = (Text.lineEnds before, (Text.lastLine before).length) := by
    rw [show place = Text.position s.text span.start from rfl, htext, ← hstart,
      Text.position_append]
  have hrows := messageRows_of_excerpt l (m := m) (excerpt?_of_slice? hspan)
  rw [String.toList_ofList, hlines] at hrows
  refine ⟨codeRows l place.1 lines, ?_, ?_, numbers_codeRows l place.1 lines, ?_⟩
  · rw [reportChars_singleton, hrows, printed_append, printed_append]
  · exact fun r => not_mem_of_mem_codeRows l _ fun line hline =>
      (of_mem_splitLines (hlines ▸ hline)).1
  · have hparts := areLinesFrom_splitLines before (Text.trim (c :: cs)) (blanks ++ after)
    rw [← List.append_assoc _ blanks, hblanks, ← htext, hlines] at hparts
    rw [hplace]
    exact hparts

/-- A source with a declaration of thirteen lines. -/
def Sample.subject : Subject where
  path := ⟨"/app/A.ts".toList⟩
  text := "// a\nexport const a = [\n 1,\n 2,\n 3,\n 4,\n 5,\n 6,\n 7,\n 8,\n 9,\n 10,\n 11\n];\n\n// b".toList

/-- The declaration without its first word, and a line end behind it. -/
def Sample.stretch : Span := ⟨12, 72⟩

/-- The declaration begins in the second line, ten of its lines are shown, and the points go on with the
twelfth. -/
theorem source_numbered_of_long :
    let s := Sample.subject
    let span := Sample.stretch
    let m := s.message .error [.text "Too long."] (some span)
    let cs := "onst a = [\n 1,\n 2,\n 3,\n 4,\n 5,\n 6,\n 7,\n 8,\n 9,\n 10,\n 11\n];\n".toList
    let lines := (Text.trim ('c' :: cs)).splitOn '\n'
    Text.slice? s.text span.start span.stop = some ('c' :: cs) ∧ Text.isBlank 'c' = false ∧
      lines.length = 13 ∧ Text.position s.text span.start = (1, 7) ∧
      ∃ rows, reportChars ⟨20, false⟩ [m] =
          printed (headRows ⟨20, false⟩ m "/app/A.ts:2:8") ++ printed rows ++
            printed (footRows ⟨20, false⟩ m) ∧
        (∀ r ∈ rows, '\n' ∉ r) ∧ Numbers ⟨20, false⟩ 2 lines rows ∧
        AreLinesFrom s.text 1 7 lines := by
  refine ⟨by decide +kernel, by decide, by decide +kernel, by decide +kernel, ?_⟩
  exact source_numbered ⟨20, false⟩ Sample.subject .error [.text "Too long."] Sample.stretch
    (by decide +kernel) (by decide)

end Report

end StoreBindings
