import StoreBindings.Report.Message

/-!
# Reports for a terminal

How messages are laid out, with or without colours. A message is a banner as wide as the
terminal, its lines of text, an example if it has one that stands on its own, and the excerpt of
the source with its lines numbered as in the file. A long excerpt is cut after ten lines and
trails off in three rows of points. An example that belongs beside the code is written around the
excerpt in the manner of a comment.

Colours only ever wrap a text that is already laid out, so they change no place in the report.
-/

namespace StoreBindings.Report

/-- The looks that the layout uses. -/
inductive Look
  | errorBanner | warningBanner | infoBanner | dimmed | underlined | dimmedUnderlined
deriving DecidableEq, Repr

/-- The codes that switch a look on. -/
def Look.codes : Look → String
  | .errorBanner => "1;41;37"
  | .warningBanner => "1;43;30"
  | .infoBanner => "1;44;37"
  | .dimmed => "2"
  | .underlined => "4"
  | .dimmedUnderlined => "2;4"

/-- How a report is written. -/
structure Layout where
  width : Nat
  colors : Bool

/-- The escape character, with which a terminal's control sequences begin. -/
def escapeChar : Char := '\x1b'

/-- The columns of a terminal that does not say how wide it is. -/
def defaultWidth : Nat := 80

/-- The excerpt is cut after this many lines. -/
def maxLines : Nat := 10

/-- The width that a setting gives: a positive number of 64 bits, perhaps with a plus sign. -/
def width? (setting : List Char) : Option Nat :=
  let digits := match Text.trim setting with
    | '+' :: cs => cs
    | cs => cs
  let n := digits.foldl (fun n d => 10 * n + (d.toNat - '0'.toNat)) 0
  if digits.isEmpty || !digits.all Char.isDigit || n == 0 || UInt64.size ≤ n then none else some n

namespace Layout

/-- A text in a look, if colours are wanted. -/
def paint (l : Layout) (look : Look) (text : List Char) : List Char :=
  if l.colors then
    escapeChar :: '[' :: (look.codes.toList ++ 'm' :: (text ++ [escapeChar, '[', '0', 'm']))
  else text

end Layout

/-- A text filled up with spaces at its end. -/
def padEnd (width : Nat) (cs : List Char) : List Char :=
  cs ++ List.replicate (width - cs.length) ' '

/-- A text filled up with spaces at its front. -/
def padStart (width : Nat) (cs : List Char) : List Char :=
  List.replicate (width - cs.length) ' ' ++ cs

/-- The lines of a text, its line ends taken off. -/
def splitLines : List Char → List (List Char)
  | [] => [[]]
  | c :: cs =>
    if c = '\n' then [] :: splitLines cs
    else
      match splitLines cs with
      | [] => [[c]]
      | l :: ls => (c :: l) :: ls

def Severity.look : Severity → Look
  | .error => .errorBanner
  | .warning => .warningBanner
  | .info => .infoBanner

/-- The label of a message in brackets, as wide as the terminal. -/
def banner (l : Layout) (s : Severity) : List Char :=
  l.paint s.look (padEnd l.width ('[' :: (s.label.toList ++ [']'])))

/-- A line of code beside its number. -/
def row (l : Layout) (number : Nat) (code : List Char) : List Char :=
  l.paint .dimmed (padStart 3 (toString number).toList) ++ " | ".toList ++ code

/-- The rows of points that an excerpt trails off in, the first of them with a given number. -/
def trail (l : Layout) (number : Nat) : List (List Char) :=
  [3, 2, 1].mapIdx fun i points => row l (number + i) (l.paint .dimmed (List.replicate points '.'))

/-- Lines of code with their numbers, the first of them the line after `startLine`. -/
def codeRows (l : Layout) (startLine : Nat) (code : List (List Char)) : List (List Char) :=
  ((code.take maxLines).mapIdx fun i line => row l (startLine + i + 1) line) ++
    if maxLines < code.length then trail l (startLine + maxLines + 1) else []

/-- An example beside the code, its heading a comment. -/
def commentRows (l : Layout) (e : Example) : List (List Char) :=
  let beside (line : List Char) := "    | ".toList ++ line
  (splitLines e.heading.toList).map (fun line =>
      beside (l.paint .dimmedUnderlined ("// ".toList ++ line))) ++
    (splitLines e.content.toList).map beside

/-- An example on its own, between blank lines. -/
def exampleRows (l : Layout) (e : Example) : List (List Char) :=
  [[], l.paint .underlined e.heading.toList] ++
    codeRows l 0 (splitLines ('\n' :: (e.content.toList ++ ['\n']))) ++ [[]]

/-- The excerpt of a message, with an example beside it if there is one. -/
def excerptRows (l : Layout) (x : Excerpt) (beside : Option Example) : List (List Char) :=
  let comment (p : Placement) :=
    match beside with
    | some e => if e.placement == some p then commentRows l e else []
    | none => []
  let after := comment .before
  [[], l.paint .underlined "Location:".toList, l.paint .dimmed x.location.toList, []] ++
    comment .after ++
    codeRows l x.startLine (splitLines x.code.toList) ++
    (if after.isEmpty then [] else [] :: after) ++ [[]]

/-- All rows of a message. -/
def messageRows (l : Layout) (m : Message) : List (List Char) :=
  banner l m.severity ::
    (m.lines.map (fun line => ' ' :: line.toList) ++
      (match m.sample? with
        | some e => if e.besideCode then [] else exampleRows l e
        | none => []) ++
      (match m.excerpt with
        | some x => excerptRows l x (m.sample?.filter Example.isPlaced)
        | none => []))

/-- The report of all messages, each row with a line end. -/
def reportChars (l : Layout) (ds : Diagnostics) : List Char :=
  ds.flatMap fun m => (messageRows l m).flatMap fun r => r ++ ['\n']

/-- The report of all messages. -/
def render (l : Layout) (ds : Diagnostics) : String := String.ofList (reportChars l ds)

end StoreBindings.Report
