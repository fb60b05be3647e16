import StoreBindings.Path.Basic
import StoreBindings.Text.Basic
import StoreBindings.Syntax.Tree

/-!
# Messages about a source

A message has a severity and parts: lines of text, and examples of what should have been written.
If it is about a stretch of a source, the stretch is looked up when the message is recorded, so a
report can be written without the sources. A stretch that the source does not have leaves the
message without an excerpt.
-/

namespace StoreBindings.Report

inductive Severity
  | error | warning | info
deriving DecidableEq, Repr, Inhabited

/-- The word that heads a message. -/
def Severity.label : Severity → String
  | .error => "ERROR"
  | .warning => "WARNING"
  | .info => "INFO"

/-- On which side of the excerpt an example stands. -/
inductive Placement
  | before | after
deriving DecidableEq, Repr, Inhabited

/-- An example of what should have been written. -/
structure Example where
  content : String
  heading : String
  /-- Whether it stands beside the excerpt and not on its own. -/
  besideCode : Bool
  placement : Option Placement
deriving DecidableEq, Repr, Inhabited

namespace Example

/-- An example that stands on its own. -/
def alone (content : String) : Example := ⟨content, "Example:", false, none⟩

/-- The same example on one side of the excerpt. -/
def placed (e : Example) (p : Placement) : Example :=
  { e with besideCode := true, placement := some p }

/-- Whether it is known on which side of the excerpt the example stands. -/
def isPlaced (e : Example) : Bool := e.besideCode && e.placement.isSome

end Example

inductive Part
  | text (line : String)
  | sample (e : Example)
deriving DecidableEq, Repr

/-- What a source says at the place that a message is about. -/
structure Excerpt where
  code : String
  /-- The zero-based line at which the code starts. -/
  startLine : Nat
  /-- File, line and column, the latter two counted from one. -/
  location : String
deriving DecidableEq, Repr, Inhabited

structure Message where
  severity : Severity
  parts : List Part
  span : Option Syntax.Span
  excerpt : Option Excerpt
deriving DecidableEq, Repr

namespace Message

/-- The lines of text of a message. -/
def lines (m : Message) : List String :=
  m.parts.filterMap fun
    | .text line => some line
    | .sample _ => none

/-- The first example of a message. -/
def sample? (m : Message) : Option Example :=
  m.parts.findSome? fun
    | .sample e => some e
    | .text _ => none

end Message

/-- A source that messages can be about: its path and its text. -/
structure Subject where
  path : Path
  text : List Char
deriving Inhabited

/-- What a source says at a span, if the span lies within it. -/
def Subject.excerpt? (s : Subject) (span : Syntax.Span) : Option Excerpt := do
  let code ← Text.slice? s.text span.start span.stop
  let (line, column) := Text.position s.text span.start
  return {
    code := String.ofList (Text.trim code)
    startLine := line
    location := s!"{s.path.toString}:{line + 1}:{column + 1}" }

/-- A message about a source. -/
def Subject.message (s : Subject) (severity : Severity) (parts : List Part)
    (span : Option Syntax.Span) : Message :=
  ⟨severity, parts, span, span.bind s.excerpt?⟩

/-- Messages in the order in which they were recorded. -/
abbrev Diagnostics := List Message

namespace Diagnostics

/-- How many messages have a given severity. -/
def count (ds : Diagnostics) (s : Severity) : Nat := ds.countP fun m => m.severity == s

def hasErrors (ds : Diagnostics) : Bool := 0 < ds.count .error

end Diagnostics

end StoreBindings.Report
