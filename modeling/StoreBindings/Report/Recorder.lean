import StoreBindings.Report.Message

/-!
# Recording messages about a source

A recorder collects messages about one source and knows which store class and which method of it
are being looked at. It is told so by scopes: `inClass` and `inAction` run a step inside a scope
and leave the scope empty afterwards, whatever it was before.

A message about the action at hand is placed at the method, outside of any method at the class.
-/

namespace StoreBindings.Report

open Syntax (Span)

/-- A class or a method that is being looked at. -/
structure Scope where
  name : String
  span : Span
deriving DecidableEq, Repr

/-- The messages about a source so far, and what of it is being looked at. -/
structure Recorder where
  subject : Subject
  messages : Diagnostics
  currentClass : Option Scope
  currentAction : Option Scope

namespace Recorder

/-- A recorder without messages, outside of any class. -/
def ofSubject (subject : Subject) : Recorder := ⟨subject, [], none, none⟩

/-- Record a message. -/
def record (r : Recorder) (severity : Severity) (parts : List Part) (span : Option Span) :
    Recorder :=
  { r with messages := r.messages ++ [r.subject.message severity parts span] }

def error (r : Recorder) (parts : List Part) (span : Span) : Recorder :=
  r.record .error parts (some span)

def warn (r : Recorder) (parts : List Part) (span : Span) : Recorder :=
  r.record .warning parts (some span)

/-- The place of a message about the action at hand. -/
def actionSpan (r : Recorder) : Option Span := (r.currentAction.or r.currentClass).map Scope.span

/-- Record an error about the action at hand. -/
def actionError (r : Recorder) (parts : List Part) : Recorder :=
  r.record .error parts r.actionSpan

/-- The name of the class at hand; outside of any class it is empty. -/
def className (r : Recorder) : String := (r.currentClass.map Scope.name).getD ""

/-- The name of the method at hand; outside of any method it is empty. -/
def actionName (r : Recorder) : String := (r.currentAction.map Scope.name).getD ""

/-- Begin to look at a class. -/
def enterClass (r : Recorder) (name : String) (span : Span) : Recorder :=
  { r with currentClass := some ⟨name, span⟩ }

/-- Look at no class any more. -/
def leaveClass (r : Recorder) : Recorder := { r with currentClass := none }

/-- Begin to look at a method. -/
def enterAction (r : Recorder) (name : String) (span : Span) : Recorder :=
  { r with currentAction := some ⟨name, span⟩ }

/-- Look at no method any more. -/
def leaveAction (r : Recorder) : Recorder := { r with currentAction := none }

/-- Look at a class while a step is done. -/
def inClass (r : Recorder) (name : String) (span : Span) (step : Recorder → Recorder) : Recorder :=
  (step (r.enterClass name span)).leaveClass

/-- Look at a method while a step is done. -/
def inAction (r : Recorder) (name : String) (span : Span) (step : Recorder → Recorder) :
    Recorder :=
  (step (r.enterAction name span)).leaveAction

end Recorder

end StoreBindings.Report
