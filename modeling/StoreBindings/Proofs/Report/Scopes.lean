import Mathlib.Tactic.Lemma
import StoreBindings.Report.Recorder

/-!
# Scopes of a recorder

A scope that is left leaves nothing at hand of its kind, whatever was at hand before it
(`currentClass_run`, `currentAction_run`). So a history of scopes and messages leads back to where each
scope was entered, and places each message about the action at hand at the innermost scope around it,
as long as no scope lies within another one of its kind; in all other histories it does not:
`reentrant_iff`.
-/

namespace StoreBindings.Report

/-- What is done with a recorder, one thing after the other: messages are recorded, and scopes are
entered in which other things are done. -/
inductive History
  | done
  | error (parts : List Part) (span : Syntax.Span) (rest : History)
  | warn (parts : List Part) (span : Syntax.Span) (rest : History)
  | actionError (parts : List Part) (rest : History)
  | inClass (scope : Scope) (inside rest : History)
  | inAction (scope : Scope) (inside rest : History)

namespace History

/-- The recorder after a history. -/
def run : History → Recorder → Recorder
  | done, r => r
  | error parts span rest, r => rest.run (r.error parts span)
  | warn parts span rest, r => rest.run (r.warn parts span)
  | actionError parts rest, r => rest.run (r.actionError parts)
  | inClass scope inside rest, r => rest.run (r.inClass scope.name scope.span inside.run)
  | inAction scope inside rest, r => rest.run (r.inAction scope.name scope.span inside.run)

/-- Every scope leads back to the names that were at hand before it, and every message about the
action at hand is placed at the innermost action around it, outside of any action at the innermost
class, else nowhere; `c?` and `a?` are the innermost class and action around the history. -/
def Reentrant (c? a? : Option Scope) : History → Recorder → Prop
  | done, _ => True
  | error parts span rest, r => rest.Reentrant c? a? (r.error parts span)
  | warn parts span rest, r => rest.Reentrant c? a? (r.warn parts span)
  | actionError parts rest, r =>
    (r.actionError parts).messages =
        r.messages ++ [r.subject.message .error parts ((a?.or c?).map Scope.span)] ∧
      rest.Reentrant c? a? (r.actionError parts)
  | inClass scope inside rest, r =>
    let after := r.inClass scope.name scope.span inside.run
    inside.Reentrant (some scope) a? (r.enterClass scope.name scope.span) ∧
      after.className = r.className ∧ after.actionName = r.actionName ∧ rest.Reentrant c? a? after
  | inAction scope inside rest, r =>
    let after := r.inAction scope.name scope.span inside.run
    inside.Reentrant c? (some scope) (r.enterAction scope.name scope.span) ∧
      after.className = r.className ∧ after.actionName = r.actionName ∧ rest.Reentrant c? a? after

/-- No scope lies within another one of its kind. -/
def Layered (c? a? : Option Scope) : History → Prop
  | done => True
  | error _ _ rest | warn _ _ rest | actionError _ rest => rest.Layered c? a?
  | inClass scope inside rest =>
    c? = none ∧ inside.Layered (some scope) a? ∧ rest.Layered c? a?
  | inAction scope inside rest =>
    a? = none ∧ inside.Layered c? (some scope) ∧ rest.Layered c? a?

/-- Every scope has a name. -/
def Named : History → Prop
  | done => True
  | error _ _ rest | warn _ _ rest | actionError _ rest => rest.Named
  | inClass scope inside rest | inAction scope inside rest =>
    scope.name ≠ "" ∧ inside.Named ∧ rest.Named

/-- Whether a class is looked at in the course of a history. -/
def meetsClass : History → Bool
  | done => false
  | error _ _ rest | warn _ _ rest | actionError _ rest => rest.meetsClass
  | inClass .. => true
  | inAction _ inside rest => inside.meetsClass || rest.meetsClass

/-- Whether an action is looked at in the course of a history. -/
def meetsAction : History → Bool
  | done => false
  | error _ _ rest | warn _ _ rest | actionError _ rest => rest.meetsAction
  | inClass _ inside rest => inside.meetsAction || rest.meetsAction
  | inAction .. => true

/-! ## What is at hand after a history -/

/-- After a history in which a class was looked at no class is at hand any more. -/
theorem currentClass_run (h : History) (r : Recorder) :
    (h.run r).currentClass = if h.meetsClass then none else r.currentClass := by
  induction h generalizing r with
  | done => rfl
  | error _ _ _ ih | warn _ _ _ ih | actionError _ _ ih => exact ih _
  | inClass scope inside rest _ ih =>
    rw [run, ih]
    split <;> rfl
  | inAction scope inside rest ih ih' =>
    have hinside : (r.inAction scope.name scope.span inside.run).currentClass =
        if inside.meetsClass then none else r.currentClass := ih _
    rw [run, ih', hinside, meetsClass]
    cases inside.meetsClass <;> cases rest.meetsClass <;> rfl

/-- After a history in which an action was looked at no action is at hand any more. -/
theorem currentAction_run (h : History) (r : Recorder) :
    (h.run r).currentAction = if h.meetsAction then none else r.currentAction := by
  induction h generalizing r with
  | done => rfl
  | error _ _ _ ih | warn _ _ _ ih | actionError _ _ ih => exact ih _
  | inClass scope inside rest ih ih' =>
    have hinside : (r.inClass scope.name scope.span inside.run).currentAction =
        if inside.meetsAction then none else r.currentAction := ih _
    rw [run, ih', hinside, meetsAction]
    cases inside.meetsAction <;> cases rest.meetsAction <;> rfl
  | inAction scope inside rest _ ih =>
    rw [run, ih]
    split <;> rfl

/-! ## Layered histories -/

section Layered

variable {h : History} {c? a? : Option Scope} {r : Recorder}

lemma Layered.class_eq_none (hlayered : h.Layered c? a?) (hmeets : h.meetsClass = true) :
    c? = none := by
  induction h generalizing a? with
  | done => cases hmeets
  | error _ _ _ ih | warn _ _ _ ih | actionError _ _ ih => exact ih hlayered hmeets
  | inClass => exact hlayered.1
  | inAction _ _ _ ih ih' =>
    rcases Bool.or_eq_true _ _ ▸ hmeets with hinside | hrest
    · exact ih hlayered.2.1 hinside
    · exact ih' hlayered.2.2 hrest

lemma Layered.action_eq_none (hlayered : h.Layered c? a?) (hmeets : h.meetsAction = true) :
    a? = none := by
  induction h generalizing c? with
  | done => cases hmeets
  | error _ _ _ ih | warn _ _ _ ih | actionError _ _ ih => exact ih hlayered hmeets
  | inClass _ _ _ ih ih' =>
    rcases Bool.or_eq_true _ _ ▸ hmeets with hinside | hrest
    · exact ih hlayered.2.1 hinside
    · exact ih' hlayered.2.2 hrest
  | inAction => exact hlayered.1

/-- A layered history leaves the class at hand. -/
theorem Layered.currentClass_run (hlayered : h.Layered c? a?) (hclass : r.currentClass = c?) :
    (h.run r).currentClass = c? := by
  rw [History.currentClass_run]
  split
  · next hmeets => exact (hlayered.class_eq_none hmeets).symm
  · exact hclass

/-- A layered history leaves the action at hand. -/
theorem Layered.currentAction_run (hlayered : h.Layered c? a?) (haction : r.currentAction = a?) :
    (h.run r).currentAction = a? := by
  rw [History.currentAction_run]
  split
  · next hmeets => exact (hlayered.action_eq_none hmeets).symm
  · exact haction

lemma Layered.reentrant (hlayered : h.Layered c? a?) (hclass : r.currentClass = c?)
    (haction : r.currentAction = a?) : h.Reentrant c? a? r := by
  -- after a scope is left the other one is as it was, which is what layered histories keep
  induction h generalizing c? a? r with
  | done => trivial
  | error _ _ _ ih | warn _ _ _ ih => exact ih hlayered hclass haction
  | actionError parts rest ih =>
    refine ⟨?_, ih hlayered hclass haction⟩
    rw [← hclass, ← haction]
    rfl
  | inClass scope inside rest ih ih' =>
    obtain ⟨rfl, hinside, hrest⟩ := hlayered
    have hafter : (r.inClass scope.name scope.span inside.run).currentAction = a? :=
      hinside.currentAction_run (r := r.enterClass scope.name scope.span) haction
    refine ⟨ih hinside rfl haction, ?_, ?_, ih' hrest rfl hafter⟩
    · rw [Recorder.className, Recorder.className, hclass]
      rfl
    · rw [Recorder.actionName, Recorder.actionName, haction, hafter]
  | inAction scope inside rest ih ih' =>
    obtain ⟨rfl, hinside, hrest⟩ := hlayered
    have hafter : (r.inAction scope.name scope.span inside.run).currentClass = c? :=
      hinside.currentClass_run (r := r.enterAction scope.name scope.span) hclass
    refine ⟨ih hinside hclass rfl, ?_, ?_, ih' hrest hafter rfl⟩
    · rw [Recorder.className, Recorder.className, hclass, hafter]
    · rw [Recorder.actionName, Recorder.actionName, haction]
      rfl

/-- The names at hand tell whether a scope with a name is. -/
lemma eq_none_of_name {s? : Option Scope} (hnamed : ∀ s ∈ s?, s.name ≠ "")
    (hname : "" = (s?.map Scope.name).getD "") : s? = none := by
  cases s? with
  | none => rfl
  | some s => exact absurd hname.symm (hnamed s rfl)

/-- A scope that does not lead back has another one of its kind around it. -/
lemma Reentrant.layered (hreentrant : h.Reentrant c? a? r) (hnamed : h.Named)
    (hc : ∀ s ∈ c?, s.name ≠ "") (ha : ∀ s ∈ a?, s.name ≠ "") (hclass : r.currentClass = c?)
    (haction : r.currentAction = a?) : h.Layered c? a? := by
  induction h generalizing c? a? r with
  | done => trivial
  | error _ _ _ ih | warn _ _ _ ih => exact ih hreentrant hnamed hc ha hclass haction
  | actionError _ _ ih => exact ih hreentrant.2 hnamed hc ha hclass haction
  | inClass scope inside rest ih ih' =>
    obtain ⟨hname, hinside, hrest⟩ := hnamed
    obtain ⟨hreentrant, hback, -, hreentrant'⟩ := hreentrant
    have hlayered := ih hreentrant hinside (by simpa using hname) ha rfl haction
    have hafter := hlayered.currentAction_run (r := r.enterClass scope.name scope.span) haction
    -- behind the scope no class is at hand, so there was none before it
    obtain rfl := eq_none_of_name hc (hclass ▸ hback)
    exact ⟨rfl, hlayered, ih' hreentrant' hrest hc ha rfl hafter⟩
  | inAction scope inside rest ih ih' =>
    obtain ⟨hname, hinside, hrest⟩ := hnamed
    obtain ⟨hreentrant, -, hback, hreentrant'⟩ := hreentrant
    have hlayered := ih hreentrant hinside hc (by simpa using hname) hclass rfl
    have hafter := hlayered.currentClass_run (r := r.enterAction scope.name scope.span) hclass
    obtain rfl := eq_none_of_name ha (haction ▸ hback)
    exact ⟨rfl, hlayered, ih' hreentrant' hrest hc ha hafter rfl⟩

end Layered

/-- Of a recorder outside of any scope: every scope of a history leads back to what was at hand before
it and every message about the action at hand is placed at the innermost scope around it if and only
if no scope lies within another one of its kind. What is at hand behind a history is what was before
it, unless a scope of that kind was left in its course: then it is nothing. -/
theorem reentrant_iff (subject : Subject) {h : History} (hnamed : h.Named) :
    (h.Reentrant none none (.ofSubject subject) ↔ h.Layered none none) ∧
      ∀ r, (h.run r).currentClass = (if h.meetsClass then none else r.currentClass) ∧
        (h.run r).currentAction = if h.meetsAction then none else r.currentAction :=
  ⟨⟨fun hreentrant => hreentrant.layered hnamed (by simp) (by simp) rfl rfl,
    fun hlayered => hlayered.reentrant rfl rfl⟩,
    fun r => ⟨h.currentClass_run r, h.currentAction_run r⟩⟩

namespace Sample

def subject : Subject := ⟨.ofString "/app/stores/UserStore.ts", "export class UserStore \x7b\x7d\n".toList⟩

/-- A class with two methods, the first of which is reported, and then the class itself. -/
def layered : History :=
  .inClass ⟨"UserStore", 0, 25⟩
    (.inAction ⟨"load", 3, 5⟩ (.actionError [.text "on the method"] .done)
      (.inAction ⟨"save", 6, 9⟩ .done (.actionError [.text "on the class"] .done)))
    .done

/-- A class in another one, behind which the outer one is reported. -/
def nested : History :=
  .inClass ⟨"Outer", 0, 25⟩
    (.inClass ⟨"Inner", 7, 22⟩ .done (.actionError [.text "on the class"] .done))
    .done

end Sample

/-- The methods of a class lead back to the class one after the other. -/
theorem reentrant_of_layered : Sample.layered.Named ∧ Sample.layered.Layered none none ∧
    Sample.layered.Reentrant none none (.ofSubject Sample.subject) := by
  have hnamed : Sample.layered.Named := by simp [Sample.layered, Named]
  have hlayered : Sample.layered.Layered none none := by simp [Sample.layered, Layered]
  exact ⟨hnamed, hlayered, (reentrant_iff Sample.subject hnamed).1.2 hlayered⟩

/-- Behind a class in another one no class is at hand, and what is reported of the outer one has no
place. -/
theorem not_reentrant_of_nested :
    ¬Sample.nested.Reentrant none none (.ofSubject Sample.subject) ∧
      (Sample.nested.run (.ofSubject Sample.subject)).messages.map Message.span = [none] := by
  refine ⟨fun hreentrant => ?_, rfl⟩
  obtain ⟨⟨-, hback, -⟩, -⟩ := hreentrant
  exact absurd hback (by decide)

end History

end StoreBindings.Report
