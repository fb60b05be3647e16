import StoreBindings.Proofs.Store.Members
import StoreBindings.Store.Extraction

/-!
# Findings as messages

Every finding becomes one message, and the messages about a module are those about its store classes,
class by class: what is found in the class body, and then what the store lacks
(`messages_ofModule`). What a recorder is looking at is no part of that, since every finding knows
the place that it belongs to. The stores do not depend on the messages at all (`stores_ofModule`).
-/

namespace StoreBindings

open Report (Recorder Message Diagnostics Problem)
open Syntax (ClassDeclaration Instance TopLevel)

namespace Report.Recorder

variable (r : Recorder)

lemma messages_record (severity : Severity) (parts : List Part) (span : Option Syntax.Span) :
    (r.record severity parts span).messages =
      r.messages ++ [r.subject.message severity parts span] := rfl

lemma subject_record (severity : Severity) (parts : List Part) (span : Option Syntax.Span) :
    (r.record severity parts span).subject = r.subject := rfl

end Report.Recorder

namespace Store

/-- How grave a finding is; one about a method as an action is always an error. -/
def Finding.severity (f : Finding) : Report.Severity :=
  match f.place with
  | .member _ => f.problem.severity
  | .action .. => .error

/-- A finding as a message about a source. -/
def Finding.message (subject : Report.Subject) (f : Finding) : Message :=
  subject.message f.severity f.problem.parts (some f.place.span)

lemma messages_record (r : Recorder) (f : Finding) :
    (f.record r).messages = r.messages ++ [f.message r.subject] := by
  unfold Finding.record Finding.message Finding.severity
  cases f.place <;> rfl

lemma subject_record (r : Recorder) (f : Finding) : (f.record r).subject = r.subject := by
  unfold Finding.record
  cases f.place <;> rfl

/-- What is recorded does not change what it is about. -/
lemma subject_foldl_record (r : Recorder) (fs : List Finding) :
    (fs.foldl Finding.record r).subject = r.subject := by
  induction fs generalizing r with
  | nil => rfl
  | cons f fs ih => rw [List.foldl_cons, ih, subject_record]

/-- Findings are recorded in their order. -/
lemma messages_foldl_record (r : Recorder) (fs : List Finding) :
    (fs.foldl Finding.record r).messages = r.messages ++ fs.map (Finding.message r.subject) := by
  induction fs generalizing r with
  | nil => simp
  | cons f fs ih =>
    rw [List.foldl_cons, ih, messages_record, subject_record, List.append_assoc]
    rfl

/-- The messages of what is found in a class are added behind the messages that there are. -/
lemma messages_inClass (r : Recorder) (c : ClassDeclaration) (fs : List Finding) :
    (r.inClass c.name c.span fun r => fs.foldl Finding.record r).messages =
      r.messages ++ fs.map (Finding.message r.subject) :=
  messages_foldl_record (r.enterClass c.name c.span) fs

/-- Looking at a class leaves the subject as it was. -/
lemma subject_inClass (r : Recorder) (c : ClassDeclaration) (fs : List Finding) :
    (r.inClass c.name c.span fun r => fs.foldl Finding.record r).subject = r.subject :=
  subject_foldl_record (r.enterClass c.name c.span) fs

/-- A problem as a message about a stretch of a source. -/
def problemAt (subject : Report.Subject) (span : Syntax.Span) (p : Problem) : Message :=
  subject.message p.severity p.parts (some span)

/-- Problems are recorded one by one as messages at one stretch of the source. -/
lemma record_foldl_problems (r : Recorder) (span : Syntax.Span) (ps : List Problem) :
    (ps.foldl (fun r p => r.record p.severity p.parts (some span)) r).messages =
        r.messages ++ ps.map (problemAt r.subject span) ∧
      (ps.foldl (fun r p => r.record p.severity p.parts (some span)) r).subject = r.subject := by
  induction ps generalizing r with
  | nil => simp
  | cons p ps ih =>
    rw [List.foldl_cons, (ih _).1, (ih _).2]
    simp [Recorder.messages_record, Recorder.subject_record, problemAt]

namespace Extraction

variable (ix : DecoratorIndex) (dirs : Directories) (file : Path) (is : List Instance)

/-- The store of a class. -/
def storeOf (c : ClassDeclaration) : Metadata :=
  ((Metadata.ofFile dirs file).addClass ix c).1.resolveExport is

/-- What is found in the body of a class. -/
def findingsOf (c : ClassDeclaration) : List Finding :=
  ((Metadata.ofFile dirs file).addClass ix c).2

/-- The messages about a class. -/
def messagesOf (subject : Report.Subject) (c : ClassDeclaration) : List Message :=
  (findingsOf ix dirs file c).map (Finding.message subject) ++
    ((storeOf ix dirs file is c).lacks c.name).map (problemAt subject c.span)

/-! ## One class -/

/-- The store of a class is what its members make of it, with its export. -/
lemma storeOf_eq (c : ClassDeclaration) : storeOf ix dirs file is c =
    { ((Metadata.ofFile dirs file).addClass ix c).1 with
      exportName := (is.find? fun i => i.className == some c.name).map Instance.name } := by
  have hname : ((Metadata.ofFile dirs file).addClass ix c).1.className = some c.name :=
    (sameHead_addMembers ix c.name c.members _ c.members).className
  rw [storeOf, Metadata.resolveExport, hname]
  dsimp only
  rw [hname]

lemma className_storeOf (c : ClassDeclaration) :
    (storeOf ix dirs file is c).className = some c.name := by
  rw [storeOf_eq]
  exact (sameHead_addMembers ix c.name c.members _ c.members).className

lemma classSpan_storeOf (c : ClassDeclaration) :
    (storeOf ix dirs file is c).classSpan = some c.span := by
  rw [storeOf_eq]
  exact (sameHead_addMembers ix c.name c.members _ c.members).classSpan

/-- The store of a class does not depend on what has been recorded. -/
lemma readClass_fst (r : Recorder) (c : ClassDeclaration) :
    (readClass ix dirs file is r c).1 = storeOf ix dirs file is c := rfl

/-- The messages about a class are added behind those that there are. -/
lemma messages_readClass (r : Recorder) (c : ClassDeclaration) :
    (readClass ix dirs file is r c).2.messages =
        r.messages ++ messagesOf ix dirs file is r.subject c ∧
      (readClass ix dirs file is r c).2.subject = r.subject := by
  have hread : (readClass ix dirs file is r c).2 = (storeOf ix dirs file is c).validate
      (r.inClass c.name c.span fun r => (findingsOf ix dirs file c).foldl Finding.record r) := rfl
  obtain ⟨hmessages, hsubject⟩ := record_foldl_problems
    (r.inClass c.name c.span fun r => (findingsOf ix dirs file c).foldl Finding.record r) c.span
    ((storeOf ix dirs file is c).lacks c.name)
  rw [hread, Metadata.validate, className_storeOf, classSpan_storeOf]
  rw [messages_inClass, subject_inClass, List.append_assoc] at hmessages
  exact ⟨hmessages, hsubject.trans (subject_inClass r c _)⟩

/-! ## All classes -/

/-- The stores and the messages of several classes are those of each of them. -/
lemma readClasses_eq (r : Recorder) (cs : List ClassDeclaration) :
    (readClasses ix dirs file is r cs).1 = cs.map (storeOf ix dirs file is) ∧
      (readClasses ix dirs file is r cs).2.messages =
        r.messages ++ cs.flatMap (messagesOf ix dirs file is r.subject) := by
  induction cs generalizing r with
  | nil => simp [readClasses]
  | cons c cs ih =>
    obtain ⟨hstores, hmessages⟩ := ih (readClass ix dirs file is r c).2
    obtain ⟨hread, hsubject⟩ := messages_readClass ix dirs file is r c
    rw [hsubject, hread, List.append_assoc] at hmessages
    rw [readClasses]
    dsimp only
    exact ⟨by rw [hstores, readClass_fst, List.map_cons], by rw [hmessages, List.flatMap_cons]⟩

variable (module : Syntax.Module)

/-- The stores of a module are those of its store classes. -/
theorem stores_ofModule : (ofModule ix dirs module).stores =
    (storeClasses (TopLevel.ofRoot module.root)).map
      (storeOf ix dirs module.path (instances (TopLevel.ofRoot module.root))) :=
  (readClasses_eq ix dirs module.path _ (Recorder.ofSubject (subjectOf module)) _).1

/-- The messages about a module are those about its store classes, class by class. -/
theorem messages_ofModule : (ofModule ix dirs module).diagnostics =
    (storeClasses (TopLevel.ofRoot module.root)).flatMap
      (messagesOf ix dirs module.path (instances (TopLevel.ofRoot module.root))
        (subjectOf module)) :=
  (readClasses_eq ix dirs module.path _ (Recorder.ofSubject (subjectOf module)) _).2

end Extraction

end Store

end StoreBindings
