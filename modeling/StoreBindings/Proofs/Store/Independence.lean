import StoreBindings.Proofs.Store.Findings

/-!
# Store classes of one module do not touch each other

The classes of a module are read one after the other with one recorder, which knows the class and the
method at hand. What each of them gives on its own, with a recorder that has seen nothing, is
`alone`; what they give together is that, one after the other: `ofModule_eq_join`.

Two facts carry this. Whatever the recorder has been through, a class adds the messages that it would
add to a new one, since a finding is placed by its member and not by what is being looked at
(`messages_readClass`). And a recorder that looks at nothing does so again after a class
(`readClass_outside`), so the next class meets a new recorder, but for the messages.
-/

namespace StoreBindings.Store

open Report (Recorder Scope Diagnostics Subject Problem)
open Syntax (ClassDeclaration TopLevel)

/-! ## Findings leave no scope behind -/

/-- Between two methods, in or outside of a class, a finding leaves no trace other than its
message. -/
lemma record_of_no_action (subject : Subject) (messages : Diagnostics) (current : Option Scope)
    (f : Finding) : f.record ⟨subject, messages, current, none⟩ =
      ⟨subject, messages ++ [f.message subject], current, none⟩ := by
  unfold Finding.record Finding.message Finding.severity
  cases f.place <;> rfl

lemma foldl_record_of_no_action (subject : Subject) (messages : Diagnostics)
    (current : Option Scope) (fs : List Finding) :
    fs.foldl Finding.record ⟨subject, messages, current, none⟩ =
      ⟨subject, messages ++ fs.map (Finding.message subject), current, none⟩ := by
  induction fs generalizing messages with
  | nil => simp
  | cons f fs ih =>
    rw [List.foldl_cons, record_of_no_action, ih, List.append_assoc]
    rfl

lemma foldl_record_problems (r : Recorder) (span : Syntax.Span) (ps : List Problem) :
    ps.foldl (fun r p => r.record p.severity p.parts (some span)) r =
      { r with messages := r.messages ++ ps.map (problemAt r.subject span) } := by
  induction ps generalizing r with
  | nil => simp
  | cons p ps ih =>
    rw [List.foldl_cons, ih]
    simp [Recorder.record, problemAt]

namespace Extraction

variable (ix : DecoratorIndex) (dirs : Directories)

/-! ## One class -/

/-- Reading a class leaves a recorder that looks at nothing as it was, but for the messages. -/
theorem readClass_outside (file : Path) (is : List Syntax.Instance) (subject : Subject)
    (messages : Diagnostics) (c : ClassDeclaration) :
    readClass ix dirs file is ⟨subject, messages, none, none⟩ c =
      (storeOf ix dirs file is c,
        ⟨subject, messages ++ messagesOf ix dirs file is subject c, none, none⟩) := by
  let r : Recorder := ⟨subject, messages, none, none⟩
  let findings := findingsOf ix dirs file c
  -- the class that is entered is left again, whatever is found in it
  have hclass : r.inClass c.name c.span (fun r => findings.foldl Finding.record r) =
      ⟨subject, messages ++ findings.map (Finding.message subject), none, none⟩ :=
    congrArg Recorder.leaveClass
      (foldl_record_of_no_action subject messages (some ⟨c.name, c.span⟩) findings)
  have hread : (readClass ix dirs file is r c).2 = (storeOf ix dirs file is c).validate
      (r.inClass c.name c.span fun r => findings.foldl Finding.record r) := rfl
  refine Prod.ext (readClass_fst ..) ?_
  rw [hread, hclass, Metadata.validate, className_storeOf, classSpan_storeOf]
  dsimp only
  rw [foldl_record_problems, messagesOf, List.append_assoc]

/-- What a store class of a module gives on its own, read with a new recorder. -/
def alone (module : Syntax.Module) (c : ClassDeclaration) : Extraction :=
  let (store, r) := readClass ix dirs module.path (instances (TopLevel.ofRoot module.root))
    (Recorder.ofSubject (subjectOf module)) c
  ⟨[store], r.messages⟩

variable (module : Syntax.Module)

lemma alone_eq (c : ClassDeclaration) : alone ix dirs module c =
    ⟨[storeOf ix dirs module.path (instances (TopLevel.ofRoot module.root)) c],
      messagesOf ix dirs module.path (instances (TopLevel.ofRoot module.root)) (subjectOf module)
        c⟩ := by
  rw [alone, Recorder.ofSubject, readClass_outside]
  rfl

/-! ## All classes -/

/-- What several extractions give together, one after the other. -/
def join (es : List Extraction) : Extraction :=
  ⟨es.flatMap Extraction.stores, es.flatMap Extraction.diagnostics⟩

lemma join_cons (e : Extraction) (es : List Extraction) :
    join (e :: es) = ⟨e.stores ++ (join es).stores, e.diagnostics ++ (join es).diagnostics⟩ := rfl

/-- Reading classes with one recorder is reading each with a recorder of its own. -/
lemma readClasses_outside (messages : Diagnostics) (cs : List ClassDeclaration) :
    readClasses ix dirs module.path (instances (TopLevel.ofRoot module.root))
        ⟨subjectOf module, messages, none, none⟩ cs =
      ((join (cs.map (alone ix dirs module))).stores,
        ⟨subjectOf module, messages ++ (join (cs.map (alone ix dirs module))).diagnostics, none,
          none⟩) := by
  induction cs generalizing messages with
  | nil => simp [readClasses, join]
  | cons c cs ih =>
    -- the rest is read with a recorder that looks at nothing, so the hypothesis applies to it
    rw [readClasses, readClass_outside]
    dsimp only
    rw [ih, List.map_cons, join_cons, alone_eq, List.append_assoc]
    rfl

/-- The stores of a module and the messages about it are those of its store classes, each read on its
own, one after the other. Neither the messages that there are already nor a class or a method that is
still being looked at make a difference to what a class gives, and it leaves no class or method
behind. -/
theorem ofModule_eq_join :
    ofModule ix dirs module =
        join ((storeClasses (TopLevel.ofRoot module.root)).map (alone ix dirs module)) ∧
      ∀ (messages : Diagnostics) (c : ClassDeclaration),
        let read := readClass ix dirs module.path (instances (TopLevel.ofRoot module.root))
        (∀ currentClass currentAction : Option Scope,
          [(read ⟨subjectOf module, messages, currentClass, currentAction⟩ c).1] =
              (alone ix dirs module c).stores ∧
            (read ⟨subjectOf module, messages, currentClass, currentAction⟩ c).2.messages =
              messages ++ (alone ix dirs module c).diagnostics) ∧
          (read ⟨subjectOf module, messages, none, none⟩ c).2 =
            ⟨subjectOf module, messages ++ (alone ix dirs module c).diagnostics, none, none⟩ := by
  refine ⟨?_, fun messages c => ⟨fun currentClass currentAction => ?_, ?_⟩⟩
  · have hread := readClasses_outside ix dirs module [] (storeClasses (TopLevel.ofRoot module.root))
    rw [ofModule]
    dsimp only
    rw [Recorder.ofSubject, hread]
    rfl
  · rw [alone_eq]
    exact ⟨rfl, (messages_readClass ix dirs module.path _ _ c).1⟩
  · rw [alone_eq, readClass_outside]

end Extraction

end StoreBindings.Store
