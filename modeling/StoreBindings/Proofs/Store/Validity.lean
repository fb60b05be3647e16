import Mathlib.Data.List.Forall2
import StoreBindings.Proofs.Store.Findings
import StoreBindings.Proofs.Syntax.Spans

/-!
# What is said about a store that is left out

A store class lacks something if no exported constant holds an instance of it, or if none of its
members is a state getter. It is then no valid store, and no code is generated for it. Each lack is
reported once, as an error at the class, but for one: a member that should have been the state getter
has been reported already, at its own place. So there is no store that is left out without an error
inside of its class: `accounted_of_ofModule`.

Messages do not say which class they are about. What makes it certain is their place: the classes of
a source do not overlap (`placed_storeClasses`), and so no two of them have one span.
-/

namespace StoreBindings

open Report (Recorder Message Diagnostics Problem)
open Syntax (ClassDeclaration Instance TopLevel Node Span Member)

namespace Store.Extraction

open Syntax (Declaration)

/-! ## Where store classes stand -/

/-- Whether a node is a store class. -/
def isStoreNode (n : Node) : Bool :=
  n.kind == .classDeclaration && (ClassDeclaration.ofNode n).isStore

/-- The nodes of the store classes of a source. -/
def storeNodes (root : Node) : List Node :=
  (root.children.flatMap TopLevel.nodesOf).filter isStoreNode

lemma storeClasses_append (ds ds' : List TopLevel) :
    storeClasses (ds ++ ds') = storeClasses ds ++ storeClasses ds' := List.filterMap_append

lemma storeClasses_declared (exported : Bool) (ns : List Node) :
    storeClasses ((ns.filterMap Declaration.ofNode?).map (TopLevel.mk exported)) =
      (ns.filter isStoreNode).map ClassDeclaration.ofNode := by
  rw [storeClasses, List.map_filterMap, List.filterMap_filterMap, ← List.filterMap_eq_filter,
    List.map_filterMap]
  -- what is left is one node: only a class declaration can become a store class
  refine List.filterMap_congr fun n _ => ?_
  by_cases hkind : n.kind = .classDeclaration
  · have hnode : Declaration.ofNode? n = some (.classes (.ofNode n)) := by
      rw [Declaration.ofNode?, hkind]
    have hstore : isStoreNode n = (ClassDeclaration.ofNode n).isStore := by
      simp [isStoreNode, hkind]
    rw [hnode, Option.guard, hstore]
    cases hn : (ClassDeclaration.ofNode n).isStore <;> simp [hn]
  · have hnot : isStoreNode n = false := by simp [isStoreNode, hkind]
    unfold Declaration.ofNode?
    split
    · contradiction
    all_goals simp [Option.guard, hnot]

/-- The store classes of a source are those that its nodes declare. -/
lemma storeClasses_ofRoot (root : Node) :
    storeClasses (TopLevel.ofRoot root) = (storeNodes root).map ClassDeclaration.ofNode := by
  rw [TopLevel.ofRoot_eq, storeNodes]
  induction root.children with
  | nil => rfl
  | cons statement rest ih =>
    rw [List.flatMap_cons, List.flatMap_cons, storeClasses_append, storeClasses_declared, ih,
      List.filter_append, List.map_append]

lemma name_ne_empty_of_sameLetters {name : String} (h : Text.sameLetters name "store" = true) :
    name ≠ "" := by
  rintro rfl
  revert h
  decide +kernel

/-- Of two store classes of a source one ends before the other begins, and each has some text. -/
theorem placed_storeClasses (root : Node) :
    ((storeClasses (TopLevel.ofRoot root)).Pairwise fun c d => c.span.Before d.span) ∧
      ∀ c ∈ storeClasses (TopLevel.ofRoot root), c.span.start < c.span.stop := by
  rw [storeClasses_ofRoot]
  refine ⟨List.pairwise_map.2 ((TopLevel.pairwise_nodesOf root).filter _), ?_⟩
  intro c hc
  obtain ⟨n, hn, rfl⟩ := List.mem_map.1 hc
  have hstore := (List.mem_filter.1 hn).2
  rw [isStoreNode, Bool.and_eq_true, ClassDeclaration.isStore, List.any_eq_true] at hstore
  obtain ⟨-, name, hfactory, hname⟩ := hstore
  exact ClassDeclaration.start_lt_stop hfactory (name_ne_empty_of_sameLetters hname)

/-- A store class is told by its span. -/
lemma nodup_spans (root : Node) :
    ((storeClasses (TopLevel.ofRoot root)).map ClassDeclaration.span).Nodup := by
  obtain ⟨hbefore, htext⟩ := placed_storeClasses root
  -- with one span for both, the first class would end where it begins
  refine List.pairwise_map.2 (hbefore.imp_of_mem ?_)
  intro c d hc _ hspans heq
  have := htext c hc
  rw [Syntax.Span.Before, ← heq] at hspans
  omega

/-- The members of a store class lie inside it. -/
lemma within_of_mem_storeClasses {root : Node} {c : ClassDeclaration} {m : Syntax.Member}
    (hc : c ∈ storeClasses (TopLevel.ofRoot root)) (hm : m ∈ c.members) : m.span.Within c.span := by
  rw [storeClasses_ofRoot] at hc
  obtain ⟨n, -, rfl⟩ := List.mem_map.1 hc
  exact ClassDeclaration.within_of_mem_members hm

end Store.Extraction

namespace Store

/-! ## What a store lacks -/

/-- An exported constant holds a new instance of the class of a given name, and nothing else is
declared with it. -/
def ExportsInstance (ds : List TopLevel) (className : String) : Prop :=
  ∃ g v, TopLevel.mk true (.group g) ∈ ds ∧ g.isLexical = true ∧ g.isConst = true ∧
    g.declared = [v] ∧ v.name.isSome = true ∧ v.constructs = some (some className)

/-- Whether a message reports a problem as an error at a stretch of a source. -/
def reports (p : Problem) (span : Span) (m : Message) : Bool :=
  m.severity = .error ∧ m.parts = p.parts ∧ m.span = some span

/-- A store class with its store: what the store lacks makes it invalid, and it is reported. -/
structure IsAccounted (ds : List TopLevel) (diagnostics : Diagnostics) (c : ClassDeclaration)
    (m : Metadata) : Prop where
  invalid : m.isValid = false ↔
    ¬ExportsInstance ds c.name ∨ ¬∃ member ∈ c.members, IsStateGetter member
  /-- A store that is left out has an error inside of its class. -/
  explained : m.isValid = false → ∃ message ∈ diagnostics, message.severity = .error ∧
    ∃ span, message.span = some span ∧ span.Within c.span
  unexported : ¬ExportsInstance ds c.name →
    diagnostics.countP (reports (.exportMissing c.name) c.span) = 1
  stateless : (¬∃ member ∈ c.members, IsStateGetter member ∨ IsStateMisfit member) →
    diagnostics.countP (reports (.stateMissing c.name) c.span) = 1
  /-- What there is is not missed. -/
  exported : ExportsInstance ds c.name →
    diagnostics.countP (reports (.exportMissing c.name) c.span) = 0
  stateful : (∃ member ∈ c.members, IsStateGetter member ∨ IsStateMisfit member) →
    diagnostics.countP (reports (.stateMissing c.name) c.span) = 0
  valid : m.isValid = true →
    diagnostics.countP (reports (.exportMissing c.name) c.span) = 0 ∧
      diagnostics.countP (reports (.stateMissing c.name) c.span) = 0

lemma instance?_eq_some_iff {g : Syntax.VariableGroup} {i : Instance} :
    g.instance? = some i ↔ (g.isLexical = true ∧ g.isConst = true) ∧
      ∃ v, g.declared = [v] ∧ v.name = some i.name ∧ v.constructs = some i.className := by
  obtain ⟨name, className⟩ := i
  rw [Syntax.VariableGroup.instance?, ← Bool.and_eq_true]
  split
  · next hconst =>
    rw [and_iff_right hconst]
    match g.declared with
    | [] => simp
    | [v] => cases hname : v.name <;> cases hconstructs : v.constructs <;> simp [hname, hconstructs]
    | _ :: _ :: _ => simp
  · next hconst => simp [hconst]

lemma exportsInstance_iff {ds : List TopLevel} {className : String} :
    ExportsInstance ds className ↔
      ∃ i ∈ Extraction.instances ds, i.className = some className := by
  simp only [Extraction.instances, List.mem_filterMap]
  constructor
  · rintro ⟨g, v, hg, hlexical, hconst, hdeclared, hname, hconstructs⟩
    obtain ⟨name, hname⟩ := Option.isSome_iff_exists.1 hname
    exact ⟨⟨name, some className⟩, ⟨_, hg, instance?_eq_some_iff.2
      ⟨⟨hlexical, hconst⟩, v, hdeclared, hname, hconstructs⟩⟩, rfl⟩
  · rintro ⟨i, ⟨⟨exported, declaration⟩, hd, hi⟩, hclass⟩
    dsimp only at hi
    split at hi
    · next g =>
      obtain ⟨⟨hlexical, hconst⟩, v, hdeclared, hname, hconstructs⟩ := instance?_eq_some_iff.1 hi
      exact ⟨g, v, hd, hlexical, hconst, hdeclared, by rw [hname]; rfl,
        by rw [hconstructs, hclass]⟩
    · cases hi

namespace Extraction

variable (ix : DecoratorIndex) (dirs : Directories) (file : Path) (c : ClassDeclaration)

lemma exportName_storeOf (ds : List TopLevel) :
    (storeOf ix dirs file (instances ds) c).exportName.isSome = true ↔
      ExportsInstance ds c.name := by
  rw [storeOf_eq, exportsInstance_iff]
  simp

lemma stateGetter_storeOf (is : List Instance) :
    (storeOf ix dirs file is c).stateGetter.isSome = true ↔
      ∃ member ∈ c.members, IsStateGetter member := by
  rw [storeOf_eq]
  exact stateGetter_addMembers.trans (by simp [Metadata.beginClass, Metadata.ofFile])

lemma stateRejected_storeOf (is : List Instance) :
    (storeOf ix dirs file is c).stateRejected = true ↔
      ∃ member ∈ c.members, IsStateMisfit member := by
  rw [storeOf_eq]
  exact stateRejected_addMembers.trans (by simp [Metadata.beginClass, Metadata.ofFile])

/-- A store is valid exactly if it lacks neither its export nor its state. -/
lemma isValid_storeOf (ds : List TopLevel) :
    (storeOf ix dirs file (instances ds) c).isValid = true ↔
      ExportsInstance ds c.name ∧ ∃ member ∈ c.members, IsStateGetter member := by
  rw [Metadata.isValid, className_storeOf, Bool.and_eq_true, Bool.and_eq_true, exportName_storeOf,
    stateGetter_storeOf]
  simp

/-- The export is missed exactly if there is none. -/
lemma isNone_exportName_iff (ds : List TopLevel) :
    (storeOf ix dirs file (instances ds) c).exportName.isNone = true ↔
      ¬ExportsInstance ds c.name := by
  rw [← exportName_storeOf ix dirs file c ds, ← Option.not_isSome, Bool.not_eq_true',
    Bool.not_eq_true]

/-- The state is missed exactly if no member is its getter or should have been. -/
lemma lacksState_iff (is : List Instance) :
    ((storeOf ix dirs file is c).stateGetter.isNone &&
        !(storeOf ix dirs file is c).stateRejected) = true ↔
      ¬∃ member ∈ c.members, IsStateGetter member ∨ IsStateMisfit member := by
  have hsplit : (∃ member ∈ c.members, IsStateGetter member ∨ IsStateMisfit member) ↔
      (storeOf ix dirs file is c).stateGetter.isSome = true ∨
        (storeOf ix dirs file is c).stateRejected = true := by
    rw [stateGetter_storeOf, stateRejected_storeOf]
    simp only [and_or_left, exists_or]
  rw [hsplit, not_or, Bool.and_eq_true, Bool.not_eq_true', Bool.not_eq_true, ← Option.not_isSome,
    Bool.not_eq_true', Bool.not_eq_true]

end Extraction

/-! ## Counting messages -/

/-- What members are blamed for is said in at most two lines and examples, and what a class lacks in
three. -/
lemma length_parts_of_isOfMember {p : Problem} (h : IsOfMember p) : p.parts.length ≤ 2 := by
  cases p <;> first | exact h.elim | simp [Problem.parts]

lemma length_parts_of_not_isOfMember {p : Problem} (h : ¬IsOfMember p) : p.parts.length = 3 := by
  cases p <;> first | rfl | exact absurd trivial h

lemma exportMissing_ne_stateMissing (name name' : String) :
    (Problem.exportMissing name).parts ≠ (Problem.stateMissing name').parts := by
  simp [Problem.parts]

namespace Extraction

variable (ix : DecoratorIndex) (dirs : Directories) (file : Path) (is : List Instance)
  (subject : Report.Subject)

/-- What a class lacks is no finding about a member. -/
lemma countP_findingsOf {p : Problem} (hp : ¬IsOfMember p) (span : Span) (c : ClassDeclaration) :
    ((findingsOf ix dirs file c).map (Finding.message subject)).countP (reports p span) = 0 := by
  rw [List.countP_eq_zero]
  intro m hm hreports
  obtain ⟨f, hf, rfl⟩ := List.mem_map.1 hm
  have hparts : f.problem.parts = p.parts := (of_decide_eq_true hreports).2.1
  have hmember := length_parts_of_isOfMember (exists_member_of_mem_addMembers hf).1
  rw [hparts, length_parts_of_not_isOfMember hp] at hmember
  omega

/-- The messages about another class are placed elsewhere. -/
lemma countP_messagesOf {p : Problem} (hp : ¬IsOfMember p) {span : Span} {c : ClassDeclaration}
    (h : c.span ≠ span) :
    (messagesOf ix dirs file is subject c).countP (reports p span) = 0 := by
  rw [messagesOf, List.countP_append, countP_findingsOf ix dirs file subject hp, Nat.zero_add,
    List.countP_eq_zero]
  intro m hm hreports
  obtain ⟨q, -, rfl⟩ := List.mem_map.1 hm
  exact h (Option.some.inj (of_decide_eq_true hreports).2.2)

/-- Of all messages about a source, those that report at a class what it lacks are about that
class. -/
lemma countP_flatMap_messagesOf {p : Problem} (hp : ¬IsOfMember p) {cs : List ClassDeclaration}
    (hspans : (cs.map ClassDeclaration.span).Nodup) {c : ClassDeclaration} (hc : c ∈ cs) :
    (cs.flatMap (messagesOf ix dirs file is subject)).countP (reports p c.span) =
      (((storeOf ix dirs file is c).lacks c.name).map (problemAt subject c.span)).countP
        (reports p c.span) := by
  -- the class is met once, and all classes before and after it are elsewhere
  induction cs with
  | nil => cases hc
  | cons c' cs ih =>
    obtain ⟨hnew, hrest⟩ := List.nodup_cons.1 hspans
    rw [List.flatMap_cons, List.countP_append]
    rcases List.mem_cons.1 hc with rfl | hc
    · have hothers : (cs.flatMap (messagesOf ix dirs file is subject)).countP
          (reports p c.span) = 0 := by
        rw [List.countP_eq_zero]
        intro m hm
        obtain ⟨d, hd, hm⟩ := List.mem_flatMap.1 hm
        have hne : d.span ≠ c.span := fun h => hnew (h ▸ List.mem_map_of_mem hd)
        exact List.countP_eq_zero.1 (countP_messagesOf ix dirs file is subject hp hne) m hm
      rw [hothers, Nat.add_zero, messagesOf, List.countP_append,
        countP_findingsOf ix dirs file subject hp, Nat.zero_add]
    · have hne : c'.span ≠ c.span := fun h => hnew (h ▸ List.mem_map_of_mem hc)
      rw [countP_messagesOf ix dirs file is subject hp hne, Nat.zero_add, ih hrest hc]

/-- What a store lacks is reported once, and what it has is not missed. -/
lemma countP_lacks (m : Metadata) (c : ClassDeclaration) :
    ((m.lacks c.name).map (problemAt subject c.span)).countP
        (reports (.exportMissing c.name) c.span) = (if m.exportName.isNone then 1 else 0) ∧
      ((m.lacks c.name).map (problemAt subject c.span)).countP
        (reports (.stateMissing c.name) c.span) =
          if m.stateGetter.isNone && !m.stateRejected then 1 else 0 := by
  have hne := exportMissing_ne_stateMissing c.name c.name
  have hreports : ∀ p q : Problem, reports p c.span (problemAt subject c.span q) =
      decide (q.severity = .error ∧ q.parts = p.parts) := by
    intro p q
    simp [reports, problemAt, Report.Subject.message]
  unfold Metadata.lacks
  split <;> split <;>
    simp [hreports, hne, hne.symm, Problem.severity]

end Extraction

/-! ## One class -/

/-- A problem that is reported at a class is an error inside of it. -/
lemma exists_error_of_countP {p : Problem} {span : Span} {diagnostics : Diagnostics}
    (h : diagnostics.countP (reports p span) = 1) : ∃ message ∈ diagnostics,
      message.severity = .error ∧ ∃ s, message.span = some s ∧ s.Within span := by
  have hpos : 0 < diagnostics.countP (reports p span) := by rw [h]; exact Nat.one_pos
  obtain ⟨message, hmessage, hreports⟩ := List.countP_pos_iff.1 hpos
  obtain ⟨hseverity, -, hspan⟩ := of_decide_eq_true hreports
  exact ⟨message, hmessage, hseverity, span, hspan, .refl span⟩

section

variable {ix : DecoratorIndex} {dirs : Directories} {file : Path} {is : List Instance}
  {subject : Report.Subject} {c : ClassDeclaration}

/-- A member that should have been the state getter is reported as an error at its place. -/
lemma exists_error_of_mem_members {member : Member} (hmember : member ∈ c.members)
    (hmisfit : IsStateMisfit member) : ∃ message ∈ Extraction.messagesOf ix dirs file is subject c,
      message.severity = .error ∧ message.span = some member.span := by
  obtain ⟨f, hf, hplace, hseverity⟩ := exists_error_of_misfit ix c.name c.members
    ((Metadata.ofFile dirs file).beginClass c.name c.span) hmember hmisfit
  refine ⟨f.message subject, List.mem_append_left _ (List.mem_map_of_mem hf), ?_, ?_⟩
  · show f.severity = .error
    rw [Finding.severity, hplace, hseverity]
  · show some f.place.span = some member.span
    rw [hplace, Place.span]

/-- Among declarations whose store classes are told by their spans, and hold their members, each
store class is accounted for. -/
lemma isAccounted_storeOf {ds : List TopLevel}
    (hspans : ((Extraction.storeClasses ds).map ClassDeclaration.span).Nodup)
    (hc : c ∈ Extraction.storeClasses ds) (hwithin : ∀ m ∈ c.members, m.span.Within c.span) :
    IsAccounted ds
      ((Extraction.storeClasses ds).flatMap
        (Extraction.messagesOf ix dirs file (Extraction.instances ds) subject))
      c (Extraction.storeOf ix dirs file (Extraction.instances ds) c) := by
  have hcount := fun {p} (hp : ¬IsOfMember p) => Extraction.countP_flatMap_messagesOf ix dirs file
    (Extraction.instances ds) subject hp hspans hc
  obtain ⟨hexport, hstate⟩ := Extraction.countP_lacks subject
    (Extraction.storeOf ix dirs file (Extraction.instances ds) c) c
  rw [← hcount id] at hexport hstate
  have hmissed := Extraction.isNone_exportName_iff ix dirs file c ds
  have hlacked := Extraction.lacksState_iff ix dirs file c (Extraction.instances ds)
  have hvalid := Extraction.isValid_storeOf ix dirs file c ds
  have hinvalid : (Extraction.storeOf ix dirs file (Extraction.instances ds) c).isValid = false ↔
      ¬ExportsInstance ds c.name ∨ ¬∃ member ∈ c.members, IsStateGetter member := by
    rw [← Bool.not_eq_true, hvalid, not_and_or]
  refine
    { invalid := hinvalid
      unexported := fun h => hexport.trans (if_pos (hmissed.2 h))
      stateless := fun h => hstate.trans (if_pos (hlacked.2 h))
      exported := fun h => hexport.trans (if_neg fun hnone => hmissed.1 hnone h)
      stateful := fun h => hstate.trans (if_neg fun hnone => hlacked.1 hnone h)
      explained := ?_
      valid := ?_ }
  · intro h
    rcases hinvalid.1 h with hexports | hgetter
    · exact exists_error_of_countP (hexport.trans (if_pos (hmissed.2 hexports)))
    · -- the lack of a getter is reported at the class or at the member that should have been one
      by_cases hmisfit : ∃ member ∈ c.members, IsStateMisfit member
      · obtain ⟨member, hmember, hmisfit⟩ := hmisfit
        obtain ⟨message, hmessage, hseverity, hspan⟩ :=
          exists_error_of_mem_members hmember hmisfit
        exact ⟨message, List.mem_flatMap.2 ⟨c, hc, hmessage⟩, hseverity, member.span, hspan,
          hwithin member hmember⟩
      · refine exists_error_of_countP (hstate.trans (if_pos (hlacked.2 ?_)))
        rintro ⟨member, hmember, hstate | hstate⟩
        · exact hgetter ⟨member, hmember, hstate⟩
        · exact hmisfit ⟨member, hmember, hstate⟩
  · intro h
    obtain ⟨hexports, member, hmember, hgetter⟩ := hvalid.1 h
    exact ⟨hexport.trans (if_neg fun hnone => hmissed.1 hnone hexports),
      hstate.trans (if_neg fun hnone => hlacked.1 hnone ⟨member, hmember, .inl hgetter⟩)⟩

end

/-- No store class of a module is left out without an error inside of it, and what a store lacks is
reported once at its class. -/
theorem accounted_of_ofModule (ix : DecoratorIndex) (dirs : Directories) (module : Syntax.Module) :
    List.Forall₂
      (IsAccounted (TopLevel.ofRoot module.root) (Extraction.ofModule ix dirs module).diagnostics)
      (Extraction.storeClasses (TopLevel.ofRoot module.root))
      (Extraction.ofModule ix dirs module).stores := by
  rw [Extraction.stores_ofModule, Extraction.messages_ofModule, List.forall₂_map_right_iff,
    List.forall₂_same]
  intro c hc
  exact isAccounted_storeOf (Extraction.nodup_spans module.root) hc fun m hm =>
    Extraction.within_of_mem_storeClasses hc hm

end Store

end StoreBindings
