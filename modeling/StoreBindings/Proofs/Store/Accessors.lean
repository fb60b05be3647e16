import StoreBindings.Proofs.Store.Matching
import StoreBindings.Proofs.Store.Validity
import StoreBindings.Proofs.Syntax.Bodies

/-!
# Getters, setters and computed properties

A class may declare several getters of one name. The store keeps what the last of them says, while a
setter asks the first of them whether its property is computed. So the getter and the setter of a
store agree exactly if these two do: `computed_eq_iff`.
-/

namespace StoreBindings

namespace OrderedMap

variable {κ α : Type} [DecidableEq κ]

lemma insertAll_append (m : OrderedMap κ α) (es es' : List (κ × α)) :
    m.insertAll (es ++ es') = (m.insertAll es).insertAll es' := List.foldl_append

/-- In a map of what is read off a list, a key has the value that is read off its last owner. -/
lemma get?_ofList_filterMap {β : Type} (f : β → Option (κ × α)) (l : List β) (k : κ) :
    (ofList (l.filterMap f)).get? k =
      ((l.filter fun b => (f b).any fun e => e.1 = k).getLast?.bind f).map Prod.snd := by
  rw [get?_ofList, ← List.filterMap_reverse, List.find?_filterMap, List.getLast?_filter]

end OrderedMap

namespace Store

open Syntax (Member ClassDeclaration Node)

/-! ## What accessors add -/

/-- The entry that a getter adds to the properties of a store; that of the state adds none. -/
def getterOf? (m : Member) : Option (String × Property) :=
  if m.accessor = some .getter then
    m.identifier?.bind fun name =>
      if name = "state" then none else some (name, ⟨name, m.hasDecorator computedDecorator⟩)
  else none

/-- The entry that a setter adds, given all members of its class. -/
def setterOf? (all : List Member) (m : Member) : Option (String × Property) :=
  if m.accessor = some .setter then
    match m.name with
    | .plain name => some (name, ⟨name, isComputed all name⟩)
    | other => if other.text.isEmpty then none else some (other.text, ⟨other.text, false⟩)
  else none

lemma addGetter_eq (m : Metadata) {getter : Member} (h : getter.accessor = some .getter) :
    addGetter m getter =
      { m with getters := m.getters.insertAll (getterOf? getter).toList } := by
  unfold addGetter getterOf?
  rw [if_pos h]
  cases getter.identifier? with
  | none => rfl
  | some name =>
    rw [Option.bind_some]
    dsimp only
    split <;> rfl

lemma addSetter_eq (className : String) (all : List Member) (m : Metadata) {setter : Member}
    (h : setter.accessor = some .setter) : (addSetter className all m setter).1 =
      { m with setters := m.setters.insertAll (setterOf? all setter).toList } := by
  unfold addSetter setterOf?
  rw [if_pos h]
  cases setter.name with
  | plain name => rfl
  | hidden name | computed name =>
    dsimp only
    split <;> rfl

lemma getterOf?_of_accessor {m : Member} (h : m.accessor ≠ some .getter) :
    getterOf? m = none := if_neg h

lemma setterOf?_of_accessor {m : Member} (all : List Member) (h : m.accessor ≠ some .setter) :
    setterOf? all m = none := if_neg h

lemma getterOf?_of_state {m : Member} (h : m.identifier? = some "state") :
    getterOf? m = none := by
  unfold getterOf?
  split
  · rw [h]
    rfl
  · rfl

/-! ## All members -/

section members

variable (ix : DecoratorIndex) (className : String) (all : List Member)

/-- Every accessor adds its entry, and no other member adds one. -/
lemma properties_addMember (m : Metadata) {member : Member}
    (hkind : member.accessor ≠ none → member.kind = .method) :
    (addMember ix className all m member).1.getters =
        m.getters.insertAll (getterOf? member).toList ∧
      (addMember ix className all m member).1.setters =
        m.setters.insertAll (setterOf? all member).toList := by
  -- a getter or a setter is recorded only for a member with that accessor, and the state has none
  have hneither : member.accessor = none →
      getterOf? member = none ∧ setterOf? all member = none :=
    fun h => ⟨getterOf?_of_accessor (by simp [h]), setterOf?_of_accessor all (by simp [h])⟩
  have hstate : member.identifier? = some "state" → member.accessor ≠ some .setter →
      getterOf? member = none ∧ setterOf? all member = none :=
    fun h h' => ⟨getterOf?_of_state h, setterOf?_of_accessor all h'⟩
  have hstep := step_addMember ix className all m member
  generalize addMember ix className all m member = result at hstep ⊢
  -- only the last steps touch the accessors, and each of them touches one kind
  cases hstep with
  | binding binding hfield hname =>
    have hnone : member.accessor = none := Decidable.byContradiction fun h => by
      rw [hkind h] at hfield
      cases hfield
    rw [(hneither hnone).1, (hneither hnone).2]
    exact ⟨rfl, rfl⟩
  | method x hname _ _ hadd _ =>
    obtain ⟨hgetter, hsetter⟩ := hneither (accessor_of_actionName? hname)
    rw [hgetter, hsetter]
    rcases hadd with ⟨e, rfl⟩ | rfl
    · rw [Metadata.offer_eq]
      split <;> exact ⟨rfl, rfl⟩
    · exact ⟨rfl, rfl⟩
  | state keys hgetter hkeys =>
    obtain ⟨hget, hset⟩ := hstate hgetter.1 (by simp [hgetter.2.2.1])
    rw [hget, hset]
    unfold addState
    split <;> exact ⟨rfl, rfl⟩
  | misfit problem hmisfit hproblem =>
    obtain ⟨hget, hset⟩ := hstate hmisfit.1 fun h =>
      hmisfit.2.2.1 ⟨hkind (by simp [h]), h⟩
    rw [hget, hset]
    exact ⟨rfl, rfl⟩
  | getter haccessor =>
    rw [addGetter_eq m haccessor, setterOf?_of_accessor all (by simp [haccessor])]
    exact ⟨rfl, rfl⟩
  | setter haccessor =>
    rw [addSetter_eq className all m haccessor, getterOf?_of_accessor (by simp [haccessor])]
    exact ⟨rfl, rfl⟩
  | nothing haccessor =>
    rw [(hneither haccessor).1, (hneither haccessor).2]
    exact ⟨rfl, rfl⟩

lemma properties_addMembers (m : Metadata) {members : List Member}
    (hkind : ∀ member ∈ members, member.accessor ≠ none → member.kind = .method) :
    (addMembers ix className all m members).1.getters =
        m.getters.insertAll (members.filterMap getterOf?) ∧
      (addMembers ix className all m members).1.setters =
        m.setters.insertAll (members.filterMap (setterOf? all)) := by
  induction members generalizing m with
  | nil => exact ⟨rfl, rfl⟩
  | cons member rest ih =>
    obtain ⟨hgetters, hsetters⟩ :=
      properties_addMember ix className all m (hkind member List.mem_cons_self)
    obtain ⟨hgetters', hsetters'⟩ :=
      ih (addMember ix className all m member).1 fun m hm => hkind m (List.mem_cons_of_mem _ hm)
    rw [addMembers]
    dsimp only
    rw [hgetters', hsetters', hgetters, hsetters, ← OrderedMap.insertAll_append,
      ← OrderedMap.insertAll_append]
    simp only [List.filterMap_cons]
    constructor
    · cases getterOf? member <;> rfl
    · cases setterOf? all member <;> rfl

end members

/-! ## Which accessor counts -/

/-- The getters of a class that have a given name, in the order in which they are declared. -/
def gettersNamed (c : ClassDeclaration) (name : String) : List Member :=
  c.members.filter fun m => m.accessor == some .getter && m.identifier? == some name

/-- The setters of a class whose name reads as given, in the order in which they are declared; the
name may be an expression, but it is not missing. -/
def settersNamed (c : ClassDeclaration) (name : String) : List Member :=
  c.members.filter fun m =>
    m.accessor = some .setter ∧ (m.name = .plain name ∨ m.name.text = name ∧ name ≠ "")

lemma any_getterOf? (m : Member) {name : String} (hstate : name ≠ "state") :
    (getterOf? m).any (fun e => e.1 = name) =
      (m.accessor == some .getter && m.identifier? == some name) := by
  unfold getterOf?
  by_cases haccessor : m.accessor = some .getter
  · rw [if_pos haccessor, haccessor, beq_self_eq_true, Bool.true_and]
    cases m.identifier? with
    | none => rfl
    | some name' =>
      by_cases hname : name' = name
      · simp [hname, hstate]
      · by_cases hstate' : name' = "state"
        · subst hstate'
          simp [hname]
        · simp [hname, hstate']
  · rw [if_neg haccessor, beq_eq_false_iff_ne.2 haccessor]
    rfl

lemma any_setterOf? (all : List Member) (m : Member) (name : String) :
    (setterOf? all m).any (fun e => e.1 = name) =
      decide (m.accessor = some .setter ∧
        (m.name = .plain name ∨ m.name.text = name ∧ name ≠ "")) := by
  unfold setterOf?
  by_cases haccessor : m.accessor = some .setter
  · rw [if_pos haccessor]
    cases m.name with
    | plain name' => simp +contextual [haccessor, Syntax.MemberName.text]
    | hidden name' | computed name' =>
      dsimp only [Syntax.MemberName.text]
      by_cases hempty : name' = ""
      · subst hempty
        simp +contextual [haccessor]
      · by_cases hname : name' = name
        · subst hname
          simp [haccessor, hempty]
        · simp [haccessor, hempty, hname]
  · simp [haccessor]

section properties

variable {ix : DecoratorIndex} {dirs : Directories} {file : Path} {is : List Syntax.Instance}
  {n : Node} {name : String}

lemma properties_storeOf :
    (Extraction.storeOf ix dirs file is (.ofNode n)).getters =
        .ofList ((ClassDeclaration.ofNode n).members.filterMap getterOf?) ∧
      (Extraction.storeOf ix dirs file is (.ofNode n)).setters =
        .ofList ((ClassDeclaration.ofNode n).members.filterMap
          (setterOf? (ClassDeclaration.ofNode n).members)) := by
  rw [Extraction.storeOf_eq]
  exact properties_addMembers ix _ _ _ fun m hm => ClassDeclaration.kind_of_accessor hm

/-- A store keeps what the last getter of a name says. -/
lemma exists_getter {g : Property}
    (h : (Extraction.storeOf ix dirs file is (.ofNode n)).getters.get? name = some g) :
    ∃ last, (gettersNamed (.ofNode n) name).getLast? = some last ∧
      g = ⟨name, last.hasDecorator computedDecorator⟩ := by
  rw [properties_storeOf.1, OrderedMap.get?_ofList_filterMap] at h
  obtain ⟨e, he, rfl⟩ := Option.map_eq_some_iff.1 h
  obtain ⟨last, hlast, he⟩ := Option.bind_eq_some_iff.1 he
  have hname := (List.mem_filter.1 (List.mem_of_getLast? hlast)).2
  rw [he] at hname
  have hentry := he
  -- the state is never recorded as a getter, so the last one of that name is the one that counts
  unfold getterOf? at hentry
  split at hentry
  · obtain ⟨name', hname', hentry⟩ := Option.bind_eq_some_iff.1 hentry
    split at hentry
    · cases hentry
    · next hstate =>
      cases hentry
      have heq : name' = name := by simpa using hname
      subst heq
      refine ⟨last, ?_, rfl⟩
      rw [gettersNamed, ← hlast]
      congr 1
      exact List.filter_congr fun m _ => (any_getterOf? m hstate).symm
  · cases hentry

/-- A store keeps what the last setter of a name says. -/
lemma exists_setter {s : Property}
    (h : (Extraction.storeOf ix dirs file is (.ofNode n)).setters.get? name = some s) :
    ∃ last, (settersNamed (.ofNode n) name).getLast? = some last ∧
      s = ⟨name, decide (last.name = .plain name) &&
        isComputed (ClassDeclaration.ofNode n).members name⟩ := by
  rw [properties_storeOf.2, OrderedMap.get?_ofList_filterMap] at h
  obtain ⟨e, he, rfl⟩ := Option.map_eq_some_iff.1 h
  obtain ⟨last, hlast, he⟩ := Option.bind_eq_some_iff.1 he
  have hname := (List.mem_filter.1 (List.mem_of_getLast? hlast)).2
  rw [he] at hname
  refine ⟨last, ?_, ?_⟩
  · rw [settersNamed, ← hlast]
    congr 1
    exact List.filter_congr fun m _ => (any_setterOf? _ m name).symm
  · unfold setterOf? at he
    split at he
    · split at he
      · next name' hplain =>
        cases he
        have heq : name' = name := by simpa using hname
        simp [hplain, heq]
      · next hplain =>
        split at he
        · cases he
        · cases he
          have heq : last.name.text = name := by simpa using hname
          have hnot : last.name ≠ .plain name := hplain name
          simp [heq, hnot]
    · cases he

/-- Whether a property is computed is asked of the first getter that has its name. -/
lemma isComputed_eq (c : ClassDeclaration) (name : String) :
    isComputed c.members name =
      (((gettersNamed c name).head?.map (Member.hasDecorator computedDecorator)).getD false) := by
  rw [isComputed, gettersNamed, List.head?_filter]
  cases c.members.find? fun g => g.accessor == some .getter && g.identifier? == some name <;> rfl

end properties

/-- A name that is both that of a getter and that of a setter: the store takes down what the last
getter says, and for a setter that is named by an identifier what the first getter says. So they agree
on whether the property is computed exactly if the first and the last getter do; a setter whose name
is no identifier is never taken for computed. -/
theorem computed_eq_iff (ix : DecoratorIndex) (dirs : Directories) (file : Path)
    (is : List Syntax.Instance) (n : Node) {name : String} {g s : Property}
    (hg : (Extraction.storeOf ix dirs file is (.ofNode n)).getters.get? name = some g)
    (hs : (Extraction.storeOf ix dirs file is (.ofNode n)).setters.get? name = some s) :
    ∃ first last setter, (gettersNamed (.ofNode n) name).head? = some first ∧
      (gettersNamed (.ofNode n) name).getLast? = some last ∧
      (settersNamed (.ofNode n) name).getLast? = some setter ∧
      g = ⟨name, last.hasDecorator computedDecorator⟩ ∧
      (setter.name = .plain name →
        s = ⟨name, first.hasDecorator computedDecorator⟩ ∧
          (g.computed = s.computed ↔
            last.hasDecorator computedDecorator = first.hasDecorator computedDecorator)) ∧
      (setter.name ≠ .plain name → s = ⟨name, false⟩) := by
  obtain ⟨last, hlast, rfl⟩ := exists_getter hg
  obtain ⟨setter, hsetter, rfl⟩ := exists_setter hs
  obtain ⟨first, hfirst⟩ : ∃ first, (gettersNamed (.ofNode n) name).head? = some first := by
    cases hnamed : gettersNamed (.ofNode n) name with
    | nil => simp [hnamed] at hlast
    | cons first rest => exact ⟨first, rfl⟩
  refine ⟨first, last, setter, hfirst, hlast, hsetter, rfl, fun hplain => ?_, fun hplain => ?_⟩
  · simp [hplain, isComputed_eq, hfirst]
  · simp [hplain]

namespace Sample

/-- The nodes of the store classes in a text. -/
def storeNodes (text : String) : List Node := Extraction.storeNodes (module text).root

/-- What is made of the store class at a node, without its export. -/
def storeAt (n : Node) : Metadata := Extraction.storeOf .empty directories file [] (.ofNode n)

/-- A setter and the getter of its name, which is that of a computed property. -/
def mirrored : String := "class S extends Store()\x7bset x(v)\x7b\x7d@Computed()get x()\x7b\x7d\x7d"

/-- A static getter and one of instances that have a name in common. -/
def overloaded : String :=
  "class S extends Store()\x7b@Computed()static get x()\x7b\x7dget x()\x7b\x7dset x(v)\x7b\x7d\x7d"

end Sample

/-- A setter takes after the one getter of its name. -/
theorem computed_of_mirrored : ∃ n ∈ Sample.storeNodes Sample.mirrored, ∃ g s,
    (Sample.storeAt n).getters.get? "x" = some g ∧ (Sample.storeAt n).setters.get? "x" = some s ∧
      g.computed = true ∧ g.computed = s.computed := by
  have heval : ∃ n ∈ Sample.storeNodes Sample.mirrored,
      (∀ setter ∈ settersNamed (.ofNode n) "x", setter.name = .plain "x") ∧
      ((gettersNamed (.ofNode n) "x").head?.map (Member.hasDecorator computedDecorator)) =
        ((gettersNamed (.ofNode n) "x").getLast?.map (Member.hasDecorator computedDecorator)) ∧
      ∃ g ∈ ((Sample.storeAt n).getters.get? "x").toList,
      ∃ s ∈ ((Sample.storeAt n).setters.get? "x").toList, g.computed = true := by decide +kernel
  obtain ⟨n, hn, hplain, hagree, g, hg, s, hs, hcomputed⟩ := heval
  have hg := Option.mem_toList.1 hg
  have hs := Option.mem_toList.1 hs
  obtain ⟨first, last, setter, hfirst, hlast, hsetter, -, hiff, -⟩ :=
    computed_eq_iff .empty Sample.directories Sample.file [] n hg hs
  rw [hfirst, hlast] at hagree
  have hname := hplain setter (List.mem_of_getLast? hsetter)
  exact ⟨n, hn, g, s, hg, hs, hcomputed, (hiff hname).2.2 (Option.some.inj hagree).symm⟩

/-- A setter takes after the static getter of its name, and the store shows the getter of
instances. -/
theorem computed_of_overloaded : ∃ n ∈ Sample.storeNodes Sample.overloaded,
    (settersNamed (.ofNode n) "x").map Member.name = [.plain "x"] ∧
      ((Sample.storeAt n).getters.get? "x").map Property.computed = some false ∧
      ((Sample.storeAt n).setters.get? "x").map Property.computed = some true := by
  decide +kernel

end Store

end StoreBindings
