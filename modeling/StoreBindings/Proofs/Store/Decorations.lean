import StoreBindings.Proofs.Generate.Loader
import StoreBindings.Proofs.Generate.PropertyName
import StoreBindings.Proofs.Store.Matching

/-!
# The decorators of an action

An action keeps its decorators in a map by their names, and so does the loader. A method may carry
one decorator several times, and then the map holds the last one at the place of the first. So all
decorators are kept exactly if no name is repeated: `decorators_kept_iff`. The arguments of a
decorator are in the same way kept by the names of parameters: `arguments_kept_iff`.
-/

namespace StoreBindings.Store

open Generate (Value)
open Syntax (Member ClassDeclaration)

/-! ## Decorators of a signature -/

namespace Decoration

/-- The arguments of a decorator under their names, in the order in which they are written. -/
def placed (ix : DecoratorIndex) (file : Path) (d : Syntax.Decorator) : List (String × String) :=
  let declared := (ix.lookup (Syntax.Decorator.shortName (d.name.getD "")) file).getD []
  (d.arguments.getD []).mapIdx fun place a => (keyAt declared place, a)

/-- A decorator is recorded with all its arguments exactly if these have different names. -/
theorem arguments_kept_iff {ix : DecoratorIndex} {file : Path} {d : Syntax.Decorator}
    {e : Decoration} (h : ofSyntax? ix file d = some e) :
    e.arguments.entries = placed ix file d ↔ ((placed ix file d).map Prod.fst).Nodup := by
  obtain ⟨name, hname, rfl⟩ := Option.map_eq_some_iff.1 h
  rw [placed, hname]
  exact OrderedMap.entries_ofList_iff

/-- Exactly the decorators that have a name are recorded. -/
lemma map_name_ofMember (ix : DecoratorIndex) (file : Path) (member : Member) :
    (ofMember ix file member).map name = member.decorators.filterMap Syntax.Decorator.name := by
  rw [ofMember, List.map_filterMap]
  refine List.filterMap_congr fun d _ => ?_
  rw [ofSyntax?]
  cases d.name <;> rfl

end Decoration

/-! ## Where actions come from -/

/-- The methods of a class that have a given name. -/
def methodsNamed (c : ClassDeclaration) (name : String) : List Member :=
  c.members.filter fun member => actionName? member = some name

section actions

variable {ix : DecoratorIndex} {dirs : Directories} {file : Path} {is : List Syntax.Instance}
  {c : ClassDeclaration} {name : String} {a : Action}

/-- Every action of a store is a method of its class. -/
lemma exists_method_of_action
    (h : (Extraction.storeOf ix dirs file is c).actions.get? name = some a) :
    ∃ member ∈ c.members, actionName? member = some name ∧
      a = .make name (member.parameters.mapIdx Parameter.ofSyntax)
        (Decoration.ofMember ix file member) member.span := by
  rw [Extraction.storeOf_eq, (handsOut_addClass ix (Metadata.ofFile dirs file) c).actions] at h
  obtain ⟨⟨x, won⟩, hx, hpick⟩ := List.mem_filterMap.1 (OrderedMap.mem_of_get?_ofList h)
  have hclaimant := List.mem_map_of_mem (f := Prod.fst) hx
  rw [map_fst_outcomes] at hclaimant
  obtain ⟨member, hmember, hx⟩ := List.mem_filterMap.1 hclaimant
  obtain ⟨name', hname, rfl⟩ := Option.map_eq_some_iff.1 hx
  dsimp only at hpick
  split at hpick <;> cases hpick
  exact ⟨member, hmember, hname, rfl⟩

/-- An action whose name no other method has is made of the one that has it. -/
lemma action_of_sole {method : Member} (hsole : methodsNamed c name = [method])
    (h : (Extraction.storeOf ix dirs file is c).actions.get? name = some a) :
    a = .make name (method.parameters.mapIdx Parameter.ofSyntax)
      (Decoration.ofMember ix file method) method.span := by
  obtain ⟨member, hmember, hname, rfl⟩ := exists_method_of_action h
  have hnamed : member ∈ methodsNamed c name := List.mem_filter.2 ⟨hmember, by simpa using hname⟩
  rw [hsole, List.mem_singleton] at hnamed
  rw [hnamed]

end actions

/-! ## What the loader shows -/

/-- What is found below a key of an object that shows a map value by value. -/
lemma at?_object_map {α : Type} (m : OrderedMap String α) (f : String × α → Value) (key : String)
    (keys : List String) : (Value.object (m.entries.map fun e => (e.1, f e))).at? (key :: keys) =
      (m.get? key).bind fun v => (f (key, v)).at? keys := by
  rw [Value.at?, OrderedMap.get?]
  induction m.entries with
  | nil => rfl
  | cons e es ih =>
    obtain ⟨k, v⟩ := e
    rw [List.map_cons, OrderedMap.lookup]
    by_cases hk : k = key
    · rw [if_pos hk, List.find?_cons_of_pos (by simpa using hk), hk]
      rfl
    · rw [if_neg hk, List.find?_cons_of_neg (by simpa using hk), ih]

/-- The loader shows an action under its name. -/
lemma at?_action {m : Metadata} {name : String} {a : Action} (h : m.actions.get? name = some a) :
    m.toValue.at? ["actions", name] = some (.construct "StoreMetaActionData" [a.toValue]) := by
  have hactions : m.toValue.at? ["actions", name] =
      (Value.object (m.actions.entries.map fun e =>
        (e.1, .construct "StoreMetaActionData" [e.2.toValue]))).at? [name] := by
    rw [Metadata.toValue_eq]
    rfl
  rw [hactions, at?_object_map m.actions fun e => .construct "StoreMetaActionData" [e.2.toValue], h]
  rfl

/-- The loader shows the decorators of an action entry by entry. -/
lemma at?_decorators (a : Action) : a.toValue.at? ["d"] =
    some (.object (a.decorators.entries.map fun e => (e.1, e.2.toValue))) := by
  rw [Action.toValue_eq]
  rfl

/-! ## What is kept -/

/-- An action whose name no other method has keeps its decorators under their names: each name at
the place where it is first written, with the arguments that it has last. So there is one entry for
each decorator that has a name, in order, exactly if no name is repeated; and a decorator has all its
arguments exactly if their names differ. The loader shows the same entries. -/
theorem decorators_kept_iff (ix : DecoratorIndex) (dirs : Directories) (file : Path)
    (is : List Syntax.Instance) (c : ClassDeclaration) {method : Member} {name : String} {a : Action}
    (hsole : methodsNamed c name = [method])
    (ha : (Extraction.storeOf ix dirs file is c).actions.get? name = some a) :
    let written := Decoration.ofMember ix file method
    written.map Decoration.name = method.decorators.filterMap Syntax.Decorator.name ∧
      a.decorators.keys = (written.map Decoration.name).eraseDups ∧
      (∀ key, a.decorators.get? key = written.reverse.find? fun d => d.name = key) ∧
      (a.decorators.entries = written.map (fun d => (d.name, d)) ↔
        (written.map Decoration.name).Nodup) ∧
      (∀ d ∈ method.decorators, ∀ e, Decoration.ofSyntax? ix file d = some e →
        (e.arguments.entries = Decoration.placed ix file d ↔
          ((Decoration.placed ix file d).map Prod.fst).Nodup)) ∧
      (Extraction.storeOf ix dirs file is c).settle.toValue.at? ["actions", name] =
        some (.construct "StoreMetaActionData" [a.toValue]) ∧
      a.toValue.at? ["d"] =
        some (.object (a.decorators.entries.map fun e => (e.1, e.2.toValue))) := by
  intro written
  have hkeys : (written.map fun d => (d.name, d)).map Prod.fst = written.map Decoration.name := by
    rw [List.map_map]
    rfl
  have hmap : a.decorators = .ofList (written.map fun d => (d.name, d)) := by
    rw [action_of_sole hsole ha]
    rfl
  refine ⟨Decoration.map_name_ofMember ix file method, ?_, fun key => ?_, ?_,
    fun d _ e he => Decoration.arguments_kept_iff he, at?_action ha, at?_decorators a⟩
  · rw [hmap, OrderedMap.keys_ofList, hkeys]
  · rw [hmap, OrderedMap.get?_ofList, ← List.map_reverse, List.find?_map, Option.map_map]
    exact Option.map_id'
  · rw [hmap, OrderedMap.entries_ofList_iff, hkeys]

namespace Sample

/-- What is made of a store class, without its export. -/
def store (c : ClassDeclaration) : Metadata := Extraction.storeOf .empty directories file [] c

/-- A method with two decorators, one with arguments and one that is a property. -/
def decorated : String := "class S extends Store()\x7b@On('a',1)@Lib.Off a()\x7b\x7d\x7d"

/-- A method that carries one decorator twice. -/
def repeated : String := "class S extends Store()\x7b@On('a')@On('b')a()\x7b\x7d\x7d"

end Sample

/-- Two decorators of different names are both kept. -/
theorem kept_of_decorated : ∃ c ∈ Sample.classes Sample.decorated, ∃ method a,
    methodsNamed c "a" = [method] ∧ (Sample.store c).actions.get? "a" = some a ∧
      a.decorators.keys = ["On", "Lib.Off"] ∧
      a.decorators.entries = (Decoration.ofMember .empty Sample.file method).map
        fun d => (d.name, d) := by
  have heval : ∃ c ∈ Sample.classes Sample.decorated, (methodsNamed c "a").length = 1 ∧
      (∀ method ∈ methodsNamed c "a",
        ((Decoration.ofMember .empty Sample.file method).map Decoration.name).Nodup) ∧
      ∃ a ∈ ((Sample.store c).actions.get? "a").toList,
        a.decorators.keys = ["On", "Lib.Off"] := by decide +kernel
  obtain ⟨c, hc, hone, hnodup, a, ha, hkeys⟩ := heval
  obtain ⟨method, hsole⟩ := List.length_eq_one_iff.1 hone
  have ha : (Sample.store c).actions.get? "a" = some a := Option.mem_toList.1 ha
  obtain ⟨-, -, -, hentries, -⟩ := decorators_kept_iff .empty Sample.directories Sample.file [] c
    hsole ha
  have hmethod : method ∈ methodsNamed c "a" := by simp [hsole]
  exact ⟨c, hc, method, a, hsole, ha, hkeys, hentries.2 (hnodup method hmethod)⟩

/-- Of a decorator that is applied twice the first application is dropped. -/
theorem dropped_of_repeated : ∃ c ∈ Sample.classes Sample.repeated,
    (methodsNamed c "a").map (fun method => method.decorators.map fun d => (d.name, d.arguments)) =
      [[(some "On", some ["'a'"]), (some "On", some ["'b'"])]] ∧
    ((Sample.store c).actions.get? "a").map
        (fun a => a.decorators.entries.map fun e => (e.1, e.2.arguments.values)) =
      some [("On", ["'b'"])] := by
  decide +kernel

end StoreBindings.Store
