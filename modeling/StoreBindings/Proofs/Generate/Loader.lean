import Mathlib.Data.List.Forall2
import StoreBindings.Generate.Modules
import StoreBindings.Proofs.Generate.Value
import StoreBindings.Proofs.OrderedMap

/-!
# The loader shows all that is known

The text of the loader determines the runtime package and, store by store, everything that is said
of the valid stores: `loader_eq_iff`. So a store cannot change in any of these without a change of
the text. What the loader does not show are places in sources, and what is not part of the
generated code.

* `Action.ShowsAs`, `Metadata.ShowsAs` — actions and stores that agree in all that is shown.
* `toValue_eq_iff` — they are what is written as the same value, and values are determined by their
  texts.
-/

namespace StoreBindings

open Generate (Value)
open Generate.Value (Legible)

/-! ## Records -/

namespace Generate.Value

/-- Entries with different keys are a record as they are. -/
lemma record_eq {es : List (String × Value)} (h : (es.map Prod.fst).Nodup) :
    record es = object es := by
  rw [record, OrderedMap.entries_ofList h]

/-- The record of a map with its values written in some way. -/
lemma record_map {α : Type} (m : OrderedMap String α) (f : String × α → Value) :
    record (m.entries.map fun e => (e.1, f e)) = object (m.entries.map fun e => (e.1, f e)) := by
  refine record_eq ?_
  rw [List.map_map]
  exact m.distinct

/-- Maps are shown as one object if their entries are, key by key. -/
lemma object_map_inj {α : Type} {m n : OrderedMap String α} {f g : String × α → Value} :
    object (m.entries.map fun e => (e.1, f e)) = object (n.entries.map fun e => (e.1, g e)) ↔
      List.Forall₂ (fun e e' => e.1 = e'.1 ∧ f e = g e') m.entries n.entries := by
  rw [object.injEq, ← List.forall₂_eq_eq_eq, List.forall₂_map_left_iff, List.forall₂_map_right_iff]
  simp only [Prod.mk.injEq]

/-- Maps that are written as one object, value by value, are one map. -/
lemma object_map_inj_of {α : Type} {m n : OrderedMap String α} {f : String × α → Value}
    (hf : ∀ e e', f e = f e' ↔ e.2 = e'.2) :
    object (m.entries.map fun e => (e.1, f e)) = object (n.entries.map fun e => (e.1, f e)) ↔
      m = n := by
  have hrel : (fun e e' : String × α => e.1 = e'.1 ∧ f e = f e') = Eq := by
    funext e e'
    rw [hf, ← Prod.ext_iff]
  rw [object_map_inj, hrel, List.forall₂_eq_eq_eq]
  exact ⟨OrderedMap.eq_of_entries, fun h => by rw [h]⟩

/-- A map is legible if its values are. -/
lemma legible_object_map {α : Type} {m : OrderedMap String α} {f : String × α → Value}
    (hf : ∀ e ∈ m.entries, Legible (f e)) :
    Legible (object (m.entries.map fun e => (e.1, f e))) := by
  refine .object ?_
  rw [List.forall_mem_map]
  exact hf

lemma legible_optional (s : Option String) : Legible (optional s) := by
  cases s with
  | none => exact .undefined
  | some s => exact .text s

/-- What may be missing is shown in its own way if it is. -/
lemma optional_inj {s t : Option String} : optional s = optional t ↔ s = t := by
  cases s <;> cases t <;> simp [optional]

end Generate.Value

namespace Store

/-! ## Actions -/

/-- Two actions that are shown in the same way: at most their places differ. -/
structure Action.ShowsAs (a b : Action) : Prop where
  name : a.name = b.name
  parameters : a.parameters = b.parameters
  decorators : a.decorators = b.decorators
  event : a.event = b.event

/-- A parameter is shown with its name, its type and its default. -/
lemma Parameter.toValue_eq (p : Parameter) : p.toValue =
    .object [("n", .text p.name), ("t", .text p.type), ("dv", .optional p.fallback)] :=
  Value.record_eq (by simp)

/-- A decorator is shown with its name and its arguments. -/
lemma Decoration.toValue_eq (d : Decoration) : d.toValue =
    .object [("n", .text d.name),
      ("p", .object (d.arguments.entries.map fun e => (e.1, .text e.2)))] := by
  rw [toValue, Value.record_map d.arguments fun e => .text e.2]
  exact Value.record_eq (by simp)

/-- An action is shown with its parameters, its decorators and its event. -/
lemma Action.toValue_eq (a : Action) : a.toValue =
    .object [("n", .text a.name), ("p", .array (a.parameters.map Parameter.toValue)),
      ("d", .object (a.decorators.entries.map fun e => (e.1, e.2.toValue))),
      ("h", .optional (a.event.map Lifecycle.name))] := by
  rw [toValue, Value.record_map a.decorators fun e => e.2.toValue]
  exact Value.record_eq (by simp)

/-- Events are told apart by their names. -/
lemma Lifecycle.name_injective : Function.Injective Lifecycle.name := fun e f h => by
  rw [← Option.some_inj, ← ofName?_name e, h, ofName?_name]

/-- Parameters are told apart by what is shown. -/
lemma Parameter.toValue_injective : Function.Injective Parameter.toValue := fun p q h => by
  simp only [toValue_eq, Value.object.injEq, List.cons.injEq, Prod.mk.injEq, Value.text.injEq,
    true_and, and_true, Value.optional_inj] at h
  cases p
  cases q
  exact (Parameter.mk.injEq ..).mpr h

/-- So are decorators. -/
lemma Decoration.toValue_inj {d e : Decoration} : d.toValue = e.toValue ↔ d = e := by
  rw [toValue_eq, toValue_eq, Value.object.injEq]
  simp only [List.cons.injEq, Prod.mk.injEq, Value.text.injEq, true_and, and_true]
  rw [Value.object_map_inj_of fun e e' => by rw [Value.text.injEq]]
  cases d
  cases e
  exact (Decoration.mk.injEq ..).to_iff.symm

/-- Actions are shown as one value exactly if they are shown in the same way. -/
theorem Action.toValue_eq_iff {a b : Action} : a.toValue = b.toValue ↔ a.ShowsAs b := by
  rw [toValue_eq, toValue_eq, Value.object.injEq]
  simp only [List.cons.injEq, Prod.mk.injEq, Value.text.injEq, Value.array.injEq, true_and,
    and_true, Value.optional_inj]
  rw [Value.object_map_inj_of fun e e' => Decoration.toValue_inj,
    (List.map_injective_iff.2 Parameter.toValue_injective).eq_iff,
    (Option.map_injective Lifecycle.name_injective).eq_iff]
  exact ⟨fun ⟨hn, hp, hd, he⟩ => ⟨hn, hp, hd, he⟩, fun h => ⟨h.name, h.parameters, h.decorators, h.event⟩⟩

/-- A parameter is shown by texts. -/
lemma Parameter.legible_toValue (p : Parameter) : Legible p.toValue := by
  rw [toValue_eq]
  refine .object ?_
  simp [Legible.text, Value.legible_optional]

/-- So is a decorator. -/
lemma Decoration.legible_toValue (d : Decoration) : Legible d.toValue := by
  rw [toValue_eq]
  refine .object ?_
  simp [Legible.text, Value.legible_object_map]

/-- An action is shown by what is legible. -/
lemma Action.legible_toValue (a : Action) : Legible a.toValue := by
  rw [toValue_eq]
  refine .object ?_
  have hparameters : Legible (.array (a.parameters.map Parameter.toValue)) := by
    refine .array ?_
    rw [List.forall_mem_map]
    exact fun p _ => p.legible_toValue
  have hdecorators := Value.legible_object_map (m := a.decorators) fun e _ => e.2.legible_toValue
  simp [Legible.text, Value.legible_optional, hparameters, hdecorators]

/-! ## Stores -/

/-- Two stores that are shown in the same way, with everything in the same order. -/
structure Metadata.ShowsAs (m n : Metadata) : Prop where
  className : m.className = n.className
  exportName : m.exportName = n.exportName
  binding : m.binding = n.binding
  fromGenerated : m.fromGenerated = n.fromGenerated
  stateKeys : m.stateKeys = n.stateKeys
  getters : m.getters = n.getters
  setters : m.setters = n.setters
  actions : List.Forall₂ (fun e f => e.1 = f.1 ∧ e.2.ShowsAs f.2) m.actions.entries
    n.actions.entries
  handlers : m.handlers = n.handlers

namespace Metadata

/-- Getters or setters in generated code, as an object. -/
lemma accessorsValue_eq (kind : String) (ps : OrderedMap String Property) :
    accessorsValue kind ps = .object (ps.entries.map fun e =>
      (e.1, .construct "StoreMetaGetterSetterData"
        [.text kind, .object [("n", .text e.2.name), ("c", .bool e.2.computed)]])) := by
  have hrecord : ∀ p : Property, Value.record [("n", .text p.name), ("c", .bool p.computed)] =
      .object [("n", .text p.name), ("c", .bool p.computed)] := fun p => Value.record_eq (by simp)
  simp only [accessorsValue, hrecord]
  exact Value.record_map ps fun e => .construct "StoreMetaGetterSetterData"
    [.text kind, .object [("n", .text e.2.name), ("c", .bool e.2.computed)]]

/-- Accessors are told apart by what is shown. -/
lemma accessorsValue_inj {kind : String} {ps qs : OrderedMap String Property} :
    accessorsValue kind ps = accessorsValue kind qs ↔ ps = qs := by
  rw [accessorsValue_eq, accessorsValue_eq]
  refine Value.object_map_inj_of fun ⟨_, p⟩ ⟨_, q⟩ => ?_
  cases p
  cases q
  simp

/-- Accessors are shown by texts and truth values. -/
lemma legible_accessorsValue (kind : String) (ps : OrderedMap String Property) :
    Legible (accessorsValue kind ps) := by
  rw [accessorsValue_eq]
  refine Value.legible_object_map fun e _ => .construct (by decide) ?_
  have hproperty : Legible (.object [("n", .text e.2.name), ("c", .bool e.2.computed)]) :=
    .object (by simp [Legible.text, Legible.bool])
  simp [Legible.text, hproperty]

/-- What is shown of a store, part by part. -/
lemma toValue_eq (m : Metadata) : m.toValue =
    .object [
      ("store", .object [
        ("className", .optional m.className),
        ("exportName", .optional m.exportName),
        ("vueBinding", .optional m.binding),
        ("module", .lazyImport m.fromGenerated)]),
      ("actions", .object (m.actions.entries.map fun e =>
        (e.1, .construct "StoreMetaActionData" [e.2.toValue]))),
      ("lifeCycleHandlers", .object (m.handlers.entries.map fun e => (e.1, .text e.2.name))),
      ("stateKeys", .array (m.stateKeys.map .text)),
      ("getters", accessorsValue "getter" m.getters),
      ("setters", accessorsValue "setter" m.setters)] := by
  have hstore : Value.record [("className", .optional m.className),
      ("exportName", .optional m.exportName), ("vueBinding", .optional m.binding),
      ("module", .lazyImport m.fromGenerated)] = .object _ := Value.record_eq (by simp)
  rw [toValue, Value.record_map m.actions fun e => .construct "StoreMetaActionData" [e.2.toValue],
    Value.record_map m.handlers fun e => .text e.2.name, hstore]
  exact Value.record_eq (by simp)

/-- Stores are written as one value exactly if they are shown in the same way. -/
theorem toValue_eq_iff {m n : Metadata} : m.toValue = n.toValue ↔ m.ShowsAs n := by
  have hstore : ∀ {c c' x x' b b' : Option String} {p p' : String},
      Value.object [("className", .optional c), ("exportName", .optional x),
          ("vueBinding", .optional b), ("module", .lazyImport p)] =
        .object [("className", .optional c'), ("exportName", .optional x'),
          ("vueBinding", .optional b'), ("module", .lazyImport p')] ↔
      c = c' ∧ x = x' ∧ b = b' ∧ p = p' := by
    simp [Value.optional_inj]
  rw [toValue_eq, toValue_eq, Value.object.injEq]
  simp only [List.cons.injEq, Prod.mk.injEq, true_and, and_true, hstore, Value.array.injEq,
    accessorsValue_inj]
  rw [Value.object_map_inj,
    Value.object_map_inj_of fun e e' => by rw [Value.text.injEq, Lifecycle.name_injective.eq_iff],
    (List.map_injective_iff.2 fun _ _ => Value.text.inj).eq_iff]
  simp only [Value.construct.injEq, true_and, List.cons.injEq, and_true, Action.toValue_eq_iff]
  exact ⟨fun ⟨⟨hc, hx, hb, hp⟩, ha, hh, hk, hg, hs⟩ => ⟨hc, hx, hb, hp, hk, hg, hs, ha, hh⟩,
    fun h => ⟨⟨h.className, h.exportName, h.binding, h.fromGenerated⟩, h.actions, h.handlers,
      h.stateKeys, h.getters, h.setters⟩⟩

/-- A store is shown by what is legible. -/
lemma legible_toValue (m : Metadata) : Legible m.toValue := by
  have hstore : Legible (.object [("className", .optional m.className),
      ("exportName", .optional m.exportName), ("vueBinding", .optional m.binding),
      ("module", .lazyImport m.fromGenerated)]) :=
    .object (by simp [Value.legible_optional, Legible.lazyImport])
  have hactions := Value.legible_object_map (m := m.actions)
    (f := fun e => .construct "StoreMetaActionData" [e.2.toValue]) fun e _ =>
      .construct (by decide) (by simpa using e.2.legible_toValue)
  have hhandlers := Value.legible_object_map (m := m.handlers)
    (f := fun e => .text e.2.name) fun e _ => .text e.2.name
  have hkeys : Legible (.array (m.stateKeys.map .text)) := by
    refine .array ?_
    rw [List.forall_mem_map]
    exact fun key _ => .text key
  rw [toValue_eq]
  refine .object ?_
  simp [hstore, hactions, hhandlers, hkeys, legible_accessorsValue]

end Metadata

end Store

/-! ## The text of the loader -/

namespace Generate

open Store (Metadata)

/-- What stands in the loader before the runtime package and after it. -/
lemma toList_loader (stores : List Metadata) (runtimePackage : String) :
    (loader stores runtimePackage).toList =
      ("import \x7b " ++ String.intercalate ", " runtimeNames ++ " \x7d from ").toList ++
        (Text.quoted runtimePackage.toList ++ (";".toList ++ "\nexport const stores = ".toList ++
          (Value.chars 0 (storeList stores) ++ ";\n".toList))) := by
  simp only [loader, namedImport, Text.quote, Value.render, String.toList_append,
    String.toList_ofList, List.append_assoc]

/-- The list of all stores is shown by what is legible. -/
lemma legible_storeList (stores : List Metadata) : Legible (storeList stores) := by
  refine .array ?_
  rw [List.forall_mem_map]
  exact fun s _ => .construct (by decide) (by simpa using s.legible_toValue)

/-- Two loaders have the same text exactly if they import from the same runtime package, and their
valid stores are shown in the same way, store by store. -/
theorem loader_eq_iff {stores stores' : List Metadata} {runtimePackage runtimePackage' : String} :
    loader stores runtimePackage = loader stores' runtimePackage' ↔
      runtimePackage = runtimePackage' ∧
        List.Forall₂ Metadata.ShowsAs (stores.filter Metadata.isValid)
          (stores'.filter Metadata.isValid) := by
  have hlist : storeList stores = storeList stores' ↔
      List.Forall₂ Metadata.ShowsAs (stores.filter Metadata.isValid)
        (stores'.filter Metadata.isValid) := by
    rw [storeList, storeList, Value.array.injEq, ← List.forall₂_eq_eq_eq,
      List.forall₂_map_left_iff, List.forall₂_map_right_iff]
    simp only [Value.construct.injEq, true_and, List.cons.injEq, and_true,
      Metadata.toValue_eq_iff]
  rw [← hlist]
  constructor
  · intro h
    have hchars := congrArg String.toList h
    rw [toList_loader, toList_loader] at hchars
    -- the package ends with its quote, and the list where a semicolon follows
    obtain ⟨hpackage, hrest⟩ := Text.quoted_append_inj (List.append_cancel_left hchars)
    have hstops : Value.Stops ";\n".toList := rfl
    obtain ⟨hstores, -⟩ := (legible_storeList stores).distinguished (legible_storeList stores')
      hstops hstops (List.append_cancel_left hrest)
    exact ⟨String.toList_inj.1 hpackage, hstores⟩
  · rintro ⟨rfl, h⟩
    rw [loader, loader, h]

end Generate

end StoreBindings
