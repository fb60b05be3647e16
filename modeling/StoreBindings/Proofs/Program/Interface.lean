import Mathlib.Data.List.Forall2
import StoreBindings.Generate.Modules
import StoreBindings.Program
import StoreBindings.Proofs.Generate.Loader
import StoreBindings.Proofs.Store.Interface

/-!
# Only interfaces are generated

What is generated for a program depends on the paths of its modules and on the interfaces of their
declarations, so it is the same for modules whose trees have the same shell:
`generated_of_sameInterface`. The bodies of methods and functions, the values of fields and of the
properties of the state, and all places in the sources can change without any effect.

What is quoted with all of its text is no interface. A class that is written down in a decorator, in a
list of parameters or in the name of a setter is generated from its first to its last character, the
bodies of its methods included: `generated_ne_of_quoted`.
-/

namespace StoreBindings

open Generate (Value loader declarations)
open Store (Directories Metadata)
open Syntax (Module TopLevel Tree)

/-! ## Comparing trees -/

namespace Syntax.Tree

mutual

/-- Trees are compared part by part. -/
def decEq : (s t : Tree) → Decidable (s = t)
  | leaf r k cs, leaf r' k' cs' => decidable_of_iff (r = r' ∧ k = k' ∧ cs = cs') (by simp)
  | leaf .., node .. => isFalse nofun
  | node .., leaf .. => isFalse nofun
  | node r k ps, node r' k' ps' =>
    have := decEqAll ps ps'
    decidable_of_iff (r = r' ∧ k = k' ∧ ps = ps') (by simp)

def decEqAll : (ss ts : List Tree) → Decidable (ss = ts)
  | [], [] => isTrue rfl
  | [], _ :: _ => isFalse nofun
  | _ :: _, [] => isFalse nofun
  | s :: ss, t :: ts =>
    have := decEq s t
    have := decEqAll ss ts
    decidable_of_iff (s = t ∧ ss = ts) (by simp)

end

instance : DecidableEq Tree := decEq

end Syntax.Tree

/-! ## Modules -/

namespace Syntax.Module

/-- The path of a module and the interfaces of its declarations. -/
def interfaces (m : Module) : Path × List TopLevel :=
  (m.path, (TopLevel.ofRoot m.root).map TopLevel.interface)

/-- Two modules at one path whose trees differ in nothing that is left in their shells. -/
structure SameInterface (m m' : Module) : Prop where
  path : m.path = m'.path
  shell : m.tree.shell Tree.quotes = m'.tree.shell Tree.quotes

lemma SameInterface.interfaces {m m' : Module} (h : m.SameInterface m') :
    m.interfaces = m'.interfaces := by
  have htree : ∀ m : Module, (TopLevel.ofRoot m.root).map TopLevel.interface =
      (TopLevel.ofRoot ⟨0, m.tree.shell Tree.quotes⟩).map TopLevel.interface := fun m =>
    (TopLevel.map_interface_ofRoot_shell m.tree 0 0).symm
  rw [Module.interfaces, Module.interfaces, h.path, htree, h.shell, ← htree]

end Syntax.Module

/-- The functions of a module are those of its interfaces. -/
lemma DecoratorIndex.ofModule_eq (m : Module) : ofModule m =
    (m.interfaces.2.flatMap TopLevel.functions).map fun (name, parameters) =>
      ⟨name, m.interfaces.1, parameters⟩ := by
  have hfunctions : (m.interfaces.2.flatMap TopLevel.functions) =
      (TopLevel.ofRoot m.root).flatMap TopLevel.functions := by
    rw [Module.interfaces, List.flatMap_map]
    congr 1
    funext d
    obtain ⟨exported, declaration⟩ := d
    cases declaration <;> rfl
  rw [hfunctions, ofModule]
  rfl

namespace Store.Extraction

/-- The stores of a module, without their places, are determined by its interfaces. -/
lemma stores_eq_of_interfaces (ix : DecoratorIndex) (dirs : Directories) {m m' : Module}
    (h : m.interfaces = m'.interfaces) : (ofModule ix dirs m).stores.map Metadata.unplaced =
      (ofModule ix dirs m').stores.map Metadata.unplaced := by
  obtain ⟨hpath, hds⟩ := Prod.mk.inj h
  rw [stores_ofModule_unplaced, stores_ofModule_unplaced, hpath, hds]

end Store.Extraction

/-! ## Generated texts -/

namespace Generate

lemma loader_unplaced (stores : List Metadata) (runtimePackage : String) :
    loader (stores.map Metadata.unplaced) runtimePackage = loader stores runtimePackage := by
  have hlist : storeList (stores.map Metadata.unplaced) = storeList stores := by
    have hvalid : Metadata.isValid ∘ Metadata.unplaced = Metadata.isValid :=
      funext Metadata.isValid_unplaced
    unfold storeList
    rw [List.filter_map, hvalid, List.map_map]
    refine congrArg Value.array (List.map_congr_left fun s _ => ?_)
    rw [Function.comp_apply, Metadata.toValue_unplaced]
  rw [loader, loader, hlist]

lemma declarations_unplaced (stores : List Metadata) :
    declarations (stores.map Metadata.unplaced) = declarations stores := by
  have hbindings : bindings (stores.map Metadata.unplaced) = bindings stores := by
    have hvalid : Metadata.isValid ∘ Metadata.unplaced = Metadata.isValid :=
      funext Metadata.isValid_unplaced
    unfold bindings
    rw [List.filter_map, hvalid, List.filterMap_map]
    rfl
  unfold declarations
  rw [hbindings]

end Generate

namespace Program

/-- All stores of a program, valid or not, settled. -/
def settled (found : List Store.Extraction) : List Metadata :=
  (found.flatMap (·.stores)).map Metadata.settle

lemma settled_unplaced (found : List Store.Extraction) : (settled found).map Metadata.unplaced =
    (found.flatMap fun e => e.stores.map Metadata.unplaced).map Metadata.settle := by
  rw [settled, List.map_map, ← List.map_flatMap, List.map_map]
  rfl

variable {p p' : Program} (h : List.Forall₂ Module.SameInterface p.modules p'.modules)

include h

lemma interfaces_of_sameInterface :
    p.modules.map Module.interfaces = p'.modules.map Module.interfaces := by
  rw [← List.forall₂_eq_eq_eq, List.forall₂_map_left_iff, List.forall₂_map_right_iff]
  exact h.imp fun _ _ hm => hm.interfaces

lemma decorators_of_sameInterface : p.decorators = p'.decorators := by
  have hdeclared : ∀ ms : List Module, DecoratorIndex.ofModules ms =
      ⟨(ms.map Module.interfaces).flatMap fun i => (i.2.flatMap TopLevel.functions).map
        fun (name, parameters) => ⟨name, i.1, parameters⟩⟩ := fun ms => by
    refine congrArg DecoratorIndex.mk ((DecoratorIndex.declared_ofModules ms).trans ?_)
    rw [List.flatMap_map]
    exact List.flatMap_congr fun m _ => DecoratorIndex.ofModule_eq m
  rw [decorators, decorators, hdeclared, hdeclared, interfaces_of_sameInterface h]

/-- The stores of each module differ in their places only. -/
lemma unplaced_of_sameInterface (dirs : Directories) :
    (p.extractions dirs).map (fun e => e.stores.map Metadata.unplaced) =
      (p'.extractions dirs).map fun e => e.stores.map Metadata.unplaced := by
  unfold extractions
  rw [decorators_of_sameInterface h, List.map_map, List.map_map, ← List.forall₂_eq_eq_eq,
    List.forall₂_map_left_iff, List.forall₂_map_right_iff]
  exact h.imp fun _ _ hm => Store.Extraction.stores_eq_of_interfaces _ dirs hm.interfaces

/-- Modules with the same interfaces give, module by module, stores that are written as the same
values in the same order, so the same loader and the same declarations are generated for them. -/
theorem generated_of_sameInterface (dirs : Directories) (runtimePackage : String) :
    let found := p.extractions dirs
    let found' := p'.extractions dirs
    found.map (fun e => e.stores.map fun s => s.settle.toValue) =
        found'.map (fun e => e.stores.map fun s => s.settle.toValue) ∧
      loader (settled found) runtimePackage = loader (settled found') runtimePackage ∧
      declarations (settled found) = declarations (settled found') := by
  intro found found'
  have hstores := unplaced_of_sameInterface h dirs
  -- places are forgotten before stores are settled or after, and never written
  have hvalues : ∀ es : List Store.Extraction,
      es.map (fun e => e.stores.map fun s => s.settle.toValue) =
        (es.map fun e => e.stores.map Metadata.unplaced).map
          (List.map fun s => s.settle.toValue) := fun es => by
    rw [List.map_map]
    refine List.map_congr_left fun e _ => ?_
    rw [Function.comp_apply, List.map_map]
    refine List.map_congr_left fun s _ => ?_
    rw [Function.comp_apply, Metadata.settle_unplaced, Metadata.toValue_unplaced]
  have hsettled : (settled found).map Metadata.unplaced = (settled found').map Metadata.unplaced := by
    rw [settled_unplaced, settled_unplaced, List.flatMap_def, List.flatMap_def, hstores]
  refine ⟨?_, ?_, ?_⟩
  · rw [hvalues, hvalues, hstores]
  · rw [← Generate.loader_unplaced, hsettled, Generate.loader_unplaced]
  · rw [← Generate.declarations_unplaced, hsettled, Generate.declarations_unplaced]

omit h

namespace Sample

/-- A module that exports a store with given members and a state. -/
def module (members : String) : Module := .read (.ofString "/s.ts")
  ("class S extends Store()\x7b" ++ members ++ "\x7dexport const s=new S()").toList

lemma path_module (members members' : String) :
    (module members).path = (module members').path := rfl

/-- What a single module gives. -/
def extractions (m : Module) : List Store.Extraction :=
  Program.extractions ⟨[m]⟩ ⟨.ofString "/", .ofString "/"⟩

end Sample

/-- A store whose method, field and state are rewritten is generated as before. -/
theorem generated_of_rewritten :
    let m := Sample.module "f=1;a(b)\x7b\x7dget state()\x7breturn\x7bg:4\x7d\x7d"
    let m' := Sample.module "f=b;a(b)\x7b0\x7dget state()\x7breturn\x7bg:''\x7d\x7d"
    List.Forall₂ Module.SameInterface [m] [m'] ∧ m.tree ≠ m'.tree ∧
      loader (settled (Sample.extractions m)) "r" = loader (settled (Sample.extractions m')) "r" := by
  intro m m'
  have htrees : m.tree.shell Tree.quotes = m'.tree.shell Tree.quotes ∧ m.tree ≠ m'.tree := by
    decide +kernel
  have hsame : List.Forall₂ Module.SameInterface [m] [m'] :=
    .cons ⟨Sample.path_module _ _, htrees.1⟩ .nil
  exact ⟨hsame, htrees.2, (@generated_of_sameInterface ⟨[m]⟩ ⟨[m']⟩ hsame _ _).2.1⟩

/-- If nothing counts as quoted, what is generated can differ for modules with the same shell. The
bodies of three methods differ in these, in classes that are written down in a decorator, in a
parameter and in the name of a setter. -/
theorem generated_ne_of_quoted :
    let m := Sample.module ("@A(class\x7bm()\x7b\x7d\x7d)a(b=class\x7bm()\x7b\x7d\x7d)\x7b\x7d" ++
      "set[class\x7bm()\x7b\x7d\x7d](b)\x7b\x7dget state()\x7breturn\x7b\x7d\x7d")
    let m' := Sample.module ("@A(class\x7bm()\x7b0\x7d\x7d)a(b=class\x7bm()\x7b0\x7d\x7d)\x7b\x7d" ++
      "set[class\x7bm()\x7b0\x7d\x7d](b)\x7b\x7dget state()\x7breturn\x7b\x7d\x7d")
    let stores := settled (Sample.extractions m)
    let stores' := settled (Sample.extractions m')
    m.path = m'.path ∧ m.tree.shell (fun _ _ => false) = m'.tree.shell (fun _ _ => false) ∧
      (stores.map fun s => s.actions.values.map Store.Action.decorators) ≠
        (stores'.map fun s => s.actions.values.map Store.Action.decorators) ∧
      (stores.map fun s => s.actions.values.map Store.Action.parameters) ≠
        (stores'.map fun s => s.actions.values.map Store.Action.parameters) ∧
      stores.map Metadata.setters ≠ stores'.map Metadata.setters ∧
      (stores.map fun s => s.toValue.render) ≠ stores'.map fun s => s.toValue.render := by
  intro m m' stores stores'
  have hread : m.tree.shell (fun _ _ => false) = m'.tree.shell (fun _ _ => false) ∧
      (stores.map fun s => s.actions.values.map Store.Action.decorators) ≠
        (stores'.map fun s => s.actions.values.map Store.Action.decorators) ∧
      (stores.map fun s => s.actions.values.map Store.Action.parameters) ≠
        (stores'.map fun s => s.actions.values.map Store.Action.parameters) ∧
      stores.map Metadata.setters ≠ stores'.map Metadata.setters := by
    decide +kernel
  obtain ⟨hshell, hdecorators, hparameters, hsetters⟩ := hread
  refine ⟨Sample.path_module _ _, hshell, hdecorators, hparameters, hsetters, fun h => hsetters ?_⟩
  rw [← List.forall₂_eq_eq_eq, List.forall₂_map_left_iff, List.forall₂_map_right_iff] at h ⊢
  refine h.imp fun s s' hrender => ?_
  exact (Metadata.toValue_eq_iff.1
    ((Value.render_inj s.legible_toValue s'.legible_toValue).1 hrender)).setters

end Program

end StoreBindings
