import StoreBindings.Program
import StoreBindings.Proofs.Store.Findings

/-!
# The file that declares a store

Whatever is read in a class body, a store stays that of the module that its class is in, and the ways to
its file are those from the two directories. So the files of the stores of a program are paths of its
modules: `exists_module_of_mem_stores`.
-/

namespace StoreBindings

namespace Store

/-- A store is declared in a file, and has the ways to it from the two directories. -/
structure Metadata.IsOf (m : Metadata) (dirs : Directories) (path : Path) : Prop where
  file : m.file = path
  fromStores : m.fromStores = String.ofList (Path.relativePath dirs.stores path)
  fromGenerated : m.fromGenerated = String.ofList (Path.relativePath dirs.generated path)

namespace Extraction

lemma isOf_storeOf (ix : DecoratorIndex) (dirs : Directories) (file : Path)
    (is : List Syntax.Instance) (c : Syntax.ClassDeclaration) :
    (storeOf ix dirs file is c).IsOf dirs file := by
  rw [storeOf_eq]
  have hhead := sameHead_addMembers ix c.name c.members
    ((Metadata.ofFile dirs file).beginClass c.name c.span) c.members
  exact ⟨hhead.file, hhead.fromStores, hhead.fromGenerated⟩

lemma isOf_of_mem_ofModule {ix : DecoratorIndex} {dirs : Directories} {module : Syntax.Module}
    {m : Metadata} (h : m ∈ (ofModule ix dirs module).stores) : m.IsOf dirs module.path := by
  rw [stores_ofModule] at h
  obtain ⟨c, -, rfl⟩ := List.mem_map.1 h
  exact isOf_storeOf ..

end Extraction

end Store

/-- A store of a program is declared by one of its modules. -/
theorem Program.exists_module_of_mem_stores {P : Program} {dirs : Store.Directories}
    {m : Store.Metadata} (h : m ∈ stores (P.extractions dirs)) :
    ∃ module ∈ P.modules, m.IsOf dirs module.path := by
  unfold stores at h
  obtain ⟨found, hfound, rfl⟩ := List.mem_map.1 h
  obtain ⟨extraction, hextraction, hstore⟩ := List.mem_flatMap.1 (List.mem_filter.1 hfound).1
  obtain ⟨module, hmodule, rfl⟩ := List.mem_map.1 hextraction
  -- settling a store touches neither its file nor the ways to it
  obtain ⟨hfile, hstores, hgenerated⟩ := Store.Extraction.isOf_of_mem_ofModule hstore
  exact ⟨module, hmodule, hfile, hstores, hgenerated⟩

end StoreBindings
