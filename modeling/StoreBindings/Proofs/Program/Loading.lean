import StoreBindings.Program
import StoreBindings.Proofs.Files.Reading
import StoreBindings.Proofs.Path.Normal
import StoreBindings.Proofs.Steps

/-!
# What is read when a program is loaded

The modules of a program are files of the tree, none of which is generated, and the text of each is
the content of its file: `IsLoaded`, `isLoaded_of_load`.
-/

namespace StoreBindings

namespace Syntax.Module

/-- The bytes of a module's text. -/
def content (m : Syntax.Module) : ByteArray := (String.ofList m.text).toUTF8

end Syntax.Module

namespace Config.Project

/-- Two spellings of one path are both generated or both not. -/
lemma isGenerated_congr (project : Config.Project) {p q : Path}
    (h : p.components = q.components) : project.isGenerated p = project.isGenerated q := by
  unfold isGenerated Path.normalize
  rw [h]

/-- A path is resolved before it is compared. -/
lemma isGenerated_normalize (p : Config.Project) (q : Path) :
    p.isGenerated q.normalize = p.isGenerated q := by
  unfold isGenerated
  rw [Path.normalize_normalize]

lemma components_ne_of_isGenerated {project : Config.Project} {p q : Path}
    (hp : project.isGenerated p = false) (hq : project.isGenerated q = true) :
    p.components ≠ q.components := by
  intro h
  rw [project.isGenerated_congr h, hq] at hp
  cases hp

end Config.Project

namespace Program

open Files (Tree)

variable {t : Tree} {project : Config.Project} {c : Config.Compiler} {P : Program}

/-- What a program has in common with the tree that it has been loaded from. -/
structure IsLoaded (P : Program) (t : Tree) (project : Config.Project) : Prop where
  isGenerated : ∀ m ∈ P.modules, project.isGenerated m.path = false
  read : ∀ m ∈ P.modules, t.read m.path = .ok m.content

lemma read_of_readText {p : Path} {text : String} (h : t.readText p = .ok text) :
    t.read p = .ok text.toUTF8 := by
  unfold Tree.readText at h
  cases hr : t.read p with
  | error e => rw [hr] at h; cases h
  | ok bytes =>
    rw [hr] at h
    simp only [bind, Except.bind] at h
    cases hs : String.fromUTF8? bytes with
    | none => rw [hs] at h; cases h
    | some s =>
      rw [hs] at h
      cases h
      unfold String.fromUTF8? at hs
      split at hs
      · cases hs
        rfl
      · cases hs

lemma load_eq_ok_iff : load t project c = .ok P ↔
    ∃ paths, project.sources t c = .ok paths ∧ P = Program.read t paths := by
  unfold load
  rw [bind_eq_ok_iff]
  simp only [pure, Except.pure, Except.ok.injEq, @eq_comm _ P]

/-- The modules that are read are at the given paths, and have the texts that are there. -/
lemma mem_read {paths : List Path} {m : Syntax.Module} (h : m ∈ (Program.read t paths).modules) :
    m.path ∈ paths ∧ t.read m.path = .ok m.content := by
  obtain ⟨path, hpath, hm⟩ := List.mem_filterMap.1 h
  cases ht : t.readText path with
  | error e => rw [ht] at hm; cases hm
  | ok text =>
    rw [ht] at hm
    cases hm
    refine ⟨hpath, ?_⟩
    show t.read path = .ok (String.ofList text.toList).toUTF8
    rw [String.ofList_toList]
    exact read_of_readText ht

lemma isGenerated_of_mem_sources {paths : List Path} (h : project.sources t c = .ok paths)
    {p : Path} (hp : p ∈ paths) : project.isGenerated p = false := by
  unfold Config.Project.sources at h
  obtain ⟨stores, -, h⟩ := bind_eq_ok_iff.1 h
  obtain ⟨listed, -, h⟩ := bind_eq_ok_iff.1 h
  cases h
  simpa using (List.mem_filter.1 hp).2

theorem isLoaded_of_load (h : load t project c = .ok P) : P.IsLoaded t project := by
  obtain ⟨paths, hs, rfl⟩ := load_eq_ok_iff.1 h
  exact ⟨fun m hm => isGenerated_of_mem_sources hs (mem_read hm).1, fun m hm => (mem_read hm).2⟩

end Program

end StoreBindings
