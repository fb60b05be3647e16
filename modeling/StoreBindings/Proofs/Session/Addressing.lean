import StoreBindings.Proofs.Path.Relative
import StoreBindings.Proofs.Program.Rooted
import StoreBindings.Proofs.Session.Indexing

/-!
# The ways to the stores

Generated code names a store by the way to it from the directory of the generated files. Joined to that
directory the way leads to the file of the store again, however the two are spelled: `IsOf.leads`. The
sources of a project are spelled from its root and normal, so at any time what is joined and resolved is
the very path that the file of the store has: `leads_of_runs`.
-/

namespace StoreBindings

open Files (Tree)
open Config (Options Project)

variable {t : Tree} {project : Project} {c : Config.Compiler} {P : Program}

/-- The way from the directory of generated code leads to the file of a store. -/
theorem Store.Metadata.IsOf.leads {dirs : Store.Directories} {m : Store.Metadata} {path : Path}
    (h : m.IsOf dirs path) (hdir : dirs.generated.isAbsolute = true)
    (hpath : path.isAbsolute = true) :
    (dirs.generated.joinText m.fromGenerated).normalize = m.file.normalize := by
  rw [h.fromGenerated, h.file]
  show (dirs.generated.join ⟨(String.ofList _).toList⟩).normalize = _
  rw [String.toList_ofList]
  exact Path.normalize_join_relativePath hdir hpath

namespace Program

/-- The modules of a program are spelled from the root, and normal. -/
def IsRooted (P : Program) : Prop :=
  ∀ module ∈ P.modules, module.path.isAbsolute = true ∧ module.path.normalize = module.path

lemma isRooted_of_load (hdir : c.directory.isAbsolute = true) (h : load t project c = .ok P) :
    P.IsRooted := by
  obtain ⟨paths, hpaths, rfl⟩ := load_eq_ok_iff.1 h
  intro module hmodule
  obtain ⟨hmem, -⟩ := mem_read hmodule
  exact ⟨project.isAbsolute_of_mem_sources hdir hpaths hmem, normalize_of_mem_sources hpaths hmem⟩

/-- The stores of such a program are in files that are spelled from the root, and normal. -/
lemma exists_isOf_of_mem_stores (hP : P.IsRooted) {dirs : Store.Directories} {m : Store.Metadata}
    (hm : m ∈ stores (P.extractions dirs)) :
    ∃ path : Path, path.isAbsolute = true ∧ path.normalize = path ∧ m.IsOf dirs path := by
  obtain ⟨module, hmodule, hof⟩ := exists_module_of_mem_stores hm
  obtain ⟨habs, hnormal⟩ := hP module hmodule
  exact ⟨module.path, habs, hnormal, hof⟩

end Program

namespace Session

variable {s s₀ : Session}

/-- The compiler configuration, the modules and the stores of a session of a project are spelled from
the root. -/
structure IsRooted (project : Project) (s : Session) : Prop where
  project_eq : s.project = project
  directory : s.compiler.directory.isAbsolute = true
  program : s.program.IsRooted
  stores : ∀ m ∈ s.stores, ∃ path : Path, path.isAbsolute = true ∧ path.normalize = path ∧
    m.IsOf project.directories path

/-- Whatever is done with a session, all of it stays spelled from the root. -/
lemma isKept_isRooted (project : Project) : IsKept (IsRooted project) where
  read _ _ _ hs hP :=
    ⟨hs.project_eq, hs.directory, Program.isRooted_of_load hs.directory hP, hs.stores⟩
  process s hs := by
    refine ⟨hs.project_eq, hs.directory, hs.program, fun m hm => ?_⟩
    have hfound : m ∈ Program.stores (s.program.extractions project.directories) := by
      rw [← hs.project_eq]
      exact hm
    exact Program.exists_isOf_of_mem_stores hs.program hfound
  ledger _ _ hs := ⟨hs.project_eq, hs.directory, hs.program, hs.stores⟩
  diagnostics _ _ hs := ⟨hs.project_eq, hs.directory, hs.program, hs.stores⟩

lemma isRooted_of_start {ledger : Ledger} (hroot : project.root.isAbsolute = true)
    (h : start project ledger t = .ok s) : IsRooted project s := by
  have hbegan := began_of_start h
  have hdir := Config.Compiler.isAbsolute_directory hroot hbegan.compiler
  have hP := Program.isRooted_of_load hdir hbegan.program
  refine ⟨hbegan.project_eq, hdir, hP, fun m hm => ?_⟩
  rw [hbegan.stores] at hm
  exact Program.exists_isOf_of_mem_stores hP hm

/-- At any time the way to a store leads to the path that its file has. -/
theorem leads_of_runs {ledger : Ledger} (hroot : project.root.isAbsolute = true)
    (hgenerated : project.generatedDirectory.isAbsolute = true)
    (hstart : start project ledger t = .ok s₀) (hruns : Runs s₀ s) {m : Store.Metadata}
    (hm : m ∈ s.stores) :
    (project.generatedDirectory.joinText m.fromGenerated).normalize = m.file := by
  have hs : IsRooted project s := (isKept_isRooted project).runs hruns (isRooted_of_start hroot hstart)
  obtain ⟨path, habs, hnormal, hof⟩ := hs.stores m hm
  calc (project.generatedDirectory.joinText m.fromGenerated).normalize = m.file.normalize :=
        hof.leads hgenerated habs
    _ = m.file := by rw [hof.file, hnormal]

end Session

/-- The way from a directory to a path leads to the path when it is joined to the directory, and is empty
exactly if the two lead to one place. So the way that a store of a module has from the directory of
generated code leads to the module; and however a session of a project goes on, each of its stores has
a way that leads to the path of its file. -/
theorem way_leads_to_file :
    (∀ dir p : Path, dir.isAbsolute = true → p.isAbsolute = true →
      (dir.join ⟨Path.relativePath dir p⟩).normalize = p.normalize ∧
      (Path.relativePath dir p = [] ↔ dir.normalize = p.normalize)) ∧
    (∀ (ix : DecoratorIndex) (dirs : Store.Directories) (module : Syntax.Module),
      dirs.generated.isAbsolute = true → module.path.isAbsolute = true →
      ∀ m ∈ (Store.Extraction.ofModule ix dirs module).stores, m.file = module.path ∧
        (dirs.generated.joinText m.fromGenerated).normalize = m.file.normalize) ∧
    ∀ (o : Options) (root : Path) (ledger : Ledger) (t : Tree) (s₀ s : Session),
      root.isAbsolute = true → Session.start (o.resolve root) ledger t = .ok s₀ → Session.Runs s₀ s →
      ∀ m ∈ s.stores,
        ((o.resolve root).generatedDirectory.joinText m.fromGenerated).normalize = m.file := by
  refine ⟨fun dir p hdir hp => ?_, fun ix dirs module hdir hpath m hm => ?_, ?_⟩
  · exact ⟨Path.normalize_join_relativePath hdir hp, Path.relativePath_eq_nil_iff hdir hp⟩
  · have hof := Store.Extraction.isOf_of_mem_ofModule hm
    exact ⟨hof.file, hof.leads hdir hpath⟩
  · intro o root ledger t s₀ s hroot hstart hruns m hm
    exact Session.leads_of_runs (Options.root_resolve hroot).1 (Options.generatedDirectory_resolve hroot)
      hstart hruns hm

namespace Sample

/-- The options that climb, without patterns for stores. -/
def listedOnly : Options := { climbing with filePatterns := [] }

/-- The project that these options lay out. -/
def listedOnlyProject : Project := listedOnly.resolve (.ofString "/app")

end Sample

/-- A directory of generated files that is reached by way of the one above it: the way to the store is
that from where the directory lies. -/
theorem way_leads_of_climbed :
    (let dir := Path.ofString "/a/../../b/./c"
      let p := Path.ofString "/../x//y/."
      dir.isAbsolute = true ∧ p.isAbsolute = true ∧
        (dir.join ⟨Path.relativePath dir p⟩).normalize = p.normalize ∧ Path.relativePath dir p ≠ []) ∧
    ∃ s₀, Session.start Sample.listedOnlyProject .empty (Sample.tree Sample.store) = .ok s₀ ∧
      let s := (s₀.handle (Sample.tree Sample.store) .added Sample.path).session
      s.stores.map (·.fromGenerated.toList) = ["../S.ts".toList] ∧
      ∀ m ∈ s.stores,
        (Sample.listedOnlyProject.generatedDirectory.joinText m.fromGenerated).normalize = m.file := by
  obtain ⟨hway, -, hruns⟩ := way_leads_to_file
  have heval : (Session.start Sample.listedOnlyProject .empty
      (Sample.tree Sample.store)).toOption.any (fun s₀ =>
        (s₀.handle (Sample.tree Sample.store) .added Sample.path).session.stores.map
          (·.fromGenerated.toList) = ["../S.ts".toList]) = true := by
    decide +kernel
  obtain ⟨s₀, hstart, h⟩ := exists_of_toOption_any heval
  rw [decide_eq_true_eq] at h
  refine ⟨⟨by decide, by decide, (hway _ _ (by decide) (by decide)).1, by decide +kernel⟩, s₀, hstart, h,
    hruns Sample.listedOnly (.ofString "/app") _ _ s₀ _ (by decide) hstart (.single (.handle ..))⟩

end StoreBindings
