import StoreBindings.Proofs.Path.Climbing
import StoreBindings.Proofs.Program.Sources

/-!
# Sources are spelled from the root

A search begins at the root and goes on by joining names, so every path that it finds is spelled from the
root: `isAbsolute_of_find?`. The files that a compiler configuration names are joined to its directory,
which is the one that it is looked for in or one above it. So all sources of a project are spelled from
the root if the project is: `isAbsolute_of_mem_sources`.
-/

namespace StoreBindings

open Files (Tree)

namespace Glob.Search

variable {s : Search} {t : Tree} {holds : Path → Prop}

/-- Everything that a way of walking finds has a property that the path has where it begins. -/
def Keeps (holds : Path → Prop) (walk : List Pattern → Path → List Path) : Prop :=
  ∀ ps path, holds path → ∀ r ∈ walk ps path, holds r

lemma exists_join_of_mem_contents {dir child : Path} (h : child ∈ contents t dir) :
    ∃ name, child = dir.join ⟨name⟩ := by
  unfold contents at h
  split at h
  · obtain ⟨name, -, rfl⟩ := List.mem_map.1 h
    exact ⟨name, rfl⟩
  · cases h

lemma keeps_enter {fuel : Nat} (hjoin : ∀ dir name, holds dir → holds (dir.join ⟨name⟩))
    (hproceed : Keeps holds (s.proceed t fuel)) (hvisit : Keeps holds (s.visit t fuel)) :
    Keeps holds (s.enter t (fuel + 1)) := by
  intro ps dir hdir r hr
  cases ps with
  | nil => simp only [enter, List.not_mem_nil] at hr
  | cons p rest =>
    rw [enter] at hr
    split at hr
    · next name hlit =>
      exact hproceed rest _ (hjoin dir name hdir) r (List.mem_ite_nil_right.1 hr).2
    · -- a part that spells `.` or `..` goes there, and that is joined as a name is
      have hspecial : ∀ name, r ∈ (if p.head? = some (.char '.') && matchesText p name then
          s.proceed t fuel rest (dir.join ⟨name⟩) else []) → holds r := by
        intro name hr
        split at hr
        · exact hproceed rest _ (hjoin dir name hdir) r hr
        · cases hr
      split at hr
      · rcases List.mem_append.1 hr with hr | hr
        · rcases List.mem_append.1 hr with hr | hr
          · exact hspecial _ hr
          · exact hspecial _ hr
        · obtain ⟨child, hchild, hr⟩ := List.mem_flatMap.1 hr
          obtain ⟨name, rfl⟩ := exists_join_of_mem_contents hchild
          exact hvisit _ _ (hjoin dir name hdir) r hr
      · cases hr

lemma keeps_proceed {fuel : Nat} (henter : Keeps holds (s.enter t fuel)) :
    Keeps holds (s.proceed t (fuel + 1)) := by
  intro ps path hpath r hr
  cases ps with
  | nil =>
    rw [proceed] at hr
    rw [mem_result hr]
    exact hpath
  | cons p rest =>
    rw [proceed] at hr
    exact henter _ path hpath r hr

lemma keeps_visit {fuel : Nat} (henter : Keeps holds (s.enter t fuel))
    (hnamed : Keeps holds (s.named t fuel)) : Keeps holds (s.visit t (fuel + 1)) := by
  intro ps path hpath r hr
  cases ps with
  | nil => simp only [visit, List.not_mem_nil] at hr
  | cons p rest =>
    rw [visit] at hr
    split at hr
    · split at hr
      · split at hr
        · rcases List.mem_cons.1 hr with rfl | hr
          · exact hpath
          · exact henter [p] path hpath r hr
        · cases hr
      · rcases List.mem_append.1 hr with hr | hr
        · exact hnamed _ path hpath r hr
        · split at hr
          · exact henter _ path hpath r hr
          · cases hr
    · exact hnamed _ path hpath r hr

lemma keeps_named {fuel : Nat} (hproceed : Keeps holds (s.proceed t fuel)) :
    Keeps holds (s.named t (fuel + 1)) := by
  intro ps path hpath r hr
  cases ps with
  | nil => simp only [named, List.not_mem_nil] at hr
  | cons p rest =>
    rw [named] at hr
    split at hr
    · exact hproceed rest path hpath r hr
    · cases hr

/-- What joining a name keeps, all four ways of going on with a walk keep. -/
lemma keeps_walk (hjoin : ∀ dir name, holds dir → holds (dir.join ⟨name⟩)) (s : Search) (t : Tree)
    (fuel : Nat) : Keeps holds (s.enter t fuel) ∧ Keeps holds (s.proceed t fuel) ∧
      Keeps holds (s.visit t fuel) ∧ Keeps holds (s.named t fuel) := by
  induction fuel with
  | zero =>
    refine ⟨?_, ?_, ?_, ?_⟩ <;> intro ps path _ r hr <;> cases ps <;>
      simp only [enter, proceed, visit, named, List.not_mem_nil] at hr
  | succ fuel ih =>
    obtain ⟨henter, hproceed, hvisit, hnamed⟩ := ih
    exact ⟨keeps_enter hjoin hproceed hvisit, keeps_proceed henter, keeps_visit henter hnamed,
      keeps_named hproceed⟩

end Glob.Search

/-- Whatever a pattern is, what it finds is spelled from the root. -/
theorem Glob.isAbsolute_of_find? {t : Tree} {pattern : List Char} {found : List Path}
    (h : Glob.find? t pattern = some found) : ∀ r ∈ found, r.isAbsolute = true := by
  obtain ⟨s, -, rfl⟩ := Option.map_eq_some_iff.1 h
  have hjoin : ∀ dir name, dir.isAbsolute = true → (Path.join dir ⟨name⟩).isAbsolute = true :=
    fun _ _ hdir => Path.isAbsolute_join_of_isAbsolute hdir _
  intro r hr
  exact (Search.keeps_walk hjoin s t _).1 _ _ rfl r hr

namespace Config

variable {t : Tree} {c : Compiler} {project : Project} {found : List Path}

namespace Compiler

/-- A compiler configuration is found in a directory that is spelled from the root. -/
lemma exists_of_findWithin? {bound : Nat} {dir file : Path} (hdir : dir.isAbsolute = true)
    (h : findWithin? t bound dir = some file) :
    ∃ above : Path, above.isAbsolute = true ∧ file = above.joinText fileName := by
  induction bound generalizing dir with
  | zero => cases h
  | succ bound ih =>
    unfold findWithin? at h
    dsimp only at h
    split at h
    · exact ⟨dir, hdir, (Option.some.inj h).symm⟩
    · obtain ⟨above, habove, hfound⟩ := Option.bind_eq_some_iff.1 h
      exact ih (Path.isAbsolute_of_parent? hdir habove) hfound

/-- A configuration that is read from a file is one of that file, whatever its entries are. -/
lemma file_of_ofJson? {file : Path} {v : Json} (h : ofJson? file v = some c) : c.file = file := by
  unfold ofJson? at h
  dsimp only at h
  split at h
  -- an array has to have as many items as there are entries, and then all values are read in one way
  on_goal 1 => obtain ⟨_, -, h⟩ := Option.bind_eq_some_iff.1 h
  all_goals
    obtain ⟨values, -, hvalues⟩ := Option.bind_eq_some_iff.1 h
    split at hvalues
    · obtain ⟨files, -, hfiles⟩ := Option.bind_eq_some_iff.1 hvalues
      obtain ⟨includes, -, hincludes⟩ := Option.bind_eq_some_iff.1 hfiles
      obtain ⟨excludes, -, hexcludes⟩ := Option.bind_eq_some_iff.1 hincludes
      rw [← Option.some.inj hexcludes]
    · cases hvalues

lemma file_of_ofText {file : Path} {text : List Char} (h : ofText file text = .ok c) :
    c.file = file := by
  unfold ofText at h
  dsimp only at h
  split at h
  · cases h
    rfl
  · split at h
    · next c' hread =>
      cases h
      obtain ⟨v, -, hv⟩ := Option.bind_eq_some_iff.1 hread
      exact file_of_ofJson? hv
    · cases h

/-- The directory of the compiler configuration of a project is spelled from the root. -/
lemma isAbsolute_directory {root : Path} (hroot : root.isAbsolute = true)
    (h : load t root = .ok c) : c.directory.isAbsolute = true := by
  unfold load at h
  obtain ⟨file, hfind, h⟩ := bind_eq_ok_iff.1 h
  have hfile : c.file = file := by
    split at h
    · exact file_of_ofText h
    · cases h
  unfold find at hfind
  split at hfind
  · next file' hsome =>
    obtain rfl : file' = file := Except.ok.inj hfind
    obtain ⟨dir, hdir, rfl⟩ := exists_of_findWithin? hroot hsome
    have habs : (dir.joinText fileName).isAbsolute = true := Path.isAbsolute_join_of_isAbsolute hdir _
    -- the file has a name, so there is a directory above it
    have hsteps : (dir.joinText fileName).steps ≠ [] := by
      have hcomponents : (dir.joinText fileName).components =
          dir.components ++ (Path.ofString fileName).steps :=
        Path.components_join hdir (by decide)
      rw [Path.components_of_isAbsolute habs, Path.components_of_isAbsolute hdir,
        List.cons_append, List.cons.injEq] at hcomponents
      rw [hcomponents.2]
      intro hnil
      exact absurd (List.append_eq_nil_iff.1 hnil).2 (by decide)
    obtain ⟨above, habove⟩ := Path.exists_parent? habs hsteps
    unfold directory
    rw [hfile, habove]
    exact Path.isAbsolute_of_parent? habs habove
  · cases hfind

lemma isAbsolute_of_mem_fileList (hdir : c.directory.isAbsolute = true)
    (h : c.fileList t = .ok found) {f : Path} (hf : f ∈ found) : f.isAbsolute = true := by
  -- both the named files and the found ones are spelled from the root before they are resolved
  obtain ⟨p, rfl, ⟨file, -, rfl⟩ | ⟨entry, all, hfound, hp⟩⟩ := exists_of_mem_fileList h hf
  · exact (Path.isNormal_normalize (Path.isAbsolute_join_of_isAbsolute hdir _)).1
  · exact (Path.isNormal_normalize (Glob.isAbsolute_of_find? hfound p hp)).1

end Compiler

/-- The sources of a project that is spelled from the root are spelled from the root. -/
theorem Project.isAbsolute_of_mem_sources (hdir : c.directory.isAbsolute = true)
    (h : project.sources t c = .ok found) {f : Path} (hf : f ∈ found) : f.isAbsolute = true := by
  obtain ⟨stores, listed, hstores, hlisted, rfl⟩ := sources_eq_ok_iff.1 h
  rcases (mem_sources_iff.1 hf).1 with hf | hf
  · obtain ⟨pattern, -, hpattern⟩ := (mem_flatten_of_mapM hstores f).1 hf
    obtain ⟨p, ⟨found, hfound, hp⟩, -, rfl⟩ := mem_storeFiles_iff.1 hpattern
    exact (Path.isNormal_normalize (Glob.isAbsolute_of_find? hfound p hp)).1
  · exact Compiler.isAbsolute_of_mem_fileList hdir hlisted hf

end Config

end StoreBindings
