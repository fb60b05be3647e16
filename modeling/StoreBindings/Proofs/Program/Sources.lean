import StoreBindings.Proofs.Glob.Finding
import StoreBindings.Proofs.OrderedMap
import StoreBindings.Proofs.Path.Climbing
import StoreBindings.Proofs.Program.Growth

/-!
# What the sources of a project are

The compiler configuration lists what it names and what its patterns find: `mem_fileList_iff`. The sources
of a project are what its own patterns find and what the compiler configuration lists, but for what is
generated: `mem_sources_iff`. Each of them is brought to its normal spelling before it is added, so they
are pairwise different paths, whichever entries name a file and however they spell it: `Indexed`,
`indexed_of_sources`. Below the root a file has one normal spelling, so each file is there once.
-/

namespace StoreBindings

open Files (Tree)
open Config (Project Compiler)

variable {t : Tree} {project : Project} {c : Compiler} {found listed : List Path}

/-! ## What is listed -/

namespace Config.Compiler

variable {p f : Path}

/-- A file that the configuration names is there. -/
def IsNamed (t : Tree) (c : Compiler) (p : Path) : Prop :=
  t.isFile p = true ∧ ∃ file ∈ c.files.getD [], (c.directory.joinText file).normalize = p

/-- An entry for what is included finds a path, and no entry leaves it out. -/
def IsFound (t : Tree) (c : Compiler) (p : Path) : Prop :=
  c.LooksAtPatterns ∧ ∃ xs, exclusions t c = .ok xs ∧
    ∃ entry ∈ c.includes.getD ["**/*"], ∃ found, included t c xs entry = .ok found ∧ p ∈ found

lemma mem_named_iff : p ∈ named t c ↔ IsNamed t c p := by
  unfold named IsNamed
  rw [List.mem_filter, List.mem_map, and_comm]

/-- What is listed has been named or found. -/
theorem mem_fileList_iff (h : fileList t c = .ok listed) :
    p ∈ listed ↔ IsNamed t c p ∨ IsFound t c p := by
  rcases fileList_eq_ok_iff.1 h with ⟨hnot, rfl⟩ | ⟨hlooked, xs, all, hxs, hall, rfl⟩
  · have hnone : ¬IsFound t c p := fun hfound => hnot hfound.1
    rw [List.mem_eraseDups, mem_named_iff, or_iff_left hnone]
  · rw [List.mem_eraseDups, List.mem_append, mem_named_iff, mem_flatten_of_mapM hall]
    unfold IsFound
    simp only [hlooked, hxs, Except.ok.injEq, exists_eq_left', true_and]

/-- Each path that is listed is the normal form of one that is named or that a pattern finds. -/
lemma exists_of_mem_fileList (h : fileList t c = .ok listed) (hf : f ∈ listed) :
    ∃ p, p.normalize = f ∧ ((∃ file ∈ c.files.getD [], c.directory.joinText file = p) ∨
      ∃ entry all, Glob.find? t (expand t c.directory entry) = some all ∧ p ∈ all) := by
  rcases (mem_fileList_iff h).1 hf with ⟨-, file, hfile, hnormal⟩ | ⟨-, xs, -, entry, -, all, hall, hf⟩
  · exact ⟨_, hnormal, .inl ⟨file, hfile, rfl⟩⟩
  · unfold included at hall
    split at hall
    · cases hall
    · next all' hfound =>
      cases hall
      obtain ⟨p, hp, rfl⟩ := List.mem_map.1 (List.mem_filter.1 hf).1
      exact ⟨p, rfl, .inr ⟨entry, all', hfound, hp⟩⟩

lemma normalize_of_mem_fileList (h : fileList t c = .ok listed) (hf : f ∈ listed) :
    f.normalize = f := by
  obtain ⟨p, rfl, -⟩ := exists_of_mem_fileList h hf
  exact Path.normalize_normalize p

end Config.Compiler

/-! ## Sources -/

/-- A pattern for stores, below the directory of the stores. -/
def Config.Project.whole (project : Project) (pattern : String) : List Char :=
  ((project.storesDirectory.joinText "**").joinText pattern).text

/-- A pattern for stores finds a path. -/
def Config.Project.Finds (project : Project) (t : Tree) (pattern : String) (p : Path) : Prop :=
  ∃ found, Glob.find? t (project.whole pattern) = some found ∧ p ∈ found

/-- The sources of a project, each once. -/
structure Indexed (t : Tree) (project : Project) (c : Compiler) (found : List Path) : Prop where
  distinct : found.Pairwise fun f g => f.components ≠ g.components
  normal : ∀ f ∈ found, f.normalize = f
  outside : ∀ f ∈ found, ¬f.LiesIn project.generatedDirectory
  /-- What a pattern finds is there, unless it is generated. -/
  found_of_pattern : ∀ pattern ∈ project.filePatterns, ∀ p, project.Finds t pattern p →
    t.isFile p = true → ¬p.LiesIn project.generatedDirectory → p.normalize ∈ found
  /-- So a file that a pattern describes part by part is there. -/
  found_of_described : t.Proper → ∀ pattern ∈ project.filePatterns,
    Glob.isStraightText (project.whole pattern) = true → ∀ f, f.normalize = f → t.isFile f = true →
      Glob.describesNames (project.whole pattern) f = true →
        ¬f.LiesIn project.generatedDirectory → f ∈ found
  /-- What the compiler configuration lists is there, unless it is generated. -/
  found_of_listed : ∀ listed, c.fileList t = .ok listed → ∀ p ∈ listed,
    ¬p.LiesIn project.generatedDirectory → p.normalize ∈ found
  /-- Nothing else is there. -/
  origin : ∀ f ∈ found, (∃ pattern ∈ project.filePatterns, ∃ p, project.Finds t pattern p ∧
    t.isFile p = true ∧ p.normalize = f) ∨ ∃ listed, c.fileList t = .ok listed ∧ f ∈ listed
  /-- Two sources that lead to one place below the root are one. -/
  once : ∀ f ∈ found, ∀ g ∈ found, f.IsRooted → g.IsRooted → f.target = g.target → f = g

lemma isGenerated_iff_liesIn
    (h : project.generatedDirectory.normalize.components = project.generatedDirectory.components)
    (p : Path) : project.isGenerated p = true ↔ p.LiesIn project.generatedDirectory := by
  unfold Project.isGenerated Path.LiesIn Path.startsWith
  rw [h]

lemma mem_storeFiles_iff {pattern : String} {f : Path} :
    (∃ stores, project.storeFiles t pattern = .ok stores ∧ f ∈ stores) ↔
      ∃ p, project.Finds t pattern p ∧ t.isFile p = true ∧ p.normalize = f := by
  unfold Project.storeFiles Project.Finds Project.whole
  cases Glob.find? t ((project.storesDirectory.joinText "**").joinText pattern).text with
  | none => simp
  | some all => simp [and_assoc]

/-- A file that a pattern describes part by part is found, in its normal spelling. -/
lemma finds_of_describesNames (hproper : t.Proper) {pattern : String} {stores : List Path}
    (h : project.storeFiles t pattern = .ok stores)
    (hstraight : Glob.isStraightText (project.whole pattern) = true) {f : Path}
    (hf : f.normalize = f) (hfile : t.isFile f = true)
    (hdescribed : Glob.describesNames (project.whole pattern) f = true) : f ∈ stores := by
  obtain ⟨s, hs, -, -, hparts⟩ := Glob.exists_search_of_isStraightText hstraight
  have hfound : Glob.find? t (project.whole pattern) = some (s.paths t) := by
    rw [Glob.find?, hs]
    rfl
  have hreach : ∀ r ∈ s.paths t, t.reaches r = true := fun r hr =>
    Glob.Search.reaches_of_mem_paths hproper hparts hr
  have hstores : stores = ((s.paths t).filter t.isFile).map Path.normalize := by
    unfold Project.storeFiles at h
    rw [Project.whole] at hfound
    rw [hfound] at h
    exact (Except.ok.inj h).symm
  rw [hstores, Project.map_filter_isFile hproper hreach, List.mem_filter]
  exact ⟨(Glob.mem_map_normalize_iff hproper hstraight hf hfile hfound).2 hdescribed, by simp [hfile]⟩

/-- A path is a source if a pattern for stores finds it or it is listed, unless it is generated. -/
theorem mem_sources_iff {stores : List (List Path)} {f : Path} :
    f ∈ ((stores.flatten ++ listed).eraseDups.filter fun p => !project.isGenerated p) ↔
      (f ∈ stores.flatten ∨ f ∈ listed) ∧ project.isGenerated f = false := by
  rw [List.mem_filter, List.mem_eraseDups, List.mem_append, Bool.not_eq_true']

lemma normalize_of_mem_sources (h : project.sources t c = .ok found) {f : Path} (hf : f ∈ found) :
    f.normalize = f := by
  obtain ⟨stores, listed, hstores, hlisted, rfl⟩ := Project.sources_eq_ok_iff.1 h
  rcases (mem_sources_iff.1 hf).1 with hf | hf
  · obtain ⟨pattern, -, hpattern⟩ := (mem_flatten_of_mapM hstores f).1 hf
    obtain ⟨p, -, -, rfl⟩ := mem_storeFiles_iff.1 hpattern
    exact Path.normalize_normalize p
  · exact Compiler.normalize_of_mem_fileList hlisted hf

/-- Sources are different as paths, and not only as texts. -/
lemma distinct_of_sources (h : project.sources t c = .ok found) :
    found.Pairwise fun f g => f.components ≠ g.components := by
  have hnormal := fun f (hf : f ∈ found) => normalize_of_mem_sources h hf
  obtain ⟨stores, listed, -, -, rfl⟩ := Project.sources_eq_ok_iff.1 h
  -- two paths with the same components have one normal spelling
  refine ((nodup_eraseDups _).filter _).imp_of_mem fun {f g} hf hg hne hsame => hne ?_
  rw [← hnormal f hf, ← hnormal g hg, Path.normalize, hsame]
  rfl

/-- The sources are indexed, each once. -/
theorem indexed_of_sources
    (hgen : project.generatedDirectory.normalize.components = project.generatedDirectory.components)
    (h : project.sources t c = .ok found) : Indexed t project c found := by
  have hnormal := fun f (hf : f ∈ found) => normalize_of_mem_sources h hf
  have hdistinct := distinct_of_sources h
  obtain ⟨stores, listed, hstores, hlisted, rfl⟩ := Project.sources_eq_ok_iff.1 h
  have hout : ∀ p : Path, project.isGenerated p = false ↔ ¬p.LiesIn project.generatedDirectory :=
    fun p => by rw [← isGenerated_iff_liesIn hgen, Bool.not_eq_true]
  have hpattern : ∀ f, f ∈ stores.flatten ↔ ∃ pattern ∈ project.filePatterns, ∃ p,
      project.Finds t pattern p ∧ t.isFile p = true ∧ p.normalize = f := by
    intro f
    rw [mem_flatten_of_mapM hstores]
    simp only [mem_storeFiles_iff]
  -- first what is found by a pattern or listed is in, and then nothing else is, and no file twice
  refine ⟨hdistinct, hnormal, fun f hf => (hout f).1 (mem_sources_iff.1 hf).2, ?_, ?_, ?_, ?_, ?_⟩
  · intro pattern hp p hfinds hfile hlies
    refine mem_sources_iff.2 ⟨.inl ((hpattern _).2 ⟨pattern, hp, p, hfinds, hfile, rfl⟩), ?_⟩
    rw [Project.isGenerated_normalize]
    exact (hout p).2 hlies
  · intro hproper pattern hp hstraight f hf hfile hdescribed hlies
    obtain ⟨found, hfound⟩ := exists_of_mem_mapM hstores hp
    have hin := finds_of_describesNames hproper hfound hstraight hf hfile hdescribed
    exact mem_sources_iff.2
      ⟨.inl ((mem_flatten_of_mapM hstores f).2 ⟨pattern, hp, found, hfound, hin⟩), (hout f).2 hlies⟩
  · intro listed' hlisted' p hp hlies
    cases hlisted.symm.trans hlisted'
    rw [Compiler.normalize_of_mem_fileList hlisted hp]
    exact mem_sources_iff.2 ⟨.inr hp, (hout p).2 hlies⟩
  · intro f hf
    exact (mem_sources_iff.1 hf).1.imp (hpattern f).1 fun hin => ⟨listed, hlisted, hin⟩
  · intro f hf g hg hfr hgr htarget
    rw [← hnormal f hf, ← hnormal g hg]
    exact hfr.normalize_congr hgr htarget

end StoreBindings
