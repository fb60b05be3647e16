import StoreBindings.Proofs.Program.Exclusion
import StoreBindings.Proofs.Program.Sources

/-!
# Which files are listed

The compiler configuration lists the files that it names and those that its patterns find. A path is found
if an entry finds it among the candidates and no entry leaves it out: `isFound_iff`. So all that is listed
exists, and what is found are sources outside of the installed packages. A file that is named is listed
whatever its name says: all that is listed are sources exactly if all files that are named and exist are,
see `listed_iff`.
-/

namespace StoreBindings.Config.Compiler

open Files (Tree)
open Glob (describesText)

variable {t : Tree} {c : Compiler} {listed : List Path} {p : Path}

/-- The endings of the names of sources. -/
def sourceEndings : List (List Char) := [".ts".toList, ".tsx".toList, ".mts".toList]

/-- The name of a path is that of a source. -/
def IsSource (p : Path) : Prop := ∃ name, p.fileName? = some name ∧ ∃ e ∈ sourceEndings, e <:+ name

lemma isSourceFile_iff : Syntax.isSourceFile p = true ↔ IsSource p := by
  unfold Syntax.isSourceFile IsSource sourceEndings
  cases p.fileName? with
  | none => simp
  | some name => simp

lemma isInPackages_eq_false_iff :
    isInPackages p = false ↔ .name "node_modules".toList ∉ p.components := by
  unfold isInPackages
  rw [← Bool.not_eq_true, List.contains_iff_mem]

/-! ## What is found -/

/-- What an entry finds, in normal spelling. -/
def finds? (t : Tree) (dir : Path) (entry : String) : Option (List Path) :=
  (Glob.find? t (expand t dir entry)).map (List.map Path.normalize)

lemma exists_exclusions_iff : (∃ xs, exclusions t c = .ok xs) ↔
    ∀ entry ∈ c.excludes.getD [], (Glob.compile? (expand t c.directory entry)).isSome = true := by
  simp only [exclusions_eq_ok_iff]
  induction c.excludes.getD [] with
  | nil => simp
  | cons entry entries ih =>
    rw [List.forall_mem_cons, ← ih, Option.isSome_iff_exists]
    simp only [List.forall₂_cons_left_iff]
    constructor
    · rintro ⟨_, x, xs, hx, hxs, rfl⟩
      exact ⟨⟨x, hx⟩, xs, hxs⟩
    · rintro ⟨⟨x, hx⟩, xs, hxs⟩
      exact ⟨_, x, xs, hx, hxs, rfl⟩

/-- What is left out is what the entries describe as a whole. -/
lemma any_matchesText_exclusions {xs : List Glob.Pattern} (h : exclusions t c = .ok xs) (p : Path) :
    (xs.any fun x => Glob.matchesText x p.text) =
      (c.excludes.getD []).any fun entry => describesText (expand t c.directory entry) p := by
  rw [exclusions_eq_ok_iff] at h
  generalize c.excludes.getD [] = entries at h ⊢
  induction h with
  | nil => rfl
  | cons hx _ ih => rw [List.any_cons, List.any_cons, ih, describesText, hx, Option.any_some]

/-- What an entry includes are the candidates among what it finds, but for those that are left out. -/
lemma included_eq_ok_iff {xs : List Glob.Pattern} {entry : String} {found : List Path} :
    included t c xs entry = .ok found ↔ ∃ all, finds? t c.directory entry = some all ∧
      (all.filter fun p => isCandidate t p && !xs.any fun x => Glob.matchesText x p.text) = found := by
  unfold included finds? isCandidate
  cases Glob.find? t (expand t c.directory entry) with
  | none => simp
  | some all => simp

/-- A path is found by an entry if it is that of a candidate, and no entry leaves it out. -/
theorem isFound_iff : IsFound t c p ↔ c.LooksAtPatterns ∧ (∃ xs, exclusions t c = .ok xs) ∧
    (∃ entry ∈ c.includes.getD ["**/*"], ∃ found, finds? t c.directory entry = some found ∧
      p ∈ found) ∧ isCandidate t p = true ∧
    ∀ entry ∈ c.excludes.getD [], describesText (expand t c.directory entry) p = false := by
  -- the exclusions are read once, and an entry lists what it finds less what they match
  have hincluded : ∀ {xs : List Glob.Pattern} {entry : String}, exclusions t c = .ok xs →
      ((∃ found, included t c xs entry = .ok found ∧ p ∈ found) ↔
        (∃ found, finds? t c.directory entry = some found ∧ p ∈ found) ∧ isCandidate t p = true ∧
          ∀ entry ∈ c.excludes.getD [], describesText (expand t c.directory entry) p = false) := by
    intro xs entry hxs
    have hkept : (xs.any fun x => Glob.matchesText x p.text) = false ↔
        ∀ entry ∈ c.excludes.getD [], describesText (expand t c.directory entry) p = false := by
      simp only [any_matchesText_exclusions hxs p, List.any_eq_false, Bool.not_eq_true]
    rw [← hkept, ← Bool.not_eq_true', ← Bool.and_eq_true]
    constructor
    · rintro ⟨found, h, hp⟩
      obtain ⟨all, hall, rfl⟩ := included_eq_ok_iff.1 h
      exact ⟨⟨all, hall, (List.mem_filter.1 hp).1⟩, (List.mem_filter.1 hp).2⟩
    · rintro ⟨⟨all, hall, hp⟩, hcandidate⟩
      exact ⟨_, included_eq_ok_iff.2 ⟨all, hall, rfl⟩, List.mem_filter.2 ⟨hp, hcandidate⟩⟩
  unfold IsFound
  refine and_congr_right fun _ => ?_
  constructor
  · rintro ⟨xs, hxs, entry, hentry, h⟩
    obtain ⟨hfound, hrest⟩ := (hincluded hxs).1 h
    exact ⟨⟨xs, hxs⟩, ⟨entry, hentry, hfound⟩, hrest⟩
  · rintro ⟨⟨xs, hxs⟩, ⟨entry, hentry, hfound⟩, hrest⟩
    exact ⟨xs, hxs, entry, hentry, (hincluded hxs).2 ⟨hfound, hrest⟩⟩

/-- Files can be listed if all entries that are looked at are patterns. -/
lemma exists_fileList_iff : (∃ listed, fileList t c = .ok listed) ↔
    (c.LooksAtPatterns → (∃ xs, exclusions t c = .ok xs) ∧
      ∀ entry ∈ c.includes.getD ["**/*"], (finds? t c.directory entry).isSome = true) := by
  have hincluded : ∀ xs entry, (∃ found, included t c xs entry = .ok found) ↔
      (finds? t c.directory entry).isSome = true := by
    intro xs entry
    rw [Option.isSome_iff_exists]
    constructor
    · rintro ⟨found, h⟩
      obtain ⟨all, hall, -⟩ := included_eq_ok_iff.1 h
      exact ⟨all, hall⟩
    · rintro ⟨all, hall⟩
      exact ⟨_, included_eq_ok_iff.2 ⟨all, hall, rfl⟩⟩
  simp only [fileList_eq_ok_iff]
  constructor
  · rintro ⟨listed, ⟨hnot, -⟩ | ⟨-, xs, all, hxs, hall, -⟩⟩ hlooked
    · exact absurd hlooked hnot
    · refine ⟨⟨xs, hxs⟩, fun entry hentry => ?_⟩
      exact (hincluded xs entry).1 (exists_of_mem_mapM hall hentry)
  · intro h
    by_cases hlooked : c.LooksAtPatterns
    · obtain ⟨⟨xs, hxs⟩, hfinds⟩ := h hlooked
      obtain ⟨all, hall⟩ := exists_mapM fun entry hentry =>
        (hincluded xs entry).2 (hfinds entry hentry)
      exact ⟨_, .inr ⟨hlooked, xs, all, hxs, hall, rfl⟩⟩
    · exact ⟨_, .inl ⟨hlooked, rfl⟩⟩

/-! ## What is listed -/

/-- Each path that is found is that of a source, outside of the installed packages. -/
lemma IsFound.isSource (h : IsFound t c p) :
    t.isFile p = true ∧ IsSource p ∧ .name "node_modules".toList ∉ p.components := by
  obtain ⟨-, -, -, hcandidate, -⟩ := isFound_iff.1 h
  unfold isCandidate at hcandidate
  simp only [Bool.and_eq_true, Bool.not_eq_true'] at hcandidate
  obtain ⟨⟨hfile, hsource⟩, houtside⟩ := hcandidate
  exact ⟨hfile, isSourceFile_iff.1 hsource, isInPackages_eq_false_iff.1 houtside⟩

/-- All that is listed exists and was named or found, and what was found are sources outside of the
installed packages. What was named is listed with any name, so only sources are listed if and only if
only sources are named. -/
theorem listed_iff (h : fileList t c = .ok listed) :
    (∀ p ∈ listed, t.isFile p = true ∧ (IsNamed t c p ∨ IsFound t c p)) ∧
      (∀ p, IsFound t c p → IsSource p ∧ .name "node_modules".toList ∉ p.components) ∧
      ((∀ p ∈ listed, IsSource p) ↔ ∀ p, IsNamed t c p → IsSource p) := by
  refine ⟨fun p hp => ?_, fun p hfound => hfound.isSource.2, ?_⟩
  · have hmem := (mem_fileList_iff h).1 hp
    exact ⟨hmem.elim And.left fun hfound => hfound.isSource.1, hmem⟩
  · constructor
    · intro hall p hnamed
      exact hall p ((mem_fileList_iff h).2 (.inl hnamed))
    · intro hnamed p hp
      rcases (mem_fileList_iff h).1 hp with hp | hp
      · exact hnamed p hp
      · exact hp.isSource.2.1

end StoreBindings.Config.Compiler

namespace StoreBindings.Sample

open Files (Tree)

/-- The files of a project with one source and one file that is none. -/
def described : Tree :=
  ⟨.ofList [
    (["app".toList], .directory),
    (["app", "package.json"].map String.toList, .file "".toUTF8),
    (["app", "src"].map String.toList, .directory),
    (["app", "src", "a.ts"].map String.toList, .file "".toUTF8)]⟩

/-- The configuration that names some files of the project and includes a directory. -/
def naming (files : List String) : Config.Compiler :=
  ⟨configuration, some files, some ["src"], none⟩

end StoreBindings.Sample

namespace StoreBindings.Config.Compiler

/-- The source of the project is listed once, whether it is named or found. -/
theorem listed_of_source : ∃ listed,
    fileList Sample.described (Sample.naming ["src/a.ts"]) = .ok listed ∧
      listed = [.ofString "/app/src/a.ts"] ∧
      ∀ p, IsNamed Sample.described (Sample.naming ["src/a.ts"]) p → IsSource p := by
  have heval : ((fileList Sample.described (Sample.naming ["src/a.ts"])).toOption.any fun listed =>
      decide (listed = [.ofString "/app/src/a.ts"])) = true := by decide +kernel
  obtain ⟨listed, hlisted, h⟩ := exists_of_toOption_any heval
  have hone := of_decide_eq_true h
  refine ⟨listed, hlisted, hone, (listed_iff hlisted).2.2.1 ?_⟩
  intro p hp
  rw [hone, List.mem_singleton] at hp
  rw [hp, ← isSourceFile_iff]
  decide +kernel

/-- A file that is no source is listed if it is named. -/
theorem listed_of_named : ∃ listed,
    fileList Sample.described (Sample.naming ["package.json"]) = .ok listed ∧
      Path.ofString "/app/package.json" ∈ listed ∧ ¬∀ p ∈ listed, IsSource p := by
  have heval : ((fileList Sample.described (Sample.naming ["package.json"])).toOption.any
      fun listed => decide (Path.ofString "/app/package.json" ∈ listed)) = true := by decide +kernel
  obtain ⟨listed, hlisted, h⟩ := exists_of_toOption_any heval
  have hmem := of_decide_eq_true h
  refine ⟨listed, hlisted, hmem, fun hall => ?_⟩
  have hsource := isSourceFile_iff.2 (hall _ hmem)
  revert hsource
  decide +kernel

end StoreBindings.Config.Compiler
