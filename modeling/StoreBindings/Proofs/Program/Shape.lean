import Mathlib.Data.List.Basic
import StoreBindings.Proofs.Files.Shape
import StoreBindings.Proofs.Program.Loading

/-!
# Which sources there are is decided by the shape of a tree

Looking for sources depends on no content, so it finds the same paths in two trees of one shape:
`sources_congr`. So a program is the same as before if files have been given other contents that are none
of its sources: `load_congr`.
-/

namespace StoreBindings

namespace Glob.Search

open Files (Tree)

variable {t t' : Tree}

lemma contents_congr (h : t.SameShape t') : contents t' = contents t := by
  funext dir
  unfold contents
  rw [Tree.locate_congr h]
  cases t.locate dir with
  | error e => rfl
  | ok place => simp only [Tree.namesIn_congr h]

lemma result_congr (h : t.SameShape t') (s : Search) : s.result t' = s.result t := by
  funext p
  unfold result
  rw [Tree.isDirectory_congr h]

/-- The four ways in which a walk goes on, at one depth. -/
lemma walk_congr (h : t.SameShape t') (s : Search) (fuel : Nat) :
    s.enter t' fuel = s.enter t fuel ∧ s.proceed t' fuel = s.proceed t fuel ∧
      s.visit t' fuel = s.visit t fuel ∧ s.named t' fuel = s.named t fuel := by
  induction fuel with
  | zero =>
    refine ⟨?_, ?_, ?_, ?_⟩ <;> funext ps path <;> cases ps <;>
      simp only [enter, proceed, visit, named]
  | succ fuel ih =>
    obtain ⟨henter, hproceed, hvisit, hnamed⟩ := ih
    -- one step of each goes on by steps of the others, at a smaller depth
    refine ⟨?_, ?_, ?_, ?_⟩ <;> funext ps path <;> cases ps <;>
      simp only [enter, proceed, visit, named, henter, hproceed, hvisit, hnamed,
        result_congr h, contents_congr h, Tree.isDirectory_congr h, Tree.reaches_congr h]

lemma find?_congr (h : t.SameShape t') : find? t' = find? t := by
  have hsize : t'.entries.size = t.entries.size := by
    have hlength := congrArg List.length h.keys
    simpa [OrderedMap.keys, OrderedMap.size] using hlength
  funext pattern
  unfold find? paths
  rw [hsize]
  congr 1
  funext s
  rw [(walk_congr h s _).1]

end Glob.Search

namespace Program

open Files (Tree)
open Config (Project Compiler)

variable {t t' : Tree}

theorem sources_congr (h : t.SameShape t') (project : Project) (c : Compiler) :
    project.sources t' c = project.sources t c := by
  -- from the innermost function that looks at the tree outwards
  have hexpand : Compiler.expand t' = Compiler.expand t := by
    funext dir pattern
    unfold Compiler.expand
    rw [Tree.isDirectory_congr h]
  have hexclusions : Compiler.exclusions t' = Compiler.exclusions t := by
    funext c
    unfold Compiler.exclusions
    rw [hexpand]
  have hincluded : Compiler.included t' = Compiler.included t := by
    funext c excluded pattern
    unfold Compiler.included
    rw [hexpand, Glob.Search.find?_congr h, Tree.isFile_congr h]
  have hnamed : Compiler.named t' = Compiler.named t := by
    funext c
    unfold Compiler.named
    rw [Tree.isFile_congr h]
  have hlist : Compiler.fileList t' = Compiler.fileList t := by
    funext c
    unfold Compiler.fileList
    rw [hexclusions, hincluded, hnamed]
  have hstores : Project.storeFiles t' = Project.storeFiles t := by
    funext project pattern
    unfold Project.storeFiles
    rw [Glob.Search.find?_congr h, Tree.isFile_congr h]
  unfold Project.sources
  rw [hstores, hlist]

lemma read_congr {paths : List Path} (h : ∀ p ∈ paths, t'.read p = t.read p) :
    Program.read t' paths = Program.read t paths := by
  unfold Program.read
  congr 1
  refine List.filterMap_congr ?_
  intro p hp
  unfold Tree.readText
  rw [h p hp]

/-- The same program is read from a tree of the same shape in which the sources have the same
contents. -/
theorem load_congr (h : t.SameShape t') {project : Project} {c : Compiler}
    (hsources : ∀ paths, project.sources t c = .ok paths →
      ∀ p ∈ paths, t'.at? p.target = t.at? p.target) :
    load t' project c = load t project c := by
  unfold load
  rw [sources_congr h]
  cases hs : project.sources t c with
  | error e => rfl
  | ok paths =>
    simp only [bind, Except.bind]
    rw [read_congr fun p hp => Tree.read_congr h (hsources paths hs p hp)]

end Program

end StoreBindings
