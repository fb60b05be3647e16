import StoreBindings.Proofs.Glob.Finding
import StoreBindings.Proofs.Program.Growth

/-!
# What a pattern includes and what it excludes

The same entry can be among those that are included and among those that are excluded. It is looked for
part by part in the one case, and compared with the whole text of a path in the other. So an entry
excludes whatever it includes, and may exclude more: `excluded_iff`. For entries made of names and of
`**`, with a star and characters behind it at the end, it is the same (`isTameText`).
-/

namespace StoreBindings

namespace Config

open Files (Tree)
open Glob (isStraightText isTameText describesText describesNames)

variable {t : Tree} {file f : Path} {entries : List String} {all : List Path}

/-- Two filters keep the same of a list if they agree on what is in it. -/
lemma filter_eq_filter_iff {α : Type} {p q : α → Bool} {l : List α} :
    l.filter p = l.filter q ↔ ∀ a ∈ l, p a = q a := by
  refine ⟨fun h a ha => ?_, List.filter_congr⟩
  have hmem : a ∈ l.filter p ↔ a ∈ l.filter q := by rw [h]
  rw [List.mem_filter, List.mem_filter, and_iff_right ha, and_iff_right ha] at hmem
  exact Bool.eq_iff_iff.2 hmem

namespace Compiler

/-- The configuration that a file has if it names no files and has these patterns. -/
def ofPatterns (file : Path) (includes : List String) (excludes : Option (List String)) : Compiler :=
  ⟨file, none, some includes, excludes⟩

/-- The directory that the patterns in a file are relative to. -/
def patternOf (t : Tree) (file : Path) (entry : String) : List Char :=
  expand t (ofPatterns file [] none).directory entry

/-- Whether a path is one of a source that can be listed. -/
def isCandidate (t : Tree) (p : Path) : Bool :=
  t.isFile p && Syntax.isSourceFile p && !isInPackages p

lemma fileList_ofPatterns_iff {includes : List String} {excludes : Option (List String)} :
    fileList t (ofPatterns file includes excludes) = .ok all ↔
      ∃ xs listed, exclusions t (ofPatterns file [] excludes) = .ok xs ∧
        includes.mapM (included t (ofPatterns file [] none) xs) = .ok listed ∧
        all = listed.flatten.eraseDups := by
  rw [fileList_eq_ok_iff]
  simp only [LooksAtPatterns, ofPatterns, reduceCtorEq, false_and, not_false_eq_true, not_true_eq_false,
    true_and, false_or, Option.getD_some]
  rfl

/-- What an entry adds is what is found by its pattern and not left out. -/
lemma included_ofPatterns_iff {xs : List Glob.Pattern} {entry : String} {listed : List Path} :
    included t (ofPatterns file [] none) xs entry = .ok listed ↔
      ∃ found, Glob.find? t (patternOf t file entry) = some found ∧
        listed = (found.map Path.normalize).filter fun p =>
          isCandidate t p && !xs.any fun x => Glob.matchesText x p.text := by
  unfold included patternOf isCandidate
  cases Glob.find? t (expand t (ofPatterns file [] none).directory entry) with
  | none => simp
  | some found => simp [eq_comm]

/-- What one entry lists. -/
lemma fileList_singleton_iff {entry : String} {excludes : Option (List String)} :
    fileList t (ofPatterns file [entry] excludes) = .ok all ↔
      ∃ xs found, exclusions t (ofPatterns file [] excludes) = .ok xs ∧
        Glob.find? t (patternOf t file entry) = some found ∧
        all = ((found.map Path.normalize).filter fun p =>
          isCandidate t p && !xs.any fun x => Glob.matchesText x p.text).eraseDups := by
  rw [fileList_ofPatterns_iff]
  constructor
  · rintro ⟨xs, listed, hxs, hlisted, rfl⟩
    obtain ⟨l, _, hl, hnil, rfl⟩ := List.forall₂_cons_left_iff.1 (mapM_eq_ok_iff.1 hlisted)
    obtain rfl := List.forall₂_nil_left_iff.1 hnil
    obtain ⟨found, hfound, rfl⟩ := included_ofPatterns_iff.1 hl
    exact ⟨xs, found, hxs, hfound, by rw [List.flatten_singleton]⟩
  · rintro ⟨xs, found, hxs, hfound, rfl⟩
    refine ⟨xs, _, hxs, mapM_eq_ok_iff.2 (.cons (included_ofPatterns_iff.2 ⟨found, hfound, rfl⟩) .nil), ?_⟩
    rw [List.flatten_singleton]

/-- Patterns that can be looked for can be compared with paths too. -/
lemma exists_exclusions_ofPatterns
    (h : ∀ entry ∈ entries, isStraightText (patternOf t file entry) = true) :
    ∃ xs, exclusions t (ofPatterns file [] (some entries)) = .ok xs ∧
      ∀ p : Path, (xs.any fun x => Glob.matchesText x p.text) =
        entries.any fun entry => describesText (patternOf t file entry) p := by
  simp only [exclusions_eq_ok_iff, ofPatterns, Option.getD_some]
  induction entries with
  | nil => exact ⟨[], .nil, fun _ => rfl⟩
  | cons entry entries ih =>
    obtain ⟨xs, hxs, hany⟩ := ih fun e he => h e (List.mem_cons_of_mem _ he)
    obtain ⟨s, hs, habs, hopen, -⟩ :=
      Glob.exists_search_of_isStraightText (h entry List.mem_cons_self)
    obtain ⟨hcompile, -, -⟩ := Glob.compile?_of_ofText? hs habs hopen
    refine ⟨_, .cons hcompile hxs, fun p => ?_⟩
    rw [List.any_cons, List.any_cons, hany, describesText, hcompile, Option.any_some]

/-- What one entry lists are candidates, in their normal spelling. -/
lemma isCandidate_of_mem {entry : String}
    (hall : fileList t (ofPatterns file [entry] none) = .ok all) (hf : f ∈ all) :
    f.normalize = f ∧ isCandidate t f = true := by
  obtain ⟨xs, found, hnone, -, rfl⟩ := fileList_singleton_iff.1 hall
  obtain rfl : [] = xs := Except.ok.inj hnone
  rw [List.mem_eraseDups, List.mem_filter, List.mem_map] at hf
  obtain ⟨⟨r, -, rfl⟩, hcandidate⟩ := hf
  exact ⟨Path.normalize_normalize r, by simpa using hcandidate⟩

/-- Of what one entry lists, everything is left out that straight patterns describe as a whole. -/
lemma fileList_excluding {entry : String}
    (h : ∀ entry ∈ entries, isStraightText (patternOf t file entry) = true)
    (hall : fileList t (ofPatterns file [entry] none) = .ok all) :
    fileList t (ofPatterns file [entry] (some entries)) = .ok (all.filter fun f =>
      !entries.any fun entry => describesText (patternOf t file entry) f) := by
  obtain ⟨xs, hxs, hany⟩ := exists_exclusions_ofPatterns h
  obtain ⟨ys, found, hnone, hfound, rfl⟩ := fileList_singleton_iff.1 hall
  obtain rfl : [] = ys := Except.ok.inj hnone
  refine fileList_singleton_iff.2 ⟨xs, found, hxs, hfound, ?_⟩
  rw [filter_eraseDups, List.filter_filter]
  congr 1
  refine List.filter_congr fun f _ => ?_
  rw [hany, Bool.and_comm]
  simp

/-- What straight patterns list is what they describe part by part. -/
lemma exists_listed (hu : t.Proper)
    (h : ∀ entry ∈ entries, isStraightText (patternOf t file entry) = true) :
    ∃ listed, fileList t (ofPatterns file entries none) = .ok listed ∧
      ∀ f : Path, f.normalize = f → isCandidate t f = true → (f ∈ listed ↔
        ∃ entry ∈ entries, describesNames (patternOf t file entry) f = true) := by
  -- one entry at a time: a straight pattern finds exactly the candidates whose names it describes
  have hstep : ∀ entry ∈ entries, ∃ listed,
      included t (ofPatterns file [] none) [] entry = .ok listed ∧
      ∀ f : Path, f.normalize = f → isCandidate t f = true →
        (f ∈ listed ↔ describesNames (patternOf t file entry) f = true) := by
    intro entry hentry
    obtain ⟨s, hs, -⟩ := Glob.exists_search_of_isStraightText (h entry hentry)
    have hfound : Glob.find? t (patternOf t file entry) = some (s.paths t) := by
      rw [Glob.find?, hs]
      rfl
    refine ⟨_, included_ofPatterns_iff.2 ⟨_, hfound, rfl⟩, fun f hf hcandidate => ?_⟩
    have hfile : t.isFile f = true := by
      simp only [isCandidate, Bool.and_eq_true] at hcandidate
      exact hcandidate.1.1
    rw [List.mem_filter, Glob.mem_map_normalize_iff hu (h entry hentry) hf hfile hfound]
    simp [hcandidate]
  obtain ⟨listed, hlisted⟩ := exists_mapM fun entry hentry =>
    (hstep entry hentry).imp fun _ => And.left
  refine ⟨_, fileList_ofPatterns_iff.2 ⟨[], listed, rfl, hlisted, rfl⟩, fun f hf hcandidate => ?_⟩
  rw [List.mem_eraseDups, mem_flatten_of_mapM hlisted]
  refine exists_congr fun entry => and_congr_right fun hentry => ?_
  obtain ⟨listed, hlisted, hdescribed⟩ := hstep entry hentry
  simp only [hlisted, Except.ok.injEq, exists_eq_left', hdescribed f hf hcandidate]

/-- A configuration leaves out what its entries describe as a whole, and lists what they describe part
by part. So what is left is never what the entries list by themselves, and it is all but that exactly
if no path is described as a whole only. Tame entries describe no path in this way. -/
theorem excluded_iff (hu : t.Proper)
    (hentries : ∀ entry ∈ entries, isStraightText (patternOf t file entry) = true)
    (hall : fileList t (ofPatterns file ["**/*"] none) = .ok all) : ∃ kept listed,
      fileList t (ofPatterns file ["**/*"] (some entries)) = .ok kept ∧
      fileList t (ofPatterns file entries none) = .ok listed ∧
      (∀ f ∈ kept, f ∈ all ∧ f ∉ listed) ∧
      (kept = all.filter (fun f => !listed.contains f) ↔
        ∀ f ∈ all, (∃ entry ∈ entries, describesText (patternOf t file entry) f = true) →
          ∃ entry ∈ entries, describesNames (patternOf t file entry) f = true) ∧
      ((∀ entry ∈ entries, isTameText (patternOf t file entry) = true) →
        kept = all.filter fun f => !listed.contains f) := by
  obtain ⟨listed, hlisted, hmem⟩ := exists_listed hu hentries
  have hnormal : ∀ f ∈ all, f.normalize = f := fun f hf => (isCandidate_of_mem hall hf).1
  have hlist : ∀ f ∈ all, (f ∈ listed ↔
      ∃ entry ∈ entries, describesNames (patternOf t file entry) f = true) :=
    fun f hf => hmem f (hnormal f hf) (isCandidate_of_mem hall hf).2
  -- what is described by its names is described as a text, so only the converse can fail
  have hnames : ∀ f ∈ all, (∃ entry ∈ entries, describesNames (patternOf t file entry) f = true) →
      ∃ entry ∈ entries, describesText (patternOf t file entry) f = true := by
    rintro f hf ⟨entry, hentry, hdescribed⟩
    exact ⟨entry, hentry, Glob.describesText_of_names (hentries entry hentry) (hnormal f hf) hdescribed⟩
  have hiff : all.filter (fun f => !entries.any fun entry =>
      describesText (patternOf t file entry) f) = all.filter (fun f => !listed.contains f) ↔
        ∀ f ∈ all, (∃ entry ∈ entries, describesText (patternOf t file entry) f = true) →
          ∃ entry ∈ entries, describesNames (patternOf t file entry) f = true := by
    rw [filter_eq_filter_iff]
    refine forall₂_congr fun f hf => ?_
    rw [Bool.not_inj_iff, Bool.eq_iff_iff, List.any_eq_true, List.contains_iff_mem, hlist f hf]
    exact ⟨Iff.mp, fun h => ⟨h, hnames f hf⟩⟩
  refine ⟨_, listed, fileList_excluding hentries hall, hlisted, ?_, hiff, ?_⟩
  · intro f hf
    obtain ⟨hf, hnot⟩ := List.mem_filter.1 hf
    refine ⟨hf, fun hin => ?_⟩
    have htext := hnames f hf ((hlist f hf).1 hin)
    rw [← List.any_eq_true] at htext
    rw [htext] at hnot
    cases hnot
  · refine fun htame => hiff.2 fun f hf => ?_
    rintro ⟨entry, hentry, hdescribed⟩
    exact ⟨entry, hentry, Glob.describesNames_of_text (hentries entry hentry) (htame entry hentry)
      (hnormal f hf) hdescribed⟩

end Compiler

end Config

namespace Sample

open Files (Tree)

/-- The files of a project with one source, two directories below its root. -/
def nested : Tree :=
  ⟨.ofList [
    (["app".toList], .directory),
    (["app", "src"].map String.toList, .directory),
    (["app", "src", "deep"].map String.toList, .directory),
    (["app", "src", "deep", "a.spec.ts"].map String.toList, .file "".toUTF8)]⟩

/-- The compiler configuration of the project. -/
def configuration : Path := .ofString "/app/tsconfig.json"

end Sample

namespace Config.Compiler

open Glob (isStraightText isTameText)

/-- A star behind `**` leaves out what it lists. -/
theorem excluded_of_ending : ∃ all kept listed, Sample.nested.Proper ∧
    (∀ entry ∈ ["**/*.spec.ts"],
      isStraightText (patternOf Sample.nested Sample.configuration entry) = true) ∧
    fileList Sample.nested (ofPatterns Sample.configuration ["**/*"] none) = .ok all ∧
    fileList Sample.nested (ofPatterns Sample.configuration ["**/*"] (some ["**/*.spec.ts"])) =
      .ok kept ∧
    fileList Sample.nested (ofPatterns Sample.configuration ["**/*.spec.ts"] none) = .ok listed ∧
    kept = all.filter (fun f => !listed.contains f) ∧ all.length = 1 := by
  have heval : ((fileList Sample.nested (ofPatterns Sample.configuration ["**/*"] none)).toOption.any
      fun all => all.length == 1) = true := by decide +kernel
  have hproper : Sample.nested.Proper := by decide +kernel
  have hstraight : ∀ entry ∈ ["**/*.spec.ts"],
      isStraightText (patternOf Sample.nested Sample.configuration entry) = true := by decide +kernel
  have htame : ∀ entry ∈ ["**/*.spec.ts"],
      isTameText (patternOf Sample.nested Sample.configuration entry) = true := by decide +kernel
  obtain ⟨all, hall, hlength⟩ := exists_of_toOption_any heval
  obtain ⟨kept, listed, hkept, hlisted, -, -, hrest⟩ := excluded_iff hproper hstraight hall
  exact ⟨all, kept, listed, hproper, hstraight, hall, hkept, hlisted, hrest htame,
    beq_iff_eq.1 hlength⟩

/-- A star behind a name leaves out what is further down, and does not list it. -/
theorem excluded_ne_of_star : ∃ all kept listed,
    fileList Sample.nested (ofPatterns Sample.configuration ["**/*"] none) = .ok all ∧
    fileList Sample.nested (ofPatterns Sample.configuration ["**/*"] (some ["src/*.ts"])) = .ok kept ∧
    fileList Sample.nested (ofPatterns Sample.configuration ["src/*.ts"] none) = .ok listed ∧
    kept ≠ all.filter fun f => !listed.contains f := by
  have heval : ((fileList Sample.nested (ofPatterns Sample.configuration ["**/*"] none)).toOption.any
      fun all => (fileList Sample.nested
          (ofPatterns Sample.configuration ["**/*"] (some ["src/*.ts"]))).toOption.any fun kept =>
        (fileList Sample.nested (ofPatterns Sample.configuration ["src/*.ts"] none)).toOption.any
          fun listed => decide (kept ≠ all.filter fun f => !listed.contains f)) = true := by
    decide +kernel
  obtain ⟨all, hall, h⟩ := exists_of_toOption_any heval
  obtain ⟨kept, hkept, h⟩ := exists_of_toOption_any h
  obtain ⟨listed, hlisted, h⟩ := exists_of_toOption_any h
  exact ⟨all, kept, listed, hall, hkept, hlisted, of_decide_eq_true h⟩

end Config.Compiler

end StoreBindings
