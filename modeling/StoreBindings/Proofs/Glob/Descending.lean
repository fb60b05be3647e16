import StoreBindings.Proofs.Files.Extending
import StoreBindings.Proofs.Glob.Parts

/-!
# Walks that only go down

A walk in a proper tree takes one name after the other. Where no part of the pattern leads up, everything
that it finds is below the path where it begins, and something is there: `goesDown_walk`.
-/

namespace StoreBindings

/-! ## Going down -/

/-- A path comes from another by names that do not lead up. -/
inductive Path.Down (p : Path) : Path → Prop
  | refl : Down p p
  | step {q : Path} {name : List Char} (h : Down p q) (hslash : '/' ∉ name)
      (hup : name ≠ ['.', '.']) : Down p (q.join ⟨name⟩)

namespace Path.Down

variable {p q r : Path}

/-- Going down further is going down. -/
lemma trans (h : Down p q) (h' : Down q r) : Down p r := by
  induction h' with
  | refl => exact h
  | step _ hslash hup ih => exact .step ih hslash hup

/-- Names that do not lead up do not climb above the root. -/
lemma isRooted (h : Down p q) (hp : p.IsRooted) : q.IsRooted := by
  induction h with
  | refl => exact hp
  | step _ hslash hup ih => exact ih.join hslash fun he => absurd he hup

/-- What is further down has a text. -/
lemma text_ne_nil (h : Down p q) (hp : p.text ≠ []) : q.text ≠ [] := by
  induction h with
  | refl => exact hp
  | step _ _ _ ih => exact text_join_ne_nil (.inl ih)

/-- What is further down is at a place below. -/
lemma target_prefix (h : Down p q) (hp : p.text ≠ []) : p.target <+: q.target := by
  induction h with
  | refl => exact List.prefix_refl _
  | @step q name hq hslash hup ih =>
    rw [target_join (hq.text_ne_nil hp) hslash]
    unfold Files.descend
    rw [if_neg hup]
    split
    · exact ih
    · exact ih.trans (List.prefix_append ..)

/-- Below a place at which there is nothing there is nothing. -/
lemma isThere_eq_false {t : Files.Tree} (hproper : t.Proper) (h : Down p q) (hp : p.text ≠ [])
    (hnot : t.isThere p = false) : t.isThere q = false := by
  rw [← Bool.not_eq_true] at hnot ⊢
  exact fun hq => hnot (hproper.isSome_of_prefix (h.target_prefix hp) hq)

end Path.Down

/-! ## The parts of a pattern -/

namespace Glob

open Files (Tree IsName descend)

/-- No part of a pattern leads up, or has a slash in it. -/
def Descends (ps : List Pattern) : Prop := ∀ p ∈ ps, .char '/' ∉ p ∧ leadsUp p = false

lemma Descends.tail {p : Pattern} {rest : List Pattern} (h : Descends (p :: rest)) :
    Descends rest := fun q hq => h q (List.mem_cons_of_mem _ hq)

namespace Search

variable {s : Search} {t t' u : Tree} {p : Pattern} {rest ps : List Pattern} {dir path : Path}
  {name : List Char} {fuel fuel' : Nat}

/-- What is left of the parts is the end of them. -/
lemma afterRecursive_suffix (ps : List Pattern) : afterRecursive ps <:+ ps := by
  induction ps with
  | nil => exact List.suffix_refl _
  | cons p ps ih =>
    rw [afterRecursive]
    split
    · exact ih.trans (List.suffix_cons p ps)
    · exact List.suffix_refl _

/-- Behind the first part that is left there are fewer than before. -/
lemma length_afterRecursive {q : Pattern} {more : List Pattern}
    (h : afterRecursive rest = q :: more) : more.length < rest.length := by
  have hle := (afterRecursive_suffix rest).length_le
  rw [h, List.length_cons] at hle
  exact hle

lemma descends_head (h : Descends (p :: rest)) : Descends [p] := by
  intro x hx
  rw [List.mem_singleton.1 hx]
  exact h p List.mem_cons_self

/-- The parts that a walk goes on with behind those that go down to all directories. -/
lemma descends_afterRecursive (h : Descends (p :: rest)) {q : Pattern} {more : List Pattern}
    (hmore : afterRecursive rest = q :: more) :
    Descends (q :: more) ∧ Descends (p :: q :: more) := by
  have hafter : Descends (q :: more) := by
    intro x hx
    rw [← hmore] at hx
    exact h.tail x ((afterRecursive_suffix rest).subset hx)
  refine ⟨hafter, fun x hx => ?_⟩
  rcases List.mem_cons.1 hx with rfl | hx
  · exact h _ List.mem_cons_self
  · exact hafter x hx

/-- The points lead from a directory to a directory. -/
lemma reaches_join_point (hu : u.Proper) (hdir : dir.text ≠ []) (hslash : '/' ∉ name)
    (hpoint : name = ['.'] ∨ name = ['.', '.']) :
    u.reaches (dir.join ⟨name⟩) = u.isDirectory dir := by
  rw [Bool.eq_iff_iff, Tree.reaches_join_iff hdir hslash]
  refine ⟨And.left, fun hd => ⟨hd, ?_⟩⟩
  unfold Tree.isThere
  rw [Path.target_join hdir hslash]
  rcases hu.descend_cases (Tree.isDirectory_iff.1 hd).2 name with hd' | ⟨-, -, hdot, hup⟩
  · rw [hd']
    rfl
  · exact absurd hpoint (by simp [hdot, hup])

/-- A name leads to what is there by this name. -/
lemma enter_literal (hu : u.Proper) (hdir : dir.text ≠ []) (h : literal? p = some name)
    (hslash : '/' ∉ name) : s.enter u (fuel + 1) (p :: rest) dir =
      if u.reaches (dir.join ⟨name⟩) then s.proceed u fuel rest (dir.join ⟨name⟩) else [] := by
  have hcond : (if name = ['.'] ∨ name = ['.', '.'] then u.isDirectory dir
      else u.reaches (dir.join ⟨name⟩)) = u.reaches (dir.join ⟨name⟩) := by
    split
    · next hpoint => rw [reaches_join_point hu hdir hslash hpoint]
    · rfl
  rw [enter]
  simp only [h, hcond]

/-- Wildcards lead to what is in a directory, and perhaps to the directory itself. -/
lemma enter_wild (h : literal? p = none) (hup : leadsUp p = false) :
    s.enter u (fuel + 1) (p :: rest) dir =
      if u.isDirectory dir then
        (if p.head? = some (.char '.') && matchesText p ['.'] then
          s.proceed u fuel rest (dir.join ⟨['.']⟩) else []) ++
        (contents u dir).flatMap fun child => s.visit u fuel (p :: rest) child
      else [] := by
  unfold leadsUp at hup
  rw [enter]
  simp only [h, hup, Bool.false_eq_true, if_false, List.nil_append]

/-- What is in a directory is joined to its path. -/
lemma contents_of_isDirectory (h : u.isDirectory dir = true) :
    contents u dir = (u.namesIn dir.target).map fun name => dir.join ⟨name⟩ := by
  unfold contents
  rw [(Tree.isDirectory_iff.1 h).1]

/-- Each of it is reached by a name. -/
lemma mem_contents (hu : u.Proper) (hdir : u.isDirectory dir = true) {child : Path}
    (h : child ∈ contents u dir) : ∃ name, child = dir.join ⟨name⟩ ∧ IsName name ∧
      child.target = dir.target ++ [name] ∧ u.reaches child = true := by
  rw [contents_of_isDirectory hdir] at h
  obtain ⟨name, hmem, rfl⟩ := List.mem_map.1 h
  obtain ⟨hname, hsome⟩ := hu.mem_namesIn hmem
  have htext := Tree.text_ne_nil_of_reaches (Tree.reaches_of_isDirectory hdir)
  have htarget := Path.target_join_of_isName htext hname
  refine ⟨name, rfl, hname, htarget, (Tree.reaches_join_iff htext hname.2.2.2).2 ⟨hdir, ?_⟩⟩
  unfold Tree.isThere
  rw [htarget]
  exact hsome

/-- What a directory holds that was there before it has been added to. -/
lemma contents_of_extends (h : t.Extends t') (hproper : t.Proper) (hdir : t.isDirectory dir = true) :
    (contents t' dir).filter t.isThere = contents t dir := by
  have hdir' : t'.isDirectory dir = true := by
    rw [h.keeps.isDirectory (Tree.reaches_of_isDirectory hdir), hdir]
  have htext := Tree.text_ne_nil_of_reaches (Tree.reaches_of_isDirectory hdir)
  rw [contents_of_isDirectory hdir, ← Tree.namesIn_of_extends h, contents_of_isDirectory hdir',
    List.filter_map]
  congr 1
  refine List.filter_congr ?_
  intro name hname
  have htarget := Path.target_join_of_isName htext ((h.proper hproper).mem_namesIn hname).1
  show t.isThere (dir.join ⟨name⟩) = _
  unfold Tree.isThere
  rw [htarget]

/-! ## Walks that only go down -/

/-- Everything that a way of walking finds is further down and reached. -/
def GoesDown (u : Tree) (walk : List Pattern → Path → List Path) : Prop :=
  ∀ ps path, Descends ps → u.reaches path = true → ∀ r ∈ walk ps path,
    path.Down r ∧ u.reaches r = true

/-- A path that is a result is the path itself. -/
lemma mem_result {r : Path} (h : r ∈ s.result u path) : r = path := by
  unfold result at h
  split at h
  · cases h
  · exact List.mem_singleton.1 h

/-- The directory itself is reached by a point. -/
lemma reaches_point (h : u.isDirectory dir = true) : u.reaches (dir.join ⟨['.']⟩) = true := by
  have hreach := Tree.reaches_of_isDirectory h
  have htext := Tree.text_ne_nil_of_reaches hreach
  refine (Tree.reaches_join_iff htext (by decide)).2 ⟨h, ?_⟩
  unfold Tree.isThere
  rw [Path.target_join htext (by decide)]
  exact Tree.isThere_of_reaches hreach

/-- Entering goes down if going on and visiting do. -/
lemma goesDown_enter (hu : u.Proper) (hproceed : GoesDown u (s.proceed u fuel))
    (hvisit : GoesDown u (s.visit u fuel)) : GoesDown u (s.enter u (fuel + 1)) := by
  intro ps dir hps hdir r hr
  have htext := Tree.text_ne_nil_of_reaches hdir
  cases ps with
  | nil => simp only [enter, List.not_mem_nil] at hr
  | cons p rest =>
    obtain ⟨hslash, hup⟩ := hps p List.mem_cons_self
    -- a literal part is joined to the directory, a wild one is tried on each of its entries
    cases hlit : literal? p with
    | some name =>
      have hname := slash_not_mem_of_literal? hslash hlit
      have hstep : dir.Down (dir.join ⟨name⟩) := .step .refl hname (ne_up_of_literal? hup hlit)
      rw [enter_literal hu htext hlit hname] at hr
      split at hr
      · next hnext => exact And.imp_left hstep.trans (hproceed rest _ hps.tail hnext r hr)
      · cases hr
    | none =>
      rw [enter_wild hlit hup] at hr
      split at hr
      · next hisdir =>
        rcases List.mem_append.1 hr with hr | hr
        · have hstep : dir.Down (dir.join ⟨['.']⟩) := .step .refl (by decide) (by decide)
          split at hr
          · exact And.imp_left hstep.trans (hproceed rest _ hps.tail (reaches_point hisdir) r hr)
          · cases hr
        · obtain ⟨child, hchild, hr⟩ := List.mem_flatMap.1 hr
          obtain ⟨name, rfl, hname, -, hreach⟩ := mem_contents hu hisdir hchild
          have hstep : dir.Down (dir.join ⟨name⟩) := .step .refl hname.2.2.2 hname.2.2.1
          exact And.imp_left hstep.trans (hvisit _ _ hps hreach r hr)
      · cases hr

/-- Going on goes down if entering does. -/
lemma goesDown_proceed (henter : GoesDown u (s.enter u fuel)) :
    GoesDown u (s.proceed u (fuel + 1)) := by
  intro ps path hps hpath r hr
  cases ps with
  | nil =>
    rw [proceed] at hr
    rw [mem_result hr]
    exact ⟨.refl, hpath⟩
  | cons p rest =>
    rw [proceed] at hr
    exact henter _ path hps hpath r hr

/-- Visiting goes down if entering and matching do. -/
lemma goesDown_visit (henter : GoesDown u (s.enter u fuel))
    (hnamed : GoesDown u (s.named u fuel)) : GoesDown u (s.visit u (fuel + 1)) := by
  intro ps path hps hpath r hr
  cases ps with
  | nil => simp only [visit, List.not_mem_nil] at hr
  | cons p rest =>
    rw [visit] at hr
    split at hr
    · split at hr
      · split at hr
        · rcases List.mem_cons.1 hr with rfl | hr
          · exact ⟨.refl, hpath⟩
          · exact henter [p] path (descends_head hps) hpath r hr
        · cases hr
      · next q more hmore =>
        obtain ⟨hafter, hall⟩ := descends_afterRecursive hps hmore
        rcases List.mem_append.1 hr with hr | hr
        · exact hnamed _ path hafter hpath r hr
        · split at hr
          · exact henter _ path hall hpath r hr
          · cases hr
    · exact hnamed _ path hps hpath r hr

/-- Matching a name goes down if going on does. -/
lemma goesDown_named (hproceed : GoesDown u (s.proceed u fuel)) :
    GoesDown u (s.named u (fuel + 1)) := by
  intro ps path hps hpath r hr
  cases ps with
  | nil => simp only [named, List.not_mem_nil] at hr
  | cons p rest =>
    rw [named] at hr
    split at hr
    · exact hproceed rest path hps.tail hpath r hr
    · cases hr

/-- Where no part leads up, a walk only goes down, in each of the four ways in which it goes on. -/
theorem goesDown_walk (hu : u.Proper) (s : Search) (fuel : Nat) :
    GoesDown u (s.enter u fuel) ∧ GoesDown u (s.proceed u fuel) ∧ GoesDown u (s.visit u fuel) ∧
      GoesDown u (s.named u fuel) := by
  induction fuel with
  | zero =>
    refine ⟨?_, ?_, ?_, ?_⟩ <;> intro ps path _ _ r hr <;> cases ps <;>
      simp only [enter, proceed, visit, named, List.not_mem_nil] at hr
  | succ fuel ih =>
    obtain ⟨henter, hproceed, hvisit, hnamed⟩ := ih
    exact ⟨goesDown_enter hu hproceed hvisit, goesDown_proceed henter, goesDown_visit henter hnamed,
      goesDown_named hproceed⟩

end Search

end Glob

end StoreBindings
