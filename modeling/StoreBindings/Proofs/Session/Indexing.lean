import StoreBindings.Proofs.Program.Sources
import StoreBindings.Proofs.Session.Recognition
import StoreBindings.Proofs.Store.File
import StoreBindings.Proofs.Store.Validity

/-!
# Every source is indexed once

The sources of a project are pairwise different paths, so no module of a program is there twice, and the
stores of a module are told apart by the spans of their classes. So no two stores of a session are in one
file with one span, whatever has happened to the session and to the files: `Runs`, `isKept_isDistinct`.
-/

namespace StoreBindings

open Files (Tree)
open Config (Project Compiler)

variable {t : Tree} {project : Project} {c : Compiler}

/-! ## Modules and stores -/

/-- Two stores are in different files, or their classes are at different places of one file. -/
def Store.Metadata.DiffersFrom (a b : Store.Metadata) : Prop :=
  a.file.components = b.file.components → a.classSpan ≠ b.classSpan

namespace Program

variable {P : Program}

/-- The modules of a program are at different paths. -/
def IsDistinct (P : Program) : Prop :=
  P.modules.Pairwise fun m n => m.path.components ≠ n.path.components

/-- No source is read twice. -/
lemma isDistinct_of_load (h : load t project c = .ok P) : P.IsDistinct := by
  obtain ⟨paths, hpaths, rfl⟩ := load_eq_ok_iff.1 h
  refine List.pairwise_filterMap.2 ((distinct_of_sources hpaths).imp ?_)
  intro f g hne m hm n hn
  split at hm
  · split at hn
    · cases hm
      cases hn
      exact hne
    · cases hn
  · cases hm

/-- The stores of one module are told apart by the spans of their classes. -/
lemma pairwise_ofModule (ix : DecoratorIndex) (dirs : Store.Directories) (module : Syntax.Module) :
    (Store.Extraction.ofModule ix dirs module).stores.Pairwise Store.Metadata.DiffersFrom := by
  rw [Store.Extraction.stores_ofModule, List.pairwise_map]
  refine (List.pairwise_map.1 (Store.Extraction.nodup_spans module.root)).imp ?_
  intro c d hne _ hspan
  rw [Store.Extraction.classSpan_storeOf, Store.Extraction.classSpan_storeOf] at hspan
  exact hne (Option.some.inj hspan)

/-- No store of a program is there twice, if no module is. -/
lemma pairwise_stores (h : P.IsDistinct) (dirs : Store.Directories) :
    (stores (P.extractions dirs)).Pairwise Store.Metadata.DiffersFrom := by
  -- neither the file nor the span of a store changes when it is settled
  refine List.pairwise_map.2 (List.Pairwise.filter _ (List.pairwise_flatMap.2 ⟨?_, ?_⟩))
  · rw [extractions, List.forall_mem_map]
    exact fun module _ => pairwise_ofModule P.decorators dirs module
  · refine List.pairwise_map.2 (h.imp ?_)
    intro m n hne a ha b hb hsame
    have hpaths : a.file.components = b.file.components := hsame
    rw [(Store.Extraction.isOf_of_mem_ofModule ha).file,
      (Store.Extraction.isOf_of_mem_ofModule hb).file] at hpaths
    exact absurd hpaths hne

end Program

namespace Session

/-- What can be done with a session, whatever the files are at that time. -/
inductive Operation : Session → Session → Prop
  | reload {s s' : Session} {t : Tree} (h : s.reload t = .ok s') : Operation s s'
  | process {s : Session} : Operation s s.process
  | writeFiles {s : Session} (t : Tree) : Operation s (s.writeFiles t).session
  | handle {s : Session} (t : Tree) (change : Change) (path : Path) :
      Operation s (s.handle t change path).session
  | takeDiagnostics {s : Session} : Operation s s.takeDiagnostics.2

/-- One session comes from another by operations, with any changes of the files in between. -/
def Runs (s s' : Session) : Prop := Relation.ReflTransGen Operation s s'

variable {s s' : Session}

/-- What reading a program and finding its stores keep, whatever is known and whatever is to be told. -/
structure IsKept (holds : Session → Prop) : Prop where
  read : ∀ s t P, holds s → Program.load t s.project s.compiler = .ok P → holds (s.withProgram P)
  process : ∀ s, holds s → holds s.process
  ledger : ∀ s l, holds s → holds { s with ledger := l }
  diagnostics : ∀ s ds, holds s → holds { s with diagnostics := ds }

namespace IsKept

variable {holds : Session → Prop}

lemma writeFiles (h : IsKept holds) (hs : holds s) (t : Tree) : holds (s.writeFiles t).session := by
  rw [writeFiles_session]
  exact h.ledger _ _ hs

lemma reread (h : IsKept holds) (hs : holds s) (change : Change) (p : Path) {P : Program}
    (hP : Program.load t s.project s.compiler = .ok P) : holds (s.reread change p P) := by
  unfold Session.reread forgetting
  split
  · exact h.read _ t P (h.ledger s (s.ledger.forget p) hs) hP
  · exact h.read s t P hs hP

/-- It is kept by every operation. -/
lemma operation (h : IsKept holds) (hop : Operation s s') (hs : holds s) : holds s' := by
  cases hop with
  | reload hreload =>
    obtain ⟨P, hP, rfl⟩ := reload_eq_ok_iff.1 hreload
    exact h.read _ _ _ hs hP
  | process => exact h.process _ hs
  | writeFiles t => exact h.writeFiles hs t
  | takeDiagnostics => exact h.diagnostics _ _ hs
  | handle t change path =>
    have hhandled := handled s t change path
    generalize s.handle t change path = step at hhandled ⊢
    cases hhandled with
    | ignored _ => exact hs
    | unchanged _ _ _ => exact hs
    | failed _ _ =>
      unfold forgetting
      split
      · exact h.ledger _ _ hs
      · exact hs
    | rebuilt _ _ hP _ =>
      exact h.writeFiles (h.process _ (h.reread hs change path.normalize hP)) t
    | gone _ hP _ _ => exact h.reread hs change path.normalize hP
    | found _ _ hP _ _ => exact h.process _ (h.reread hs change path.normalize hP)

/-- It is kept however a session goes on. -/
lemma runs (h : IsKept holds) (hruns : Runs s s') (hs : holds s) : holds s' := by
  induction hruns with
  | refl => exact hs
  | tail _ hop ih => exact h.operation hop ih

end IsKept

/-- No module is there twice, and no store. -/
structure IsDistinct (s : Session) : Prop where
  program : s.program.IsDistinct
  stores : s.stores.Pairwise Store.Metadata.DiffersFrom

/-- No operation puts a module or a store there twice. -/
theorem isKept_isDistinct : IsKept IsDistinct where
  read _ _ _ hs hP := ⟨Program.isDistinct_of_load hP, hs.stores⟩
  process s hs := ⟨hs.program, Program.pairwise_stores hs.program s.project.directories⟩
  ledger _ _ hs := ⟨hs.program, hs.stores⟩
  diagnostics _ _ hs := ⟨hs.program, hs.stores⟩

lemma isDistinct_of_start {ledger : Ledger} (h : start project ledger t = .ok s) : s.IsDistinct := by
  have hbegan := began_of_start h
  have hP := Program.isDistinct_of_load hbegan.program
  exact ⟨hP, by rw [hbegan.stores]; exact Program.pairwise_stores hP _⟩

end Session

/-- The sources of a project are indexed, each once, and no two stores of a session are in one file
with one span. -/
theorem indexed_once
    (hgen : project.generatedDirectory.normalize.components = project.generatedDirectory.components) :
    (∀ t c found, project.sources t c = .ok found → Indexed t project c found) ∧
      ∀ ledger t s₀ s, Session.start project ledger t = .ok s₀ → Session.Runs s₀ s →
        s.stores.Pairwise Store.Metadata.DiffersFrom :=
  ⟨fun _ _ _ h => indexed_of_sources hgen h, fun _ _ _ _ hstart hruns =>
    (Session.isKept_isDistinct.runs hruns (Session.isDistinct_of_start hstart)).stores⟩

namespace Sample

/-- The project with a pattern for stores. -/
def searchedProject : Project := { Sample.project with filePatterns := ["*.ts"] }

/-- Files with a source that is named twice, in two spellings. -/
def spellings : Tree := ⟨.ofList [
  (["app".toList], .directory),
  (["app", "tsconfig.json"].map String.toList,
    .file "\x7b\"files\":[\"src/Stores/S.ts\",\"./src/../src/Stores//S.ts\"]\x7d".toUTF8),
  (["app", "src"].map String.toList, .directory),
  (["app", "src", "Stores"].map String.toList, .directory),
  (source, .file store.toUTF8)]⟩

end Sample

/-- The source is indexed once, and there is one store when it has been read anew. -/
theorem indexed_of_spellings : ∃ s₀,
    Session.start Sample.searchedProject .empty Sample.spellings = .ok s₀ ∧
    Sample.searchedProject.sources Sample.spellings s₀.compiler = .ok [Sample.path] ∧
    Indexed Sample.spellings Sample.searchedProject s₀.compiler [Sample.path] ∧
    let s := (s₀.handle Sample.spellings .added Sample.path).session
    s.stores.length = 1 ∧ s.stores.Pairwise Store.Metadata.DiffersFrom := by
  have hgen : Sample.searchedProject.generatedDirectory.normalize.components =
      Sample.searchedProject.generatedDirectory.components := by decide +kernel
  obtain ⟨hindexed, hstores⟩ := indexed_once hgen
  have heval : (Session.start Sample.searchedProject .empty Sample.spellings).toOption.any (fun s₀ =>
      (Sample.searchedProject.sources Sample.spellings s₀.compiler).toOption.any
          (fun found => found = [Sample.path]) &&
        (s₀.handle Sample.spellings .added Sample.path).session.stores.length = 1) = true := by
    decide +kernel
  obtain ⟨s₀, hstart, h⟩ := exists_of_toOption_any heval
  rw [Bool.and_eq_true, decide_eq_true_eq] at h
  obtain ⟨found, hfound, hpath⟩ := exists_of_toOption_any h.1
  obtain rfl : found = [Sample.path] := of_decide_eq_true hpath
  exact ⟨s₀, hstart, hfound, hindexed _ _ _ hfound, h.2,
    hstores _ _ s₀ _ hstart (.single (.handle ..))⟩

end StoreBindings
