import Mathlib.Data.List.Infix
import StoreBindings.Proofs.Program.Growth
import StoreBindings.Proofs.Session.Needless

/-!
# Building again

A build puts files into the tree that the sources are looked for in. Where the patterns of the project
are anchored, they find the same sources afterwards: what is new leads to generated files, which are none
of the sources. So a session that begins after the build has the stores of the first one, takes the
generated files for known, and writes nothing; and so does every session that goes on from there while
the sources stay the same: `unchanged_of_restart`.

* `load_writeFiles` — the program that is read from the tree that a build leaves.
* `Steady` — a run in which the sources stay those of a program.
* `current_of_steady` — a session that has nothing to write has nothing to write throughout such a run.
-/

namespace StoreBindings

namespace Ledger

open Files (Tree)

lemma extends_write (l : Ledger) (t : Tree) (p : Path) (c : ByteArray) :
    t.Extends (l.write t p c).2.2 := by
  rcases files_write_cases l t p c with hw | hw
  · rw [hw]
    exact .refl t
  · rw [hw]
    exact Tree.extends_put t p c

end Ledger

namespace Config.Project

/-- The root of a project is spelled from the root of the tree, as simply as it can be. The generated
files are spelled from there too, and none is where a compiler configuration is looked for. -/
structure IsLaidOut (project : Config.Project) : Prop where
  root : project.root.IsRooted
  normal : project.root.normalize = project.root
  outputs : ∀ out ∈ project.outputs, out.IsRooted
  apart : ∀ out ∈ project.outputs, ∀ dir ∈ project.root.target.inits,
    out.target ≠ Compiler.filePlace dir

instance (project : Config.Project) : Decidable project.IsLaidOut :=
  decidable_of_iff (_ ∧ _ ∧ _ ∧ _)
    ⟨fun ⟨hroot, hnormal, houtputs, hapart⟩ => ⟨hroot, hnormal, houtputs, hapart⟩,
      fun h => ⟨h.root, h.normal, h.outputs, h.apart⟩⟩

end Config.Project

/-- What options are resolved to has a root that is as simple as it can be, so it is laid out if nothing
leads above the root of the tree and no generated file is taken for a compiler configuration. -/
lemma Config.Options.isLaidOut_resolve {o : Config.Options} {base : Path}
    (root : (o.resolve base).root.IsRooted) (outputs : ∀ out ∈ (o.resolve base).outputs, out.IsRooted)
    (apart : ∀ out ∈ (o.resolve base).outputs, ∀ dir ∈ (o.resolve base).root.target.inits,
      out.target ≠ Compiler.filePlace dir) : (o.resolve base).IsLaidOut :=
  ⟨root, Path.normalize_normalize _, outputs, apart⟩

namespace Session

open Files (Tree)
open Config (Project Compiler Anchored)

variable {project : Project} {handed : Ledger} {s s' : Session} {t t' u : Tree} {P : Program}
  {c : Compiler} {r : WriteReport}

/-! ## The tree that a build leaves -/

lemma extends_writeFiles (s : Session) (t : Tree) : t.Extends (s.writeFiles t).files :=
  writeFiles_induction (M := fun _ u => t.Extends u)
    (fun l u o _ h => h.trans (Ledger.extends_write l u o.1 o.2.toUTF8)) (.refl t)

/-- Where no generated file leads, files stay as they are, and none is new. -/
lemma keepsFile_writeFiles (s : Session) (t : Tree) {place : Files.Place}
    (hplace : ∀ out ∈ s.project.outputs, place ≠ out.target) :
    Tree.KeepsFile t (s.writeFiles t).files place ∧
      Tree.KeepsFile (s.writeFiles t).files t place :=
  (replays_writeFiles s t).keepsFile fun w hw => hplace w.path (path_of_mem_writes hw)

/-- A build leaves the compiler configuration as it is. -/
lemma loadCompiler_writeFiles (hproper : t.Proper) (h : s.project.IsLaidOut) :
    Compiler.load (s.writeFiles t).files s.project.root = Compiler.load t s.project.root := by
  refine Compiler.load_of_extends (extends_writeFiles s t) hproper h.root h.normal ?_
  intro dir hdir
  refine keepsFile_writeFiles s t fun out hout => ?_
  exact (h.apart out hout dir ((List.mem_inits _ _).2 hdir)).symm

/-- A source leads to no generated file. -/
lemma target_ne_of_mem_sources {paths : List Path} {p : Path}
    (hpaths : project.sources t c = .ok paths) (hp : p ∈ paths) (hrooted : p.IsRooted)
    (hlaid : project.IsLaidOut) (hgen : ∀ out ∈ project.outputs, project.isGenerated out = true) :
    ∀ out ∈ project.outputs, p.target ≠ out.target := by
  intro out hout htarget
  have hnot := Program.isGenerated_of_mem_sources hpaths hp
  -- below the root a place has one normal spelling, so the source would count as generated
  have hsame := hrooted.normalize_congr (hlaid.outputs out hout) htarget
  have hyes := hgen out hout
  unfold Project.isGenerated at hnot hyes
  rw [hsame, hyes] at hnot
  cases hnot

/-- A build leaves the sources as they are, and finds no other. -/
lemma sources_writeFiles (hproper : t.Proper) (hlaid : s.project.IsLaidOut)
    (hgen : ∀ out ∈ s.project.outputs, s.project.isGenerated out = true)
    (hanchored : Anchored t s.project c) {paths : List Path}
    (hpaths : s.project.sources t c = .ok paths) :
    s.project.sources (s.writeFiles t).files c = .ok paths ∧
      ∀ p ∈ paths, (s.writeFiles t).files.read p = t.read p := by
  have hext := extends_writeFiles s t
  obtain ⟨paths', hpaths', hlists⟩ := Project.sources_of_extends hext hproper hanchored hpaths
  have hapart : ∀ p ∈ paths', ∀ out ∈ s.project.outputs, p.target ≠ out.target := fun p hp =>
    target_ne_of_mem_sources hpaths' hp (hlists.spelled p hp).1 hlaid hgen
  -- nothing is written where a source is, so each of them has been there before
  have hold : ∀ p ∈ paths', t.isThere p = true := by
    intro p hp
    obtain ⟨content, hread⟩ := Tree.isFile_iff.1 (hlists.spelled p hp).2.2
    have hback := (keepsFile_writeFiles s t (hapart p hp)).2
    unfold Tree.isThere
    rw [hback content (Tree.read_eq_ok_iff.1 hread).2]
    rfl
  have hsame : paths' = paths := by
    rw [← hlists.old, List.filter_eq_self.2 hold]
  subst hsame
  refine ⟨hpaths', fun p hp => ?_⟩
  obtain ⟨-, hnormal, hfile⟩ := hlists.spelled p hp
  rw [hext.isFile_of_isThere hproper hnormal (hold p hp)] at hfile
  obtain ⟨content, hread⟩ := Tree.isFile_iff.1 hfile
  have hkeep := (keepsFile_writeFiles s t (hapart p hp)).1
  rw [hread, Tree.read_of_keeps hext.keeps hkeep hread]

/-- The program that is read from the tree that a build leaves is the one that was read before. -/
theorem load_writeFiles (hproper : t.Proper) (hlaid : s.project.IsLaidOut)
    (hgen : ∀ out ∈ s.project.outputs, s.project.isGenerated out = true)
    (hanchored : Anchored t s.project c) (hP : Program.load t s.project c = .ok P) :
    Program.load (s.writeFiles t).files s.project c = .ok P := by
  obtain ⟨paths, hpaths, rfl⟩ := Program.load_eq_ok_iff.1 hP
  obtain ⟨hpaths', hread⟩ := sources_writeFiles hproper hlaid hgen hanchored hpaths
  exact Program.load_eq_ok_iff.2 ⟨paths, hpaths', (Program.read_congr hread).symm⟩

/-! ## Sessions that have nothing to write -/

/-- The session has read the program of the tree, and has nothing more to do for it. -/
structure Current (P : Program) (s : Session) (t : Tree) : Prop where
  loads : Program.load t s.project s.compiler = .ok P
  program : s.program = P
  settled : Settled s P
  stores : s.stores ≠ []

/-- What a session is that has nothing to write: it reports its generated files as they are. -/
lemma Current.writeFiles (h : Current P s t) :
    s.writeFiles t = ⟨.ok ⟨false, [], s.project.outputs⟩, s, t⟩ :=
  writeFiles_of_known h.stores (h.settled.known h.stores)

lemma Current.process (h : Current P s t) : Current P s.process t ∧ s.process.stores = s.stores := by
  have hstores : s.process.stores = s.stores := by
    rw [h.settled.stores, ← h.program]
    rfl
  refine ⟨⟨h.loads, h.program, h.settled.congr rfl hstores fun _ _ => rfl, ?_⟩, hstores⟩
  rw [hstores]
  exact h.stores

lemma Current.reread (h : Current P s t)
    (hgen : ∀ out ∈ s.project.outputs, s.project.isGenerated out = true) {p : Path}
    (hp : s.IsFollowed p) (change : Change) :
    Current P (s.reread change p P).process t ∧ Current P (s.reread change p P) t := by
  obtain ⟨hprocessed, hread⟩ := h.settled.reread hgen h.loads hp change
  have hloads : Program.load t (s.reread change p P).project (s.reread change p P).compiler = .ok P := by
    rw [reread_project, reread_compiler]
    exact h.loads
  have hne : (s.reread change p P).stores ≠ [] := by
    rw [reread_stores]
    exact h.stores
  have hcurrent : Current P (s.reread change p P) t := ⟨hloads, rfl, hread, hne⟩
  exact ⟨hcurrent.process.1, hcurrent⟩

/-- Following a change writes nothing, and if it leads to a rebuild, this reports the generated files as
they are. -/
lemma Current.handle (h : Current P s t)
    (hgen : ∀ out ∈ s.project.outputs, s.project.isGenerated out = true) (change : Change)
    (path : Path) : Current P (s.handle t change path).session t ∧
      (s.handle t change path).files = t ∧
      ∀ r, (s.handle t change path).result = .ok (.rebuilt r) → r = ⟨false, [], s.project.outputs⟩ := by
  have hhandled := handled s t change path
  generalize s.handle t change path = step at hhandled ⊢
  -- the program that is read again is the current one, so its outputs are known as they are
  cases hhandled with
  | ignored _ => exact ⟨h, rfl, by simp⟩
  | unchanged _ _ _ => exact ⟨h, rfl, by simp⟩
  | failed _ hfail =>
    rw [h.loads] at hfail
    cases hfail
  | @rebuilt hp _ P' hP' _ =>
    cases Except.ok.inj (h.loads.symm.trans hP')
    obtain ⟨hcurrent, -⟩ := h.reread hgen hp change
    rw [hcurrent.writeFiles, process_project, reread_project]
    refine ⟨hcurrent, rfl, fun r hr => ?_⟩
    exact (Except.ok.inj (result_rebuiltStep_iff.1 hr)).symm
  | @gone hp P' hP' _ _ =>
    cases Except.ok.inj (h.loads.symm.trans hP')
    exact ⟨(h.reread hgen hp change).2, rfl, by simp⟩
  | @found hp _ P' hP' _ _ =>
    cases Except.ok.inj (h.loads.symm.trans hP')
    exact ⟨(h.reread hgen hp change).1, rfl, by simp⟩

/-- A run in which the sources stay those of a program. -/
def Steady (P : Program) (a b : Session × Tree) : Prop :=
  Relation.ReflTransGen
    (fun a b => Move a b ∧ Program.load b.2 b.1.project b.1.compiler = .ok P) a b

lemma current_move {a b : Session × Tree} (h : Current P a.1 a.2)
    (hgen : ∀ out ∈ a.1.project.outputs, a.1.project.isGenerated out = true) (hmove : Move a b)
    (hloads : Program.load b.2 b.1.project b.1.compiler = .ok P) : Current P b.1 b.2 := by
  cases hmove with
  | edit s _ => exact ⟨hloads, h.program, h.settled, h.stores⟩
  | handle s t change path =>
    obtain ⟨hcurrent, hfiles, -⟩ := h.handle hgen change path
    show Current P (s.handle t change path).session (s.handle t change path).files
    rw [hfiles]
    exact hcurrent
  | @reload s s' t hreload =>
    obtain ⟨P', hP', rfl⟩ := reload_eq_ok_iff.1 hreload
    cases Except.ok.inj (h.loads.symm.trans hP')
    have hget : ∀ out ∈ s.project.outputs,
        (s.withProgram P).ledger.get? out = s.ledger.get? out := fun out hout =>
      get?_withProgram_of_isGenerated (Program.isLoaded_of_load h.loads) (hgen out hout) s
    exact ⟨h.loads, rfl, h.settled.congr rfl rfl hget, h.stores⟩
  | process s t => exact h.process.1
  | writeFiles s t =>
    show Current P (s.writeFiles t).session (s.writeFiles t).files
    rw [h.writeFiles]
    exact h
  | takeDiagnostics s t =>
    exact ⟨h.loads, h.program, h.settled.congr rfl rfl fun _ _ => rfl, h.stores⟩

/-- A session that has nothing to write has nothing to write as long as the sources stay the same. -/
theorem current_of_steady {a b : Session × Tree} (hrun : Steady P a b) (h : Current P a.1 a.2)
    (hgen : ∀ out ∈ a.1.project.outputs, a.1.project.isGenerated out = true) :
    SameProject a.1 b.1 ∧ Current P b.1 b.2 := by
  induction hrun with
  | refl => exact ⟨⟨rfl, rfl⟩, h⟩
  | tail _ hstep ih =>
    obtain ⟨hsame, hcurrent⟩ := ih
    exact ⟨hsame.trans (sameProject_move hstep.1),
      current_move hcurrent (by rw [hsame.project]; exact hgen) hstep.1 hstep.2⟩

/-! ## A second session -/

/-- What a session is that begins with nothing where its generated files read what they are to read, or
what cannot be told apart from it. -/
lemma Began.current (h : Began project .empty t s)
    (hgen : ∀ out ∈ project.outputs, project.isGenerated out = true)
    (hapart : project.OutputsApart) (hstores : s.stores ≠ [])
    (hread : ∀ o ∈ s.outputs, ∃ content, t.read o.1 = .ok content ∧
      Ledger.digest content = Ledger.digest o.2.toUTF8) : Current s.program s t := by
  obtain rfl := h.project_eq
  refine ⟨h.program, rfl, ⟨h.stores, fun _ o ho => ?_⟩, hstores⟩
  obtain ⟨content, hc, hdigest⟩ := hread o ho
  have hout := fst_mem_outputs ho
  -- the file is there, so the session has seen it when it began
  rcases h.seen_or_handed hapart.differ hout (hgen o.1 hout) with ⟨seen, hs, hget⟩ | ⟨hmissing, -⟩
  · rw [hc] at hs
    rw [hget, ← Except.ok.inj hs, hdigest]
  · rw [hc] at hmissing
    cases hmissing

/-- What a build leaves in the generated files is what they are to read, or cannot be told apart from
it. -/
lemma exists_read_of_build (hstart : start project .empty t = .ok s)
    (hgen : ∀ out ∈ project.outputs, project.isGenerated out = true)
    (hne : project.loader.target ≠ project.declarations.target) (hstores : s.stores ≠ [])
    (hok : (s.writeFiles t).result.isOk = true) {o : Path × String} (ho : o ∈ s.outputs) :
    ∃ content, (s.writeFiles t).files.read o.1 = .ok content ∧
      Ledger.digest content = Ledger.digest o.2.toUTF8 := by
  have hproject := (began_of_start hstart).project_eq
  have hcomponents : s.project.loader.components ≠ s.project.declarations.components := by
    rw [hproject]
    exact fun heq => hne (Path.target_congr heq)
  have htracks := tracks_of_reaches hstart (.single (.writeFiles s t)) hgen (.inr hne)
    (hproject ▸ fst_mem_outputs ho)
  exact htracks _ (get?_writeFiles hstores hok hcomponents ho)

/-- After a build a session can begin, and neither it nor the one that has built has anything to write. -/
lemma exists_restart (hproper : t.Proper) (hstart : start project .empty t = .ok s)
    (hgen : ∀ out ∈ project.outputs, project.isGenerated out = true)
    (hne : project.loader.target ≠ project.declarations.target) (hlaid : project.IsLaidOut)
    (hanchored : Anchored t project s.compiler) (hresult : (s.writeFiles t).result = .ok r)
    (hskipped : r.skipped = false) :
    Current s.program (s.writeFiles t).session (s.writeFiles t).files ∧
      ∃ s', start project .empty (s.writeFiles t).files = .ok s' ∧ s'.stores = s.stores ∧
        Current s.program s' (s.writeFiles t).files := by
  have hbegan := began_of_start hstart
  obtain rfl := hbegan.project_eq
  have hstores := stores_ne_nil_of_not_skipped hresult hskipped
  have hok : (s.writeFiles t).result.isOk = true := by rw [hresult]; rfl
  have hloads := load_writeFiles hproper hlaid hgen hanchored hbegan.program
  have hconfig := (loadCompiler_writeFiles hproper hlaid).trans hbegan.compiler
  constructor
  · have hsettled := settled_of_writeFiles hbegan.stores
      (fun heq => hne (Path.target_congr heq)) hok
    rw [writeFiles_session] at hsettled ⊢
    exact ⟨hloads, rfl, hsettled, hstores⟩
  · have hopen : ∀ out ∈ s.project.outputs, (s.writeFiles t).files.IsOpen out := by
      intro out hout
      obtain ⟨o, ho, rfl⟩ := exists_mem_outputs hout
      obtain ⟨content, hc, -⟩ := exists_read_of_build hstart hgen hne hstores hok ho
      exact .inl ⟨content, hc⟩
    obtain ⟨s', hs'⟩ := exists_start hconfig hloads hopen .empty
    have hbegan' := began_of_start hs'
    -- neither the settings nor the sources are touched by what was written
    have hprogram : s'.program = s.program := by
      have hload := hbegan'.program
      rw [Except.ok.inj (hbegan'.compiler.symm.trans hconfig), hloads] at hload
      exact (Except.ok.inj hload).symm
    have hsame : s'.stores = s.stores := by
      rw [hbegan'.stores, hprogram, hbegan.stores]
    have hcurrent := hbegan'.current hgen (.inr hne) (by rw [hsame]; exact hstores) fun o ho =>
      exists_read_of_build hstart hgen hne hstores hok (outputs_congr hbegan'.project_eq hsame ▸ ho)
    rw [hprogram] at hcurrent
    exact ⟨s', hs', hsame, hcurrent⟩

/-- After a build that is not skipped a new session can begin, and it is to write the same texts. Writing
them it reports both files as they are, and leaves everything alone; and so does every rebuild, in that
session and in the one that has built, whatever else happens, as long as the sources stay the same. -/
theorem unchanged_of_restart {built : Step WriteReport} (hproper : t.Proper)
    (hstart : start project .empty t = .ok s)
    (hgen : ∀ out ∈ project.outputs, project.isGenerated out = true)
    (hne : project.loader.target ≠ project.declarations.target) (hlaid : project.IsLaidOut)
    (hanchored : Anchored t project s.compiler) (hbuilt : s.writeFiles t = built)
    (hresult : built.result = .ok r) (hskipped : r.skipped = false) :
    ∃ s', start project .empty built.files = .ok s' ∧ s'.outputs = s.outputs ∧
      s'.writeFiles built.files = ⟨.ok ⟨false, [], project.outputs⟩, s', built.files⟩ ∧
      ∀ a, a = (built.session, built.files) ∨ a = (s', built.files) →
        ∀ f u, Steady s.program a (f, u) →
          f.process.outputs = s.outputs ∧
          f.rebuild u = ⟨.ok ⟨false, [], project.outputs⟩, f.process, u⟩ ∧
          ∀ change path, (f.handle u change path).files = u ∧
            ∀ r', (f.handle u change path).result = .ok (.rebuilt r') →
              r' = ⟨false, [], project.outputs⟩ := by
  subst hbuilt
  obtain ⟨hcurrent, s', hs', hstores, hcurrent'⟩ :=
    exists_restart hproper hstart hgen hne hlaid hanchored hresult hskipped
  have hproject := (began_of_start hstart).project_eq
  have hproject' := (began_of_start hs').project_eq
  have hbuilt : (s.writeFiles t).session.project = project := by
    rw [writeFiles_session]
    exact hproject
  refine ⟨s', hs', outputs_congr (hproject'.trans hproject.symm) hstores, ?_, ?_⟩
  · rw [hcurrent'.writeFiles, hproject']
  · intro a ha f u hrun
    -- the session that goes on and the one that starts again are in the same condition
    have hbegin : a.1.project = project ∧ Current s.program a.1 a.2 := by
      rcases ha with rfl | rfl
      · exact ⟨hbuilt, hcurrent⟩
      · exact ⟨hproject', hcurrent'⟩
    obtain ⟨hsame, hf⟩ := current_of_steady hrun hbegin.2 (by rw [hbegin.1]; exact hgen)
    have hprojectf : f.project = project := hsame.project.trans hbegin.1
    refine ⟨outputs_congr (hprojectf.trans hproject.symm) ?_, ?_, fun change path => ?_⟩
    · rw [hf.process.2, hf.settled.stores, (began_of_start hstart).stores, hprojectf]
    · have hwrite := hf.process.1.writeFiles
      rw [process_project, hprojectf] at hwrite
      exact hwrite
    · obtain ⟨-, hfiles, hreport⟩ := hf.handle (by rw [hprojectf]; exact hgen) change path
      rw [hprojectf] at hreport
      exact ⟨hfiles, hreport⟩

end Session

namespace Sample

open Files (Tree)

/-- Options with a pattern for stores. -/
def patterned : Config.Options :=
  { Config.Options.default with filePatterns := ["S.*"], runtimePackage := "" }

/-- The project of these options. -/
def searching : Config.Project := patterned.resolve (.ofString "/app")

/-- The files of a project with one source, which is looked for in a directory. -/
def searched : Tree :=
  ⟨.ofList [
    (["app".toList], .directory),
    (["app", "tsconfig.json"].map String.toList, .file "\x7b\"include\":[\"src\"]\x7d".toUTF8),
    (["app", "src"].map String.toList, .directory),
    (["app", "src", "Stores"].map String.toList, .directory),
    (source, .file store.toUTF8)]⟩

/-- The files of the project with two stores, one of which is looked for by way of the directory of the
generated files. -/
def roundabout : Tree :=
  ⟨(treeOf store store).entries.insert (["app", "tsconfig.json"].map String.toList)
    (.file ("\x7b\"files\":[\"src/Stores/S.ts\"]," ++
      "\"include\":[\"src/Stores/Generated/../T.ts\"]\x7d").toUTF8)⟩

end Sample

namespace Session

open Config (Anchored)

/-- The pattern of this project finds the directory of the generated files too once the project has been
built, and still there is nothing to write. -/
theorem unchanged_of_searched : ∃ s s',
    start Sample.searching .empty Sample.searched = .ok s ∧ s.stores ≠ [] ∧
    start Sample.searching .empty (s.writeFiles Sample.searched).files = .ok s' ∧
    s'.outputs = s.outputs ∧
    (s'.writeFiles (s.writeFiles Sample.searched).files).result =
      .ok ⟨false, [], Sample.searching.outputs⟩ ∧
    (s'.rebuild (s.writeFiles Sample.searched).files).files =
      (s.writeFiles Sample.searched).files := by
  have heval : ((start Sample.searching .empty Sample.searched).toOption.any fun s =>
      decide (Anchored Sample.searched Sample.searching s.compiler) &&
      (s.writeFiles Sample.searched).result.toOption.any fun r => !r.skipped) = true := by
    decide +kernel
  obtain ⟨s, hstart, h⟩ := exists_of_toOption_any heval
  rw [Bool.and_eq_true, decide_eq_true_eq] at h
  obtain ⟨hanchored, h⟩ := h
  obtain ⟨r, hresult, hnot⟩ := exists_of_toOption_any h
  have hskipped : r.skipped = false := by simpa using hnot
  have hlaid : Sample.searching.IsLaidOut := Config.Options.isLaidOut_resolve (by decide +kernel)
    (by decide +kernel) (by decide +kernel)
  obtain ⟨s', hs', houtputs, hwrite, hsteady⟩ := unchanged_of_restart (by decide +kernel) hstart
    (by decide +kernel) (by decide +kernel) hlaid hanchored rfl hresult hskipped
  obtain ⟨-, hrebuild, -⟩ := hsteady _ (.inr rfl) s' _ .refl
  refine ⟨s, s', hstart, stores_ne_nil_of_not_skipped hresult hskipped, hs', houtputs, ?_, ?_⟩
  · rw [hwrite]
  · rw [hrebuild]

/-- Where the two generated files are one file, what is written last is there after a build, and a second
session writes the other one again. -/
theorem rewritten_of_aliased : ∃ s r s' r',
    start aliased .empty (Sample.tree Sample.store) = .ok s ∧
    aliased.loader ≠ aliased.declarations ∧
    (∀ out ∈ aliased.outputs, aliased.isGenerated out = true) ∧
    (s.writeFiles (Sample.tree Sample.store)).result = .ok r ∧ r.skipped = false ∧
    start aliased .empty (s.writeFiles (Sample.tree Sample.store)).files = .ok s' ∧
    (s'.writeFiles (s.writeFiles (Sample.tree Sample.store)).files).result = .ok r' ∧
    r'.written = [aliased.loader] := by
  have heval : ((start aliased .empty (Sample.tree Sample.store)).toOption.any fun s =>
      let built := s.writeFiles (Sample.tree Sample.store)
      built.result.toOption.any fun r => !r.skipped &&
      (start aliased .empty built.files).toOption.any fun s' =>
        (s'.writeFiles built.files).result.toOption.any fun r' =>
          decide (r'.written = [aliased.loader])) = true := by
    decide +kernel
  obtain ⟨s, hstart, h⟩ := exists_of_toOption_any heval
  obtain ⟨r, hresult, h⟩ := exists_of_toOption_any h
  rw [Bool.and_eq_true] at h
  obtain ⟨hnot, h⟩ := h
  obtain ⟨s', hs', h⟩ := exists_of_toOption_any h
  obtain ⟨r', hresult', h⟩ := exists_of_toOption_any h
  exact ⟨s, r, s', r', hstart, by decide +kernel, by decide +kernel, hresult, by simpa using hnot,
    hs', hresult', of_decide_eq_true h⟩

/-- A pattern that leads back from the directory of the generated files finds nothing before that
directory is there, so a second session has a store that the first one had not. -/
lemma found_of_roundabout : ∃ s r s',
    start Sample.project .empty Sample.roundabout = .ok s ∧
    Sample.project.loader.target ≠ Sample.project.declarations.target ∧
    (∀ out ∈ Sample.project.outputs, Sample.project.isGenerated out = true) ∧
    (s.writeFiles Sample.roundabout).result = .ok r ∧ r.skipped = false ∧
    start Sample.project .empty (s.writeFiles Sample.roundabout).files = .ok s' ∧
    s.stores.length = 1 ∧ s'.stores.length = 2 := by
  have heval : ((start Sample.project .empty Sample.roundabout).toOption.any fun s =>
      let built := s.writeFiles Sample.roundabout
      built.result.toOption.any fun r => !r.skipped &&
      (start Sample.project .empty built.files).toOption.any fun s' =>
        decide (s.stores.length = 1) && decide (s'.stores.length = 2)) = true := by
    decide +kernel
  obtain ⟨s, hstart, h⟩ := exists_of_toOption_any heval
  obtain ⟨r, hresult, h⟩ := exists_of_toOption_any h
  rw [Bool.and_eq_true] at h
  obtain ⟨hnot, h⟩ := h
  obtain ⟨s', hs', h⟩ := exists_of_toOption_any h
  rw [Bool.and_eq_true, decide_eq_true_eq, decide_eq_true_eq] at h
  exact ⟨s, r, s', hstart, by decide +kernel, by decide +kernel, hresult, by simpa using hnot, hs',
    h.1, h.2⟩

end Session

end StoreBindings
