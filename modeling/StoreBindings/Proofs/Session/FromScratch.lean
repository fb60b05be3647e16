import StoreBindings.Proofs.Session.Run

/-!
# Rebuilding is building from scratch

A session that has followed changes of its project for a while, and then rebuilds the generated
files because of one more change, has the stores and leaves the files that a new session would have
and would leave: `rebuilt_eq_scratch`. The ledger of the session is the only thing that could stand
in the way, since it decides what is written; it tracks the generated files throughout a run.

This does not hold of generated files that are spelled as two paths but are one file:
`rebuilt_ne_scratch`.
-/

namespace StoreBindings.Session

open Files (Tree)
open Config (Project Compiler)
open Ledger (CollisionFree)

/-- Built from scratch on a tree, the project has these stores and leaves these files. -/
def BuildsTo (project : Project) (u : Tree) (stores : List Store.Metadata) (skipped : Bool)
    (files : Tree) : Prop :=
  ∃ f r, start project .empty u = .ok f ∧ f.stores = stores ∧ (f.writeFiles u).result = .ok r ∧
    r.skipped = skipped ∧ (f.writeFiles u).files = files

variable {project : Project} {s s' f : Session} {t t₀ u : Tree} {change : Change} {path out : Path}
  {step : Step Outcome} {r : WriteReport}

/-- A session that begins without knowing anything tracks the generated files. -/
lemma tracks_of_began (h : Began project .empty t s) (hapart : project.OutputsApart)
    (hgen : ∀ out ∈ project.outputs, project.isGenerated out = true)
    (hout : out ∈ project.outputs) : s.ledger.Tracks t out := by
  rcases h.seen_or_handed hapart.differ hout (hgen out hout) with hseen | ⟨-, hget⟩
  · exact hseen.tracks
  · exact Ledger.tracks_of_get?_eq_none (hget.trans (Ledger.get?_empty out))

/-- A session that begins without knowing anything puts the generated files, whatever is there. -/
lemma writeFiles_of_began (h : Began project .empty t s) (hapart : project.OutputsApart)
    (hgen : ∀ out ∈ project.outputs, project.isGenerated out = true) (hstores : s.stores ≠ [])
    (hfree : s.TellsApart t) :
    (s.writeFiles t).files = (t.putAll s.outputs).2 ∧
      (s.writeFiles t).result.isOk = (t.putAll s.outputs).1.isOk := by
  have hproject := h.project_eq
  refine writeFiles_of_honest hstores (hproject ▸ hapart) hfree ?_
  intro o ho
  have htracks := tracks_of_began h hapart hgen (hproject ▸ fst_mem_outputs ho)
  exact honest_of_tellsApart ho htracks hfree

/-- What building from scratch comes to on a tree that can be read. -/
lemma buildsTo_of_load
    (hstores : s.stores = Program.stores (s.program.extractions s.project.directories))
    (hc : Compiler.load u s.project.root = .ok s.compiler)
    (hP : Program.load u s.project s.compiler = .ok s.program)
    (hopen : ∀ out ∈ s.project.outputs, u.IsOpen out)
    (hgen : ∀ out ∈ s.project.outputs, s.project.isGenerated out = true)
    (hapart : s.project.OutputsApart) (hfree : s.TellsApart u) :
    (s.stores = [] → BuildsTo s.project u s.stores true u) ∧
      (s.stores ≠ [] → (u.putAll s.outputs).1 = .ok () →
        BuildsTo s.project u s.stores false (u.putAll s.outputs).2) := by
  obtain ⟨f, hf⟩ := exists_start hc hP hopen .empty
  have hbegan := began_of_start hf
  have hproject := hbegan.project_eq
  have hsame : f.stores = s.stores := (hbegan.stores_eq hc hP).trans hstores.symm
  constructor
  · intro hnil
    refine ⟨f, .skip, hf, hsame, ?_⟩
    rw [writeFiles_of_stores_eq_nil (hsame.trans hnil)]
    exact ⟨rfl, rfl, rfl⟩
  · intro hne hput
    have hfne : f.stores ≠ [] := fun h => hne (hsame.symm.trans h)
    have hwrite := writeFiles_of_began hbegan hapart hgen hfne (hfree.congr hproject hsame)
    rw [outputs_congr hproject hsame, hput] at hwrite
    obtain ⟨hfiles, hok⟩ := hwrite
    obtain ⟨r, hresult⟩ := exists_of_isOk hok
    refine ⟨f, r, hf, hsame, hresult, ?_, hfiles⟩
    rw [← Bool.not_eq_true, skipped_iff hresult]
    exact hfne

/-- A change that leads to a rebuild has the sources read again, and the generated files written for
the stores that are found in them. -/
lemma exists_of_handle_rebuilt (hstep : s.handle t change path = step)
    (hresult : step.result = .ok (.rebuilt r)) : ∃ P,
      s.IsFollowed path.normalize ∧ Program.load t s.project s.compiler = .ok P ∧
      ((s.reread change path.normalize P).process.writeFiles t).result = .ok r ∧
      step.session = ((s.reread change path.normalize P).process.writeFiles t).session ∧
      step.files = ((s.reread change path.normalize P).process.writeFiles t).files := by
  have hhandled := handled s t change path
  rw [hstep] at hhandled
  cases hhandled with
  | ignored _ => cases hresult
  | unchanged _ _ _ => cases hresult
  | failed _ _ => cases hresult
  | @rebuilt hp _ P hP _ => exact ⟨P, hp, hP, result_rebuiltStep_iff.1 hresult, rfl, rfl⟩
  | gone _ _ _ _ => cases hresult
  | found _ _ _ _ _ => cases hresult

/-- What has been rebuilt on a tree: the stores of the program that is read there, and the files with
the texts for them put into it, or the tree itself if there is no store. -/
structure IsRebuild (t : Tree) (s : Session) (skipped : Bool) (files : Tree) : Prop where
  program : Program.load t s.project s.compiler = .ok s.program
  stores : s.stores = Program.stores (s.program.extractions s.project.directories)
  skip : s.stores = [] → skipped = true ∧ files = t
  put : s.stores ≠ [] → skipped = false ∧ t.putAll s.outputs = (.ok (), files)

/-- Writing through a ledger that tracks the generated files is rebuilding them. -/
lemma isRebuild_writeFiles (hP : Program.load t s.project s.compiler = .ok s.program)
    (hstores : s.stores = Program.stores (s.program.extractions s.project.directories))
    (hresult : (s.writeFiles t).result = .ok r) (hapart : s.project.OutputsApart)
    (hfree : s.TellsApart t) (h : ∀ out ∈ s.project.outputs, s.ledger.Tracks t out) :
    IsRebuild t (s.writeFiles t).session r.skipped (s.writeFiles t).files := by
  rw [writeFiles_session]
  refine ⟨hP, hstores, ?_, ?_⟩
  · intro hnil
    change s.stores = [] at hnil
    have hskipped := (skipped_iff hresult).2 hnil
    rw [writeFiles_of_stores_eq_nil hnil]
    exact ⟨hskipped, rfl⟩
  · intro hne
    change s.stores ≠ [] at hne
    obtain ⟨hfiles, hok⟩ := writeFiles_of_honest hne hapart hfree fun o ho =>
      honest_of_tellsApart ho (h _ (fst_mem_outputs ho)) hfree
    rw [hresult] at hok
    refine ⟨?_, Prod.ext (eq_ok_of_isOk hok.symm) hfiles.symm⟩
    rw [← Bool.not_eq_true, skipped_iff hresult]
    exact hne

/-- In a run from nothing the ledger tracks the generated files. -/
lemma tracks_of_reaches (hstart : start project .empty t₀ = .ok s₀)
    (hrun : Reaches (s₀, t₀) (s, t))
    (hgen : ∀ out ∈ project.outputs, project.isGenerated out = true)
    (hapart : project.OutputsApart) (hout : out ∈ project.outputs) :
    s.ledger.Tracks t out := by
  have hbegan := began_of_start hstart
  have hproject := hbegan.project_eq
  exact reaches_induction hrun
    (survives_tracks (hproject ▸ hgen out hout)
      fun q hq => hapart.eq_or_ne hout (hproject ▸ hq))
    (hproject ▸ hout) (tracks_of_began hbegan hapart hgen hout)

/-- In a run from nothing a change that leads to a rebuild rebuilds, whatever the ledger skips. -/
lemma isRebuild_of_handle (hstart : start project .empty t₀ = .ok s₀)
    (hrun : Reaches (s₀, t₀) (s, t))
    (hgen : ∀ out ∈ project.outputs, project.isGenerated out = true)
    (hapart : project.OutputsApart)
    (hstep : s.handle t change path = step) (hresult : step.result = .ok (.rebuilt r))
    (hfree : step.session.TellsApart t) :
    SameProject s step.session ∧ IsRebuild t step.session r.skipped step.files := by
  have hproject : s.project = project :=
    (sameProject_of_reaches hrun).project.trans (began_of_start hstart).project_eq
  obtain ⟨P, hp, hP, hreport, hsession, hfiles⟩ := exists_of_handle_rebuilt hstep hresult
  -- the session that writes: it has read the sources and found their stores
  obtain ⟨s', hs'⟩ : ∃ s', s' = (s.reread change path.normalize P).process := ⟨_, rfl⟩
  have hsame : SameProject s s' := by
    rw [hs']
    exact (sameProject_reread s change path.normalize P).trans (sameProject_process _)
  have hproject' : s'.project = project := hsame.project.trans hproject
  have hP' : Program.load t s'.project s'.compiler = .ok s'.program := by
    rw [hsame.1, hsame.2, hP, hs']
    rfl
  have hstores : s'.stores = Program.stores (s'.program.extractions s'.project.directories) := by
    rw [hs']; rfl
  rw [← hs'] at hreport hsession hfiles
  rw [hsession, hfiles]
  refine ⟨hsame.trans (sameProject_writeFiles s' t), ?_⟩
  have hfree' : s'.TellsApart t := by
    rw [hsession, writeFiles_session] at hfree
    exact hfree.congr rfl rfl
  refine isRebuild_writeFiles hP' hstores hreport (hproject' ▸ hapart) hfree' ?_
  intro out hout
  rw [hproject'] at hout
  have hget : s'.ledger.get? out = s.ledger.get? out := by
    rw [hs']
    exact get?_reread hp (hproject ▸ hgen out hout) hP change
  exact (tracks_of_reaches hstart hrun hgen hapart hout).congr hget fun _ => id

/-- On the tree that a rebuild leaves, everything to be put is there already. -/
lemma buildsTo_of_putAll (hput : t.putAll s.outputs = (.ok (), files)) (hnil : s.stores ≠ [])
    (hstores : s.stores = Program.stores (s.program.extractions s.project.directories))
    (hgen : ∀ out ∈ s.project.outputs, s.project.isGenerated out = true)
    (hapart : s.project.OutputsApart) (hfree : s.TellsApart t)
    (hconfig : Compiler.load files s.project.root = .ok s.compiler)
    (hP : Program.load files s.project s.compiler = .ok s.program) :
    BuildsTo s.project files s.stores false files := by
  have hdone : (t.putAll s.outputs).1 = .ok () := by rw [hput]
  have hread : ∀ out ∈ s.project.outputs,
      ∃ o ∈ s.outputs, o.1 = out ∧ files.read out = .ok o.2.toUTF8 := by
    intro out hout
    have hout' := exists_read_putAll hapart hdone hout
    rw [hput] at hout'
    exact hout'
  have hagain : files.putAll s.outputs = (.ok (), files) := by
    have htwice := Tree.putAll_putAll hdone hapart
    change (t.putAll s.outputs).2.putAll s.outputs = (.ok (), (t.putAll s.outputs).2) at htwice
    rw [hput] at htwice
    exact htwice
  have hopen : ∀ out ∈ s.project.outputs, files.IsOpen out := by
    intro out hout
    obtain ⟨o, -, -, hc⟩ := hread out hout
    exact .inl ⟨_, hc⟩
  have hbuild := (buildsTo_of_load hstores hconfig hP hopen hgen hapart (hfree.of_read hread)).2 hnil
    (by rw [hagain])
  rw [hagain] at hbuild
  exact hbuild

/-- Building from scratch gives what a rebuild gives, on the tree that it was done on and also on the
tree that it leaves, if the sources are the same there. -/
lemma buildsTo_of_isRebuild {skipped : Bool} {files : Tree}
    (h : IsRebuild t s skipped files)
    (hconfig : Compiler.load t s.project.root = .ok s.compiler)
    (hgen : ∀ out ∈ s.project.outputs, s.project.isGenerated out = true)
    (hapart : s.project.OutputsApart)
    (hopen : skipped = true → ∀ out ∈ s.project.outputs, t.IsOpen out)
    (hfree : s.TellsApart t) :
    BuildsTo s.project t s.stores skipped files ∧
      (Compiler.load files s.project.root = .ok s.compiler →
        Program.load files s.project s.compiler = .ok s.program →
        BuildsTo s.project files s.stores skipped files) := by
  obtain ⟨hP, hstores, hskip, hput⟩ := h
  by_cases hnil : s.stores = []
  · obtain ⟨rfl, rfl⟩ := hskip hnil
    have hbuild := (buildsTo_of_load hstores hconfig hP (hopen rfl) hgen hapart hfree).1 hnil
    exact ⟨hbuild, fun _ _ => hbuild⟩
  · obtain ⟨rfl, hall⟩ := hput hnil
    have hdone : (t.putAll s.outputs).1 = .ok () := by rw [hall]
    refine ⟨?_, buildsTo_of_putAll hall hnil hstores hgen hapart hfree⟩
    have hopen' : ∀ out ∈ s.project.outputs, t.IsOpen out := by
      simp only [Project.outputs, List.mem_cons, List.not_mem_nil, or_false, forall_eq_or_imp,
        forall_eq]
      exact Tree.isOpen_of_putAll_pair hdone
    have hbuild := (buildsTo_of_load hstores hconfig hP hopen' hgen hapart hfree).2 hnil hdone
    rw [hall] at hbuild
    exact hbuild

/-- After any run, a change that leads to a rebuild leaves the stores and the files that building the
project from scratch gives, on the tree that the change was followed on; and also on the tree that is
left, if the sources are the same there. -/
theorem rebuilt_eq_scratch (hstart : start project .empty t₀ = .ok s₀)
    (hrun : Reaches (s₀, t₀) (s, t))
    (hgen : ∀ out ∈ project.outputs, project.isGenerated out = true)
    (hapart : project.OutputsApart)
    (hconfig : Compiler.load t project.root = .ok s.compiler)
    (hstep : s.handle t change path = step) (hresult : step.result = .ok (.rebuilt r))
    (hopen : r.skipped = true → ∀ out ∈ project.outputs, t.IsOpen out)
    (hfree : step.session.TellsApart t) :
    BuildsTo project t step.session.stores r.skipped step.files ∧
      (Compiler.load step.files project.root = .ok s.compiler →
        Program.load step.files project s.compiler = .ok step.session.program →
        BuildsTo project step.files step.session.stores r.skipped step.files) := by
  have hproject : s.project = project :=
    (sameProject_of_reaches hrun).project.trans (began_of_start hstart).project_eq
  obtain ⟨hsame, hrebuild⟩ := isRebuild_of_handle hstart hrun hgen hapart hstep hresult hfree
  have hproject' : step.session.project = project := hsame.project.trans hproject
  subst hproject'
  rw [← hsame.compiler] at hconfig ⊢
  exact buildsTo_of_isRebuild hrebuild hconfig hgen hapart hopen hfree

/-- A source that has had no store, and then is given one. -/
theorem rebuilt_eq_scratch_of_first_store : ∃ s₀ r,
    start Sample.project .empty (Sample.tree "") = .ok s₀ ∧
    (s₀.handle (Sample.tree Sample.store) .changed Sample.path).result = .ok (.rebuilt r) ∧
    r.skipped = false ∧
    BuildsTo Sample.project (Sample.tree Sample.store)
      (s₀.handle (Sample.tree Sample.store) .changed Sample.path).session.stores r.skipped
      (s₀.handle (Sample.tree Sample.store) .changed Sample.path).files := by
  have heval : ((start Sample.project .empty (Sample.tree "")).toOption.any fun s₀ =>
      decide (Compiler.load (Sample.tree Sample.store) Sample.project.root = .ok s₀.compiler) &&
      (reportOf (s₀.handle (Sample.tree Sample.store) .changed Sample.path).result).any fun r =>
        !r.skipped) = true := by
    decide +kernel
  obtain ⟨s₀, hstart, h⟩ := exists_of_toOption_any heval
  rw [Bool.and_eq_true, decide_eq_true_eq] at h
  obtain ⟨hconfig, h⟩ := h
  obtain ⟨r, hresult, h⟩ := exists_of_reportOf_any h
  have hskipped : r.skipped = false := by simpa using h
  have hproject := (began_of_start hstart).project_eq
  -- nothing has been generated yet, so there is nothing that could be mistaken
  have hmissing : ∀ out ∈ Sample.project.outputs,
      ((Sample.tree "").read out).isOk = false ∧
        ((Sample.tree Sample.store).read out).isOk = false ∧
        ((Sample.tree "").at? out.target).isNone ∧
        ((Sample.tree Sample.store).at? out.target).isNone := by decide +kernel
  have hedit : Move (s₀, Sample.tree "") (s₀, Sample.tree Sample.store) := by
    apply Move.edit s₀
    intro out hout
    obtain ⟨hread, -, hbefore, hnow⟩ := hmissing out (hproject ▸ hout)
    refine ⟨(Option.isNone_iff_eq_none.1 hnow).trans (Option.isNone_iff_eq_none.1 hbefore).symm, ?_⟩
    intro c hc
    rw [hc] at hread
    cases hread
  have hafter := (sameProject_move (.handle s₀ (Sample.tree Sample.store) .changed
    Sample.path)).project.trans hproject
  have hapart : (s₀.handle (Sample.tree Sample.store) .changed Sample.path).session.TellsApart
      (Sample.tree Sample.store) := by
    refine tellsApart_of_missing ?_ fun out hout => (hmissing out (hafter ▸ hout)).2.1
    rw [hafter]
    decide +kernel
  have hopen : r.skipped = true →
      ∀ out ∈ Sample.project.outputs, (Sample.tree Sample.store).IsOpen out := by
    intro h
    rw [hskipped] at h
    cases h
  refine ⟨s₀, r, hstart, hresult, hskipped, ?_⟩
  exact (rebuilt_eq_scratch hstart (.single hedit) (by decide +kernel) (by decide +kernel)
    hconfig rfl hresult hopen hapart).1

/-- A project whose two generated files are one file, spelled in two ways. -/
def aliased : Project :=
  { Sample.project with
    loader := Sample.project.generatedDirectory.joinText "a/../Stores.ts"
    declarations := Sample.project.generatedDirectory.joinText "Stores.ts" }

/-- If only the loader seems to have changed, only the loader is put. -/
lemma files_writeFiles_of_known (hstores : s.stores ≠ [])
    (hne : s.project.declarations.components ≠ s.project.loader.components)
    (hloader : s.ledger.get? s.project.loader ≠ some (Ledger.digest s.loader.toUTF8))
    (hdeclarations : s.ledger.get? s.project.declarations =
      some (Ledger.digest s.declarations.toUTF8))
    (hput : (t.put s.project.loader s.loader.toUTF8).1 = .ok ()) :
    (s.writeFiles t).files = (t.put s.project.loader s.loader.toUTF8).2 := by
  rw [writeFiles_of_stores_ne_nil hstores, outputs, writeAll]
  -- the loader is put, and what is known of the declarations stays as it is
  rcases Ledger.write_cases s.ledger t s.project.loader s.loader.toUTF8 with
    ⟨hget, -⟩ | ⟨-, ⟨-, hw⟩ | ⟨e, he, -⟩⟩
  · exact absurd hget hloader
  · rw [hw]
    dsimp only
    rw [writeAll]
    rcases Ledger.write_cases (s.ledger.record s.project.loader s.loader.toUTF8)
      (t.put s.project.loader s.loader.toUTF8).2 s.project.declarations
      s.declarations.toUTF8 with ⟨-, hw'⟩ | ⟨hget, -⟩
    · rw [hw']
      rfl
    · rw [Ledger.get?_record_of_ne _ hne] at hget
      exact absurd hdeclarations hget
  · rw [hput] at he
    cases he

/-- A new session that finds the declarations in both generated files takes the loader for changed,
and only the loader. -/
lemma files_writeFiles_of_began_of_read (h : Began project .empty u f) (hstores : f.stores ≠ [])
    (hne : project.declarations.components ≠ project.loader.components)
    (hdigest : Ledger.digest f.loader.toUTF8 ≠ Ledger.digest f.declarations.toUTF8)
    (hreads : ∀ out ∈ project.outputs, u.read out = .ok f.declarations.toUTF8) :
    (f.writeFiles u).files = (u.put project.loader f.loader.toUTF8).2 ∧
      (u.put project.loader f.loader.toUTF8).1 = .ok () := by
  obtain rfl := h.project_eq
  have hseen : ∀ out ∈ f.project.outputs,
      f.ledger.get? out = some (Ledger.digest f.declarations.toUTF8) := by
    intro out hout
    rcases h.recorded (.inr hne.symm) out hout with ⟨c, hc, hget⟩ | ⟨hmissing, -⟩
    · rw [hreads out hout] at hc
      rw [hget, Except.ok.inj hc]
    · rw [hreads out hout] at hmissing
      cases hmissing
  have hput := Tree.put_of_isFile (hreads f.project.loader (by simp [Project.outputs]))
    f.loader.toUTF8
  have hdone : (u.put f.project.loader f.loader.toUTF8).1 = .ok () := by rw [hput]
  refine ⟨files_writeFiles_of_known hstores hne ?_ (hseen _ (by simp [Project.outputs])) hdone, hdone⟩
  rw [hseen _ (by simp [Project.outputs])]
  exact fun heq => hdigest (Option.some.inj heq).symm

/-- Files in which both generated files read the declarations are not what building from scratch
leaves: it puts the loader. -/
lemma not_buildsTo_of_read (hproject : s.project = project)
    (hne : project.declarations.components ≠ project.loader.components)
    (hdigest : Ledger.digest s.loader.toUTF8 ≠ Ledger.digest s.declarations.toUTF8)
    (hreads : ∀ out ∈ project.outputs, u.read out = .ok s.declarations.toUTF8) :
    ¬BuildsTo project u s.stores false u := by
  rintro ⟨f, r, hf, hstores, hresult, hskipped, hfiles⟩
  have hbegan := began_of_start hf
  -- the new session is to write the same texts
  have houtputs : f.loader = s.loader ∧ f.declarations = s.declarations := by
    have h := outputs_congr (hbegan.project_eq.trans hproject.symm) hstores
    simp only [outputs, List.cons.injEq, Prod.mk.injEq, and_true] at h
    exact ⟨h.1.2, h.2.2⟩
  rw [← houtputs.1, ← houtputs.2] at hdigest
  rw [← houtputs.2] at hreads
  obtain ⟨hwritten, hput⟩ := files_writeFiles_of_began_of_read hbegan
    (stores_ne_nil_of_not_skipped hresult hskipped) hne hdigest hreads
  have hread := Tree.read_put hput
  rw [← hwritten, hfiles, hreads project.loader (by simp [Project.outputs])] at hread
  exact hdigest (by rw [Except.ok.inj hread])

/-- Where the two generated files are one file, a rebuild leaves the declarations in it, which are
written last. Building from scratch then leaves the loader: the declarations are there already. -/
theorem rebuilt_ne_scratch : ∃ s₀ r,
    start aliased .empty (Sample.tree Sample.store) = .ok s₀ ∧
    (∀ out ∈ aliased.outputs, aliased.isGenerated out = true) ∧
    (s₀.handle (Sample.tree Sample.store) .added Sample.path).result = .ok (.rebuilt r) ∧
    r.skipped = false ∧
    CollisionFree [(s₀.handle (Sample.tree Sample.store) .added Sample.path).session.loader.toUTF8,
      (s₀.handle (Sample.tree Sample.store) .added Sample.path).session.declarations.toUTF8] ∧
    ¬BuildsTo aliased (s₀.handle (Sample.tree Sample.store) .added Sample.path).files
      (s₀.handle (Sample.tree Sample.store) .added Sample.path).session.stores r.skipped
      (s₀.handle (Sample.tree Sample.store) .added Sample.path).files := by
  have heval : ((start aliased .empty (Sample.tree Sample.store)).toOption.any fun s₀ =>
      let step := s₀.handle (Sample.tree Sample.store) .added Sample.path
      ((reportOf step.result).any fun r => !r.skipped) &&
      decide (Ledger.digest step.session.loader.toUTF8 ≠
        Ledger.digest step.session.declarations.toUTF8) &&
      (aliased.outputs.all fun out =>
        decide ((step.files.read out).toOption = some step.session.declarations.toUTF8))) = true := by
    decide +kernel
  obtain ⟨s₀, hstart, h⟩ := exists_of_toOption_any heval
  have hproject : (s₀.handle (Sample.tree Sample.store) .added Sample.path).session.project =
      aliased :=
    (sameProject_move (.handle s₀ (Sample.tree Sample.store) .added Sample.path)).project.trans
      (began_of_start hstart).project_eq
  dsimp only at h
  generalize hstep : s₀.handle (Sample.tree Sample.store) .added Sample.path = step at h hproject
  rw [Bool.and_eq_true, Bool.and_eq_true, decide_eq_true_eq] at h
  obtain ⟨⟨hrebuilt, hdigest⟩, hread⟩ := h
  obtain ⟨r, hresult, hnot⟩ := exists_of_reportOf_any hrebuilt
  have hskipped : r.skipped = false := by simpa using hnot
  have hreads : ∀ out ∈ aliased.outputs,
      step.files.read out = .ok step.session.declarations.toUTF8 := by
    intro out hout
    have hout := of_decide_eq_true (List.all_eq_true.1 hread out hout)
    cases hr : step.files.read out with
    | error e => rw [hr] at hout; cases hout
    | ok c => rw [hr] at hout; rw [Option.some.inj hout]
  refine ⟨s₀, r, hstart, by decide +kernel, by rw [hstep, hresult], hskipped, ?_⟩
  rw [hstep, hskipped]
  exact ⟨Ledger.collisionFree_pair hdigest,
    not_buildsTo_of_read hproject (by decide +kernel) hdigest hreads⟩

/-- A project in which one generated file stands where a directory of the other is needed. -/
def nested : Project :=
  { Sample.project with
    loader := Sample.project.generatedDirectory.joinText "A"
    declarations := Sample.project.generatedDirectory.joinText "A/B" }

/-- Where one generated file blocks the other, the last store can still be removed, and there is
nothing to write; but a new session cannot begin. -/
lemma rebuilt_ne_scratch_of_blocked : ∃ s₀ t r,
    start nested .empty (Sample.tree Sample.store) = .ok s₀ ∧
    (s₀.handle (Sample.tree Sample.store) .added Sample.path).result = .error .inaccessible ∧
    (s₀.handle (Sample.tree Sample.store) .added Sample.path).files.remove Sample.path = .ok t ∧
    ((s₀.handle (Sample.tree Sample.store) .added Sample.path).session.handle t .removed
      Sample.path).result = .ok (.rebuilt r) ∧ r.skipped = true ∧
    (start nested .empty t).toOption.isNone = true := by
  have heval : ((start nested .empty (Sample.tree Sample.store)).toOption.any fun s₀ =>
      let first := s₀.handle (Sample.tree Sample.store) .added Sample.path
      decide (first.result = .error .inaccessible) &&
      (first.files.remove Sample.path).toOption.any fun t =>
        (start nested .empty t).toOption.isNone &&
        (reportOf (first.session.handle t .removed Sample.path).result).any fun r =>
          r.skipped) = true := by
    decide +kernel
  obtain ⟨s₀, hstart, h⟩ := exists_of_toOption_any heval
  rw [Bool.and_eq_true, decide_eq_true_eq] at h
  obtain ⟨herror, h⟩ := h
  obtain ⟨t, ht, h⟩ := exists_of_toOption_any h
  rw [Bool.and_eq_true] at h
  obtain ⟨hnone, h⟩ := h
  obtain ⟨r, hresult, hskipped⟩ := exists_of_reportOf_any h
  exact ⟨s₀, t, r, hstart, herror, ht, hresult, hskipped, hnone⟩

end StoreBindings.Session
