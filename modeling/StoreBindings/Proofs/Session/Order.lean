import StoreBindings.Proofs.Path.Normal
import StoreBindings.Proofs.Session.Batch
import StoreBindings.Proofs.Session.FromScratch
import StoreBindings.Proofs.Store.File

/-!
# Edits that are told of one after the other

Every change that is followed has all sources read again, and the ledger learns the contents of all of
them, also of those that no change has been told of yet. So of several edited files only the one that
is told of first is found to have changed, and it alone decides whether the generated files are
rebuilt: `order_iff`.

* `CaughtUp` — a session that has the stores of a program and knows the contents of its modules.
* `handle_of_caughtUp` — to such a session an edit that the program already has is nothing new.
* `isKnown_eq_false_of_edited` — to a session that was built before the edits, an edit is new.
-/

namespace StoreBindings

/-- Two spellings of one file read the same. -/
lemma Files.Tree.eq_of_read {t : Tree} {p q : Path} {c d : ByteArray} (hp : t.read p = .ok c)
    (hq : t.read q = .ok d) (h : p.target = q.target) : c = d := by
  have hc := (read_eq_ok_iff.1 hp).2
  rw [h, (read_eq_ok_iff.1 hq).2, Option.some.injEq, Entry.file.injEq] at hc
  exact hc.symm

namespace Session

open Files (Tree)
open Config (Project Compiler)

variable {project : Project} {s s₀ f : Session} {t t₀ t₁ : Tree} {P : Program} {path p : Path}

/-! ## Files of stores -/

lemma isStoreFile_normalize (s : Session) (p : Path) :
    s.isStoreFile p.normalize = s.isStoreFile p := by
  unfold isStoreFile storeAt?
  rw [Path.normalize_normalize]

/-- A file that declares a store of a program is one of its modules. -/
lemma exists_module_of_isStoreFile
    (hstores : s.stores = Program.stores (P.extractions s.project.directories))
    (h : s.isStoreFile p = true) : ∃ m ∈ P.modules, m.path.components = p.normalize.components := by
  obtain ⟨store, hstore⟩ := Option.isSome_iff_exists.1 h
  have hmem : store ∈ Program.stores (P.extractions s.project.directories) := by
    rw [← hstores]
    exact List.mem_of_find?_eq_some hstore
  obtain ⟨m, hm, hfile⟩ := Program.exists_module_of_mem_stores hmem
  have hsame := List.find?_some hstore
  rw [hfile.file] at hsame
  exact ⟨m, hm, by simpa [Path.same] using hsame⟩

/-! ## Sessions that have read everything -/

/-- The session has the stores of a program, and knows the contents of all of its modules. -/
structure CaughtUp (s : Session) (P : Program) : Prop where
  stores : s.stores = Program.stores (P.extractions s.project.directories)
  known : ∀ m ∈ P.modules, s.ledger.get? m.path = some (Ledger.digest m.content)

/-- Two modules at one path have one content. -/
lemma content_eq_of_components (hP : P.IsLoaded t project) {m m' : Syntax.Module}
    (hm : m ∈ P.modules) (hm' : m' ∈ P.modules)
    (h : m.path.components = m'.path.components) : m.content = m'.content :=
  Tree.eq_of_read (hP.read m hm) (hP.read m' hm') (Path.target_congr h)

/-- A session that has read a program and found its stores has caught up with it. -/
lemma caughtUp_process (hP : P.IsLoaded t project) (s : Session) :
    CaughtUp (s.withProgram P).process P := by
  refine ⟨rfl, ?_⟩
  intro m hm
  rw [process_ledger]
  rcases s.get?_withProgram P m.path with ⟨m', hm', hpath, hget⟩ | ⟨hnot, -⟩
  · rw [hget, content_eq_of_components hP hm' hm hpath]
  · exact absurd rfl (hnot m hm)

/-- A module whose content is known is known for as long as its file has that content. -/
lemma isKnown_of_module (hP : P.IsLoaded t project) {m : Syntax.Module} (hm : m ∈ P.modules)
    (hknown : s.ledger.get? m.path = some (Ledger.digest m.content))
    (hpath : m.path.components = p.components) {c : ByteArray} (hread : t.read p = .ok c) :
    s.isKnown t p = true := by
  have hcontent := Tree.eq_of_read (hP.read m hm) hread (Path.target_congr hpath)
  have hget : s.ledger.get? p = some (Ledger.digest c) := by
    unfold Ledger.get? at hknown ⊢
    rw [← hpath, hknown, hcontent]
  unfold Session.isKnown
  rw [hread]
  simp [Ledger.isChanged, hget]

lemma CaughtUp.isKnown (h : CaughtUp s P) (hP : P.IsLoaded t project) {m : Syntax.Module}
    (hm : m ∈ P.modules) (hpath : m.path.components = p.components) {c : ByteArray}
    (hread : t.read p = .ok c) : s.isKnown t p = true :=
  isKnown_of_module hP hm (h.known m hm) hpath hread

/-- To a session that has caught up, an edit that its program already has is nothing new. -/
theorem handle_of_caughtUp (h : CaughtUp s P) (hP : Program.load t s.project s.compiler = .ok P)
    {c : ByteArray} (hread : t.read path.normalize = .ok c) :
    SameProject s (s.handle t .changed path).session ∧
      CaughtUp (s.handle t .changed path).session P ∧ (s.handle t .changed path).files = t := by
  have hloaded := Program.isLoaded_of_load hP
  have hhandled := handled s t .changed path
  generalize s.handle t .changed path = step at hhandled ⊢
  cases hhandled with
  | ignored _ => exact ⟨⟨rfl, rfl⟩, h, rfl⟩
  | unchanged _ _ _ => exact ⟨⟨rfl, rfl⟩, h, rfl⟩
  | failed _ hfail => rw [hP] at hfail; cases hfail
  | @rebuilt hp hunknown P' hP' hconcerns =>
    cases Except.ok.inj (hP.symm.trans hP')
    -- a file of a store is a module, and modules are known
    have hmodule : ∃ m ∈ P.modules, m.path.components = path.normalize.components := by
      rw [← Path.normalize_normalize path]
      rcases hconcerns with ⟨-, hbefore⟩ | ⟨-, hnow⟩
      · exact exists_module_of_isStoreFile h.stores hbefore
      · exact exists_module_of_isStoreFile rfl hnow
    obtain ⟨m, hm, hpath⟩ := hmodule
    exact absurd ⟨rfl, h.isKnown hloaded hm hpath hread⟩ hunknown
  | gone _ _ hchange _ => cases hchange
  | @found hp _ P' hP' _ _ =>
    cases Except.ok.inj (hP.symm.trans hP')
    have hsame := (sameProject_reread s .changed path.normalize P).trans (sameProject_process _)
    exact ⟨hsame, caughtUp_process hloaded (s.forgetting .changed path.normalize), rfl⟩

lemma files_handleAll_of_caughtUp (h : CaughtUp s P)
    (hP : Program.load t s.project s.compiler = .ok P) {ps : List Path}
    (hread : ∀ p ∈ ps, ∃ c, t.read p.normalize = .ok c) :
    (s.handleAll t (ps.map (Change.changed, ·))).2.2 = t := by
  induction ps generalizing s with
  | nil => rfl
  | cons p ps ih =>
    obtain ⟨c, hc⟩ := hread p List.mem_cons_self
    obtain ⟨hsame, hcaught, hfiles⟩ := handle_of_caughtUp h hP hc
    show ((s.handle t .changed p).session.handleAll (s.handle t .changed p).files
      (ps.map (Change.changed, ·))).2.2 = t
    rw [hfiles]
    exact ih hcaught (by rw [hsame.project, hsame.compiler]; exact hP)
      fun p hp => hread p (List.mem_cons_of_mem _ hp)

/-! ## Edits after a build -/

/-- A session that has begun and then written the generated files, and the files that it has left. -/
def Built (project : Project) (s : Session) (t : Tree) : Prop :=
  ∃ s₀ t₀ r, start project .empty t₀ = .ok s₀ ∧ s₀.TellsApart t₀ ∧
    (s₀.writeFiles t₀).result = .ok r ∧ r.skipped = false ∧
    s = (s₀.writeFiles t₀).session ∧ t = (s₀.writeFiles t₀).files

/-- A file that is still there has got another content, with another digest. -/
def Edited (t t' : Tree) (p : Path) : Prop :=
  ∃ old new, t.read p = .ok old ∧ t'.read p = .ok new ∧ old ≠ new ∧
    Ledger.CollisionFree [old, new]

/-- Of files at other places, writing the generated files changes neither the content nor what is
known. -/
lemma writeFiles_of_ne (hne : ∀ out ∈ s.project.outputs, p.target ≠ out.target) :
    (s.writeFiles t).session.ledger.get? p = s.ledger.get? p ∧
      Tree.KeepsFile t (s.writeFiles t).files p.target := by
  refine writeFiles_induction
    (M := fun l t' => l.get? p = s.ledger.get? p ∧ Tree.KeepsFile t t' p.target) ?_
    ⟨rfl, fun _ => id⟩
  intro l t' o ho ⟨hget, hkeep⟩
  have hp := hne o.1 (fst_mem_outputs ho)
  refine ⟨?_, hkeep.trans (Ledger.keepsFile_write_of_ne hp)⟩
  rw [Ledger.get?_write_of_ne fun he => hp (Path.target_congr he)]
  exact hget

/-- A session that has just been built knows of a file that is not generated, if anything, the content
that is there. -/
lemma Built.known (h : Built project s t)
    (hgen : ∀ out ∈ project.outputs, project.isGenerated out = true)
    (hp : project.isGenerated p = false) (hne : ∀ out ∈ project.outputs, p.target ≠ out.target)
    {c : ByteArray} (hread : t.read p = .ok c) {d : String} (hd : s.ledger.get? p = some d) :
    d = Ledger.digest c := by
  obtain ⟨s₀, t₀, r, hstart, -, -, -, rfl, rfl⟩ := h
  have hbegan := began_of_start hstart
  obtain ⟨hget, hkeep⟩ := writeFiles_of_ne (s := s₀) (t := t₀) (p := p)
    (by rw [hbegan.project_eq]; exact hne)
  rw [hget, hbegan.known p fun out hout =>
    Project.components_ne_of_isGenerated hp (hgen out hout)] at hd
  -- a file that is not generated is known from the sources, or not at all
  rcases get?_withProgram ⟨project, s₀.compiler, .empty, [], [], .empty⟩ s₀.program p with
    ⟨m, hm, hpath, hmodule⟩ | ⟨-, hnone⟩
  · have hcontent : m.content = c := by
      have hm' := (Tree.read_eq_ok_iff.1 ((Program.isLoaded_of_load hbegan.program).read m hm)).2
      rw [Path.target_congr hpath] at hm'
      have hc := hkeep _ hm'
      rw [(Tree.read_eq_ok_iff.1 hread).2, Option.some.injEq, Files.Entry.file.injEq] at hc
      exact hc.symm
    rw [← hcontent]
    exact (Option.some.inj (hmodule.symm.trans hd)).symm
  · exact absurd (hnone.symm.trans hd) (by simp)

/-- To a session that was built before, an edit is new. -/
theorem isKnown_eq_false_of_edited (h : Built project s t₁)
    (hgen : ∀ out ∈ project.outputs, project.isGenerated out = true)
    (hp : project.isGenerated p = false) (hne : ∀ out ∈ project.outputs, p.target ≠ out.target)
    (hedited : Edited t₁ t p) : s.isKnown t p = false := by
  obtain ⟨old, new, hold, hnew, hdiffer, hfree⟩ := hedited
  unfold isKnown
  rw [hnew]
  cases hget : s.ledger.get? p with
  | none => simp [Ledger.isChanged, hget]
  | some d =>
    have hd := h.known hgen hp hne hold hget
    have hdigest : Ledger.digest old ≠ Ledger.digest new :=
      fun he => hdiffer (hfree old (by simp) new (by simp) he)
    simpa [Ledger.isChanged, hget, hd] using hdigest

/-- An edited file is none of the generated files, if nobody has touched them. -/
lemma Edited.target_ne (h : Edited t₁ t p) {out : Path} (hout : t₁.LeavesAlone t out) :
    p.target ≠ out.target := by
  obtain ⟨old, new, hold, hnew, hdiffer, -⟩ := h
  intro heq
  have hsame := hout.1
  rw [← heq, (Tree.read_eq_ok_iff.1 hold).2, (Tree.read_eq_ok_iff.1 hnew).2] at hsame
  cases hsame
  exact hdiffer rfl

/-- The generated files of a session that has just been built read what they are to read. -/
lemma Built.read (h : Built project s t)
    (hgen : ∀ out ∈ project.outputs, project.isGenerated out = true)
    (hne : project.loader.target ≠ project.declarations.target) :
    ∀ o ∈ s.outputs, t.read o.1 = .ok o.2.toUTF8 := by
  obtain ⟨s₀, t₀, r, hstart, hfree, hresult, hskipped, rfl, rfl⟩ := h
  have hbegan := began_of_start hstart
  have hproject := hbegan.project_eq
  have hstores : s₀.stores ≠ [] := stores_ne_nil_of_not_skipped hresult hskipped
  have houtputs : (s₀.writeFiles t₀).session.outputs = s₀.outputs := by
    rw [writeFiles_session]
    rfl
  obtain ⟨hfiles, hok⟩ := writeFiles_of_began hbegan (.inr hne) hgen hstores hfree
  rw [hresult] at hok
  rw [houtputs, hfiles]
  intro o ho
  exact read_putAll_of_mem (hproject ▸ hne) (eq_ok_of_isOk hok.symm) ho

lemma Built.project_eq (h : Built project s t) : s.project = project := by
  obtain ⟨s₀, t₀, r, hstart, -, -, -, rfl, -⟩ := h
  exact (sameProject_writeFiles s₀ t₀).project.trans (began_of_start hstart).project_eq

/-- The generated files of a session that has just been built are there, also after other files have
been edited. -/
lemma Built.isFile (h : Built project s t₁)
    (hgen : ∀ out ∈ project.outputs, project.isGenerated out = true)
    (hne : project.loader.target ≠ project.declarations.target)
    (hedit : ∀ out ∈ project.outputs, t₁.LeavesAlone t out) {out : Path}
    (hout : out ∈ project.outputs) : t.isFile out = true := by
  obtain ⟨o, ho, rfl⟩ := exists_mem_outputs (h.project_eq ▸ hout)
  exact Tree.isFile_iff.2 ⟨_, (hedit o.1 hout).2 _ (h.read hgen hne o ho)⟩

/-- Written by a session that begins where the generated files are there already, they read what they
are to read. -/
lemma writeFiles_of_start (hf : start project .empty t = .ok f)
    (hgen : ∀ out ∈ project.outputs, project.isGenerated out = true)
    (hne : project.loader.target ≠ project.declarations.target) (hfree : f.TellsApart t)
    (hfile : ∀ out ∈ project.outputs, t.isFile out = true) :
    (f.writeFiles t).result.isOk = true ∧
      (f.stores ≠ [] → ∀ o ∈ f.outputs, (f.writeFiles t).files.read o.1 = .ok o.2.toUTF8) := by
  have hbegan := began_of_start hf
  have hproject := hbegan.project_eq
  by_cases hnil : f.stores = []
  · rw [writeFiles_of_stores_eq_nil hnil]
    exact ⟨rfl, fun h => absurd hnil h⟩
  · obtain ⟨hfiles, hok⟩ := writeFiles_of_began hbegan (.inr hne) hgen hnil hfree
    have hwritten := (rewrites_writeFiles (s := f) (hproject ▸ hfile)).1
    refine ⟨hwritten, ?_⟩
    intro _ o ho
    rw [hok] at hwritten
    rw [hfiles]
    exact read_putAll_of_mem (hproject ▸ hne) (eq_ok_of_isOk hwritten) ho

/-- Generated files with the contents that one session gives them are left alone by another one of
the same project, if and only if it has no store or is to give them the same contents. -/
lemma read_writeFiles_iff (hproject : s.project = f.project)
    (hold : ∀ o ∈ s.outputs, t.read o.1 = .ok o.2.toUTF8)
    (hnew : f.stores ≠ [] → ∀ o ∈ f.outputs, (f.writeFiles t).files.read o.1 = .ok o.2.toUTF8) :
    (∀ out ∈ f.project.outputs, t.read out = (f.writeFiles t).files.read out) ↔
      f.stores = [] ∨ f.outputs = s.outputs := by
  constructor
  · intro hsame
    by_cases hnil : f.stores = []
    · exact .inl hnil
    · -- both texts are what is read there, so equal contents are equal texts
      have htexts : ∀ out a b, (out, a) ∈ s.outputs → (out, b) ∈ f.outputs → b = a := by
        intro out a b ha hb
        have hread := hsame out (fst_mem_outputs hb)
        rw [hold _ ha, hnew hnil _ hb] at hread
        exact (String.toByteArray_inj.1 (Except.ok.inj hread)).symm
      have hloader : f.loader = s.loader :=
        htexts f.project.loader _ _ (by simp [outputs, hproject]) (by simp [outputs])
      have hdeclarations : f.declarations = s.declarations :=
        htexts f.project.declarations _ _ (by simp [outputs, hproject]) (by simp [outputs])
      right
      unfold outputs
      rw [hproject, hloader, hdeclarations]
  · rintro (hnil | hsame) out hout
    · rw [writeFiles_of_stores_eq_nil hnil]
    · by_cases hnil : f.stores = []
      · rw [writeFiles_of_stores_eq_nil hnil]
      · obtain ⟨o, ho, rfl⟩ := exists_mem_outputs hout
        rw [hnew hnil o ho, hold o (hsame ▸ ho)]

/-! ## The first edit decides -/

section

variable {change : Change} {step : Step Outcome} {r : WriteReport}

/-- If the first change after a build leads to a rebuild, whatever follows it, what is left is what
building from scratch leaves. -/
lemma files_handleAll_of_rebuilt (hbuilt : Built project s t₁)
    (hgen : ∀ out ∈ project.outputs, project.isGenerated out = true)
    (hne : project.loader.target ≠ project.declarations.target)
    (hedit : ∀ out ∈ project.outputs, t₁.LeavesAlone t out)
    (hconfig : Compiler.load t project.root = .ok s.compiler)
    (hsources : SourcesApart project s.compiler t)
    (hf : start project .empty t = .ok f) (hfree : f.TellsApart t)
    (hstep : s.handle t change path = step) (hresult : step.result = .ok (.rebuilt r))
    (es : List (Change × Path)) :
    (step.session.handleAll step.files es).2.2 = (f.writeFiles t).files := by
  have hproject := hbuilt.project_eq
  have hfile : ∀ out ∈ project.outputs, t.isFile out = true :=
    fun out hout => hbuilt.isFile hgen hne hedit hout
  have hbegan := began_of_start hf
  obtain ⟨s₀, t₀, r₀, hstart, -, -, -, hs, ht⟩ := hbuilt
  have hrun : Reaches (s₀, t₀) (s, t) := by
    refine .tail (b := (s, t₁)) ?_ (.edit s (hproject ▸ hedit))
    rw [hs, ht]
    exact .single (.writeFiles s₀ t₀)
  -- the change has rebuilt as building from scratch does, and what follows it changes nothing
  rcases handle_of_pending (.refl s) (hproject ▸ hgen)
    (hproject ▸ fun he => hne (Path.target_congr he)) hstep (by rw [hresult]; rfl) with
    ⟨r', P, -, hP, hsame, hsettled, hfiles⟩ | ⟨hnot, -⟩
  · have hstores : step.session.stores = f.stores := by
      rw [hsettled.stores, hsame.project, hproject, hbegan.stores_eq hconfig (hproject ▸ hP)]
    have hfree' : step.session.TellsApart t :=
      hfree.congr ((hsame.project.trans hproject).trans hbegan.project_eq.symm) hstores
    obtain ⟨-, hrebuild⟩ :=
      isRebuild_of_handle hstart hrun hgen (.inr hne) hstep hresult hfree'
    have hproject' : step.session.project = project := hsame.project.trans hproject
    obtain ⟨⟨f', r'', hf', -, -, -, hscratch⟩, -⟩ := buildsTo_of_isRebuild hrebuild
      (by rw [hproject', hsame.compiler]; exact hconfig) (hproject' ▸ hgen)
      (hproject' ▸ .inr hne) (fun _ out hout => .inl
        (Tree.isFile_iff.1 (hfile out (hproject' ▸ hout)))) hfree'
    rw [hproject', hf] at hf'
    cases hf'
    rw [hscratch]
    refine files_handleAll_of_settled hsettled (hproject' ▸ hgen) ?_ es
    rw [hsame.project, hsame.compiler, hfiles]
    exact keepsSources_of_isFile (hproject ▸ hfile) (hproject ▸ hsources) P hP
  · exact absurd hresult (hnot r)

/-- An edit that is new leads to a rebuild if it concerns a store; if not, the session has caught up
and nothing else has happened. -/
lemma handle_of_new (hp : s.IsFollowed path.normalize)
    (hnew : s.isKnown t path.normalize = false) (hstep : s.handle t .changed path = step)
    (hok : step.result.isOk = true) :
    ∃ P, Program.load t s.project s.compiler = .ok P ∧
      (s.Concerns (s.reread .changed path.normalize P).process .changed path.normalize ∧
          (∃ r, step.result = .ok (.rebuilt r)) ∨
        ¬s.Concerns (s.reread .changed path.normalize P).process .changed path.normalize ∧
          step.session = (s.reread .changed path.normalize P).process ∧ step.files = t) := by
  have hhandled := handled s t .changed path
  rw [hstep] at hhandled
  cases hhandled with
  | ignored h => exact absurd hp h
  | unchanged _ _ h => rw [hnew] at h; cases h
  | failed _ _ => cases hok
  | @rebuilt _ _ P hP h =>
    obtain ⟨r, hr⟩ := exists_of_rebuiltStep_isOk hok
    exact ⟨P, hP, .inl ⟨h, r, result_rebuiltStep_iff.2 hr⟩⟩
  | gone _ _ hchange _ => cases hchange
  | @found _ _ P hP _ h => exact ⟨P, hP, .inr ⟨h, rfl, rfl⟩⟩

/-- Whether an edit concerns a store is decided by the stores before it and by those after it. -/
lemma concerns_changed_iff {found : Session} (h : found.stores = f.stores) :
    s.Concerns found .changed path.normalize ↔
      s.isStoreFile path = true ∨ f.isStoreFile path = true := by
  unfold Concerns
  rw [isStoreFile_congr h, isStoreFile_normalize, isStoreFile_normalize]
  simp

/-- After a build, files of the stores' directory have been edited, and each of the edits is told of.
What is left in the generated files is what building from scratch leaves in them, if and only if the
file that is told of first declared a store or declares one now, or there is no store any more, or the
generated files are to have the contents that they have already. -/
theorem order_iff (hbuilt : Built project s t₁)
    (hgen : ∀ out ∈ project.outputs, project.isGenerated out = true)
    (hne : project.loader.target ≠ project.declarations.target)
    (hedit : ∀ out ∈ project.outputs, t₁.LeavesAlone t out)
    (hconfig : Compiler.load t project.root = .ok s.compiler)
    (hsources : SourcesApart project s.compiler t)
    (hfree : ∀ f, start project .empty t = .ok f → f.TellsApart t)
    {first : Path} {rest : List Path}
    (hedited : ∀ p ∈ first :: rest, s.IsFollowed p.normalize ∧ Edited t₁ t p.normalize)
    (hok : ∀ r ∈ (s.handleAll t ((first :: rest).map (Change.changed, ·))).1, r.isOk = true) :
    ∃ f r, start project .empty t = .ok f ∧ (f.writeFiles t).result = .ok r ∧
      ((∀ out ∈ project.outputs,
          (s.handleAll t ((first :: rest).map (Change.changed, ·))).2.2.read out =
            (f.writeFiles t).files.read out) ↔
        s.isStoreFile first = true ∨ f.isStoreFile first = true ∨ f.stores = [] ∨
          f.outputs = s.outputs) := by
  have hproject := hbuilt.project_eq
  have hfile : ∀ out ∈ project.outputs, t.isFile out = true :=
    fun out hout => hbuilt.isFile hgen hne hedit hout
  obtain ⟨hfollowed, hchanged⟩ := hedited first List.mem_cons_self
  have hnew : s.isKnown t first.normalize = false :=
    isKnown_eq_false_of_edited hbuilt hgen (hproject ▸ hfollowed.1)
      (fun out hout => hchanged.target_ne (hedit out hout)) hchanged
  rw [List.map_cons, handleAll] at hok ⊢
  dsimp only at hok ⊢
  generalize hstep : s.handle t .changed first = step at hok ⊢
  obtain ⟨P, hP, hcases⟩ :=
    handle_of_new hfollowed hnew hstep (hok step.result List.mem_cons_self)
  obtain ⟨f, hf⟩ := exists_start hconfig (hproject ▸ hP)
    (fun out hout => .inl (Tree.isFile_iff.1 (hfile out hout))) .empty
  have hbegan := began_of_start hf
  have hstores : (s.reread .changed first.normalize P).process.stores = f.stores := by
    rw [stores_reread_process, hproject, hbegan.stores_eq hconfig (hproject ▸ hP)]
  obtain ⟨hwrite, hread⟩ := writeFiles_of_start hf hgen hne (hfree f hf) hfile
  obtain ⟨r, hresult⟩ := exists_of_isOk hwrite
  refine ⟨f, r, hf, hresult, ?_⟩
  -- the first two cases of the right-hand side are that the first edit concerns a store
  rw [concerns_changed_iff hstores] at hcases
  rw [← or_assoc]
  rcases hcases with ⟨hconcerns, r', hrebuilt⟩ | ⟨hnot, hsession, hfiles⟩
  · rw [files_handleAll_of_rebuilt hbuilt hgen hne hedit hconfig hsources hf (hfree f hf) hstep
      hrebuilt]
    exact ⟨fun _ => .inl hconcerns, fun _ _ _ => rfl⟩
  · -- nothing is written at all, and the generated files stay as they were built
    have hrest : (step.session.handleAll step.files (rest.map (Change.changed, ·))).2.2 = t := by
      rw [hfiles, hsession]
      refine files_handleAll_of_caughtUp (caughtUp_process (Program.isLoaded_of_load hP) _) ?_
        fun p hp => ?_
      · rw [process_project, process_compiler]
        exact (congrArg₂ (Program.load t) (reread_project ..) (reread_compiler ..)).trans hP
      · obtain ⟨-, old, new, -, hread', -⟩ := hedited p (List.mem_cons_of_mem _ hp)
        exact ⟨new, hread'⟩
    have hsame := hproject.trans hbegan.project_eq.symm
    have hold : ∀ o ∈ s.outputs, t.read o.1 = .ok o.2.toUTF8 := fun o ho =>
      (hedit o.1 (hproject ▸ fst_mem_outputs ho)).2 _ (hbuilt.read hgen hne o ho)
    rw [hrest, or_iff_right hnot, ← read_writeFiles_iff hsame hold hread, hbegan.project_eq]

end

end Session

namespace Sample

open Files (Tree)

/-- Edits of the files of the project. -/
def edited (t : Tree) (edits : List (Path × String)) : Tree :=
  edits.foldl (fun t e => ⟨t.entries.insert e.1.target (.file e.2.toUTF8)⟩) t

/-- An edit of a file that is none of the sources. -/
def noteEdit : List (Path × String) := [(notePath, " ")]

/-- Edits of both sources, of which the first one declares a store with another state then. -/
def sourceEdits : List (Path × String) :=
  [(otherPath, " "),
    (path, "export class S extends Store()\x7bget state()\x7breturn\x7ba:1\x7d\x7d\x7dexport const r=new S()")]

/-- The paths are those of files that changes are followed of, and of none that is generated. -/
lemma path_spec : ∀ p ∈ [path, otherPath, notePath],
    project.isGenerated p = false ∧ project.isInStores p = true ∧ p.normalize = p ∧
      ∀ out ∈ project.outputs, out.target ≠ p.target := by decide +kernel

end Sample

namespace Session

open Files (Tree)
open Config (Project Compiler)

variable {s s₀ f : Session} {t t' : Tree} {p : Path} {project : Project}

/-- Whether a file reads something with another digest. -/
def differs (t t' : Tree) (p : Path) : Bool :=
  (t.read p).toOption.any fun old => (t'.read p).toOption.any fun new =>
    Ledger.digest old != Ledger.digest new

/-- Whether a file reads one and the same content. -/
def agrees (t t' : Tree) (p : Path) : Bool :=
  -- the instance is named because there can be two of them in scope
  (t.read p).toOption.any fun c => (t'.read p).toOption.any fun c' =>
    @decide (c' = c) (ByteArray.instDecidableEq c' c)

lemma read_eq_of_agrees (h : agrees t t' p = true) : t'.read p = t.read p := by
  obtain ⟨c, hc, h⟩ := exists_of_toOption_any h
  obtain ⟨c', hc', h⟩ := exists_of_toOption_any h
  rw [hc, hc', of_decide_eq_true h]

lemma edited_of_differs (h : differs t t' p = true) : Edited t t' p := by
  obtain ⟨old, hold, h⟩ := exists_of_toOption_any h
  obtain ⟨new, hnew, h⟩ := exists_of_toOption_any h
  have hdigest : Ledger.digest old ≠ Ledger.digest new := by simpa using h
  exact ⟨old, new, hold, hnew, fun he => hdigest (congrArg _ he), Ledger.collisionFree_pair hdigest⟩

lemma rewrites_edited {ps : List Path} {edits : List (Path × String)}
    (hmem : ∀ e ∈ edits, e.1 ∈ ps) (hfile : ∀ e ∈ edits, t.isFile e.1 = true) :
    Rewrites t (Sample.edited t edits) ps := by
  induction edits generalizing t with
  | nil => exact .refl t ps
  | cons e rest ih =>
    have hfirst := rewrites_insert (hmem e List.mem_cons_self) (hfile e List.mem_cons_self)
      e.2.toUTF8
    exact hfirst.trans (ih (fun e he => hmem e (List.mem_cons_of_mem _ he)) fun e he =>
      (hfirst.isFile e.1).trans (hfile e (List.mem_cons_of_mem _ he)))

/-- The small project is built, and then files of it are edited. -/
lemma edits_of_sample {edits : List (Path × String)}
    (hstart : start Sample.project .empty (Sample.tree Sample.store) = .ok s₀)
    {r : WriteReport} (hresult : (s₀.writeFiles (Sample.tree Sample.store)).result = .ok r)
    (hskipped : r.skipped = false) {t₁ : Tree}
    (ht : (s₀.writeFiles (Sample.tree Sample.store)).files = t₁)
    (hmem : ∀ e ∈ edits, e.1 ∈ [Sample.path, Sample.otherPath, Sample.notePath])
    (hdiffers : ∀ e ∈ edits, differs t₁ (Sample.edited t₁ edits) e.1 = true) :
    Built Sample.project (s₀.writeFiles (Sample.tree Sample.store)).session t₁ ∧
      (∀ out ∈ Sample.project.outputs, t₁.LeavesAlone (Sample.edited t₁ edits) out) ∧
      ∀ p ∈ edits.map Prod.fst,
        (s₀.writeFiles (Sample.tree Sample.store)).session.IsFollowed p.normalize ∧
          Edited t₁ (Sample.edited t₁ edits) p.normalize := by
  have hproject := (began_of_start hstart).project_eq
  have hfree : s₀.TellsApart (Sample.tree Sample.store) := by
    refine tellsApart_of_missing (by rw [hproject]; decide +kernel) ?_
    intro out hout
    exact (Sample.missing out (hproject ▸ hout)).1
  have hfile : ∀ e ∈ edits, t₁.isFile e.1 = true := by
    intro e he
    obtain ⟨old, new, hold, -⟩ := edited_of_differs (hdiffers e he)
    exact Tree.isFile_iff.2 ⟨old, hold⟩
  refine ⟨⟨s₀, _, r, hstart, hfree, hresult, hskipped, rfl, ht.symm⟩, ?_, ?_⟩
  · intro out hout
    exact (rewrites_edited hmem hfile).leavesAlone fun p hp => (Sample.path_spec p hp).2.2.2 out hout
  · intro p hp
    obtain ⟨e, he, rfl⟩ := List.mem_map.1 hp
    obtain ⟨hnot, hin, hnormal, -⟩ := Sample.path_spec e.1 (hmem e he)
    unfold IsFollowed
    rw [hnormal, (sameProject_writeFiles s₀ _).project, hproject]
    exact ⟨⟨hnot, hin⟩, edited_of_differs (hdiffers e he)⟩

/-- What a session writes has the digest of what it is to write, whether it is written or skipped. -/
lemma digest_of_writeFiles (hf : start project .empty t = .ok f)
    (hgen : ∀ out ∈ project.outputs, project.isGenerated out = true)
    (hne : project.loader.target ≠ project.declarations.target)
    (hfile : ∀ out ∈ project.outputs, t.isFile out = true) (hstores : f.stores ≠ [])
    {o : Path × String} (ho : o ∈ f.outputs) :
    ∃ c, (f.writeFiles t).files.read o.1 = .ok c ∧
      Ledger.digest c = Ledger.digest o.2.toUTF8 := by
  have hproject := (began_of_start hf).project_eq
  have hget := get?_writeFiles hstores (rewrites_writeFiles (hproject ▸ hfile)).1
    (hproject ▸ fun he => hne (Path.target_congr he)) ho
  exact tracks_of_reaches hf (.single (.writeFiles f t)) hgen (.inr hne)
    (hproject ▸ fst_mem_outputs ho) _ hget

/-- Two sessions that begin with the same sources are to write the same. -/
lemma outputs_eq_of_sources (hstart : start project .empty t = .ok s₀)
    (hf : start project .empty t' = .ok f) (hconfig : Compiler.load t' project.root = .ok s₀.compiler)
    {paths : List Path} (hpaths : project.sources t s₀.compiler = .ok paths)
    (hpaths' : project.sources t' s₀.compiler = .ok paths)
    (hread : ∀ p ∈ paths, t'.read p = t.read p) : f.outputs = s₀.outputs := by
  have hbegan := began_of_start hstart
  have hbegan' := began_of_start hf
  have hprogram : f.program = s₀.program := by
    obtain ⟨qs, hqs, hload⟩ := Program.load_eq_ok_iff.1 hbegan.program
    obtain ⟨qs', hqs', hload'⟩ := Program.load_eq_ok_iff.1 hbegan'.program
    rw [← Except.ok.inj (hconfig.symm.trans hbegan'.compiler)] at hqs'
    cases Except.ok.inj (hpaths.symm.trans hqs)
    cases Except.ok.inj (hpaths'.symm.trans hqs')
    rw [hload, hload', Program.read_congr hread]
  refine outputs_congr (hbegan'.project_eq.trans hbegan.project_eq.symm) ?_
  rw [hbegan.stores, hbegan'.stores, hprogram]

/-- After a build whose files are left alone, a new session that is to write the same tells what it finds
from what it is to write. -/
lemma Built.tellsApart {t₁ : Tree} (hbuilt : Built project s t₁)
    (hgen : ∀ out ∈ project.outputs, project.isGenerated out = true)
    (hne : project.loader.target ≠ project.declarations.target)
    (hedit : ∀ out ∈ project.outputs, t₁.LeavesAlone t out) (hf : start project .empty t = .ok f)
    (hsame : f.outputs = s.outputs) : f.TellsApart t := by
  have hproject := (began_of_start hf).project_eq
  refine tellsApart_of_read (fun he => hne ?_) fun o ho => ?_
  · rw [← hproject, he]
  · have hout := hproject ▸ fst_mem_outputs ho
    rw [hsame] at ho
    exact (hedit o.1 hout).2 _ (hbuilt.read hgen hne o ho)

/-- A file that is none of the sources is edited after a build. -/
theorem order_iff_of_note : ∃ s t₁ f r, Built Sample.project s t₁ ∧
    start Sample.project .empty (Sample.edited t₁ Sample.noteEdit) = .ok f ∧
    (f.writeFiles (Sample.edited t₁ Sample.noteEdit)).result = .ok r ∧
    ∀ out ∈ Sample.project.outputs,
      (s.handleAll (Sample.edited t₁ Sample.noteEdit) [(.changed, Sample.notePath)]).2.2.read out =
        (f.writeFiles (Sample.edited t₁ Sample.noteEdit)).files.read out := by
  have heval : ((start Sample.project .empty (Sample.tree Sample.store)).toOption.any fun s₀ =>
      let built := s₀.writeFiles (Sample.tree Sample.store)
      let t := Sample.edited built.files Sample.noteEdit
      (built.result.toOption.any fun r => !r.skipped) &&
      (Sample.noteEdit.all fun e => differs built.files t e.1) &&
      (built.session.handleAll t [(.changed, Sample.notePath)]).1.all (·.isOk) &&
      decide (Compiler.load t Sample.project.root = .ok s₀.compiler) &&
      (Sample.project.sources t s₀.compiler).toOption.any fun paths =>
        (Sample.project.sources (Sample.tree Sample.store) s₀.compiler).toOption.any fun paths₀ =>
          decide (paths₀ = paths) && paths.all fun p =>
            (Sample.project.outputs.all fun out => p.target != out.target) &&
              agrees (Sample.tree Sample.store) t p) = true := by decide +kernel
  obtain ⟨s₀, hstart, h⟩ := exists_of_toOption_any heval
  simp only [Bool.and_eq_true, List.all_eq_true, decide_eq_true_eq] at h
  obtain ⟨⟨⟨⟨hbuild, hdiffers⟩, hok⟩, hconfig⟩, hsources⟩ := h
  obtain ⟨r₀, hresult, hskipped⟩ := exists_of_toOption_any hbuild
  obtain ⟨hbuilt, hedit, hedited⟩ := edits_of_sample hstart hresult (by simpa using hskipped) rfl
    (by decide) hdiffers
  have hsession := writeFiles_session s₀ (Sample.tree Sample.store)
  generalize s₀.writeFiles (Sample.tree Sample.store) = built at *
  generalize ht : Sample.edited built.files Sample.noteEdit = t at *
  have hcompiler : built.session.compiler = s₀.compiler := by rw [hsession]
  have houtputs : built.session.outputs = s₀.outputs := by rw [hsession]; rfl
  obtain ⟨paths, hpaths, h⟩ := exists_of_toOption_any hsources
  obtain ⟨paths₀, hpaths₀, h⟩ := exists_of_toOption_any h
  simp only [Bool.and_eq_true, List.all_eq_true, decide_eq_true_eq, bne_iff_ne] at h
  obtain ⟨rfl, hpath⟩ := h
  have hread : ∀ p ∈ paths₀, t.read p = (Sample.tree Sample.store).read p :=
    fun p hp => read_eq_of_agrees (hpath p hp).2
  have hgen : ∀ out ∈ Sample.project.outputs, Sample.project.isGenerated out = true := by
    decide +kernel
  have hne : Sample.project.loader.target ≠ Sample.project.declarations.target := by
    decide +kernel
  -- the sources are the same as before, so there is nothing else to be written
  have hapart : SourcesApart Sample.project built.session.compiler t := by
    intro paths hpaths' p hp out hout
    rw [hcompiler] at hpaths'
    cases Except.ok.inj (hpaths.symm.trans hpaths')
    exact (hpath p hp).1 out hout
  have hsame : ∀ f, start Sample.project .empty t = .ok f → f.outputs = built.session.outputs :=
    fun f hf => (outputs_eq_of_sources hstart hf hconfig hpaths₀ hpaths hread).trans houtputs.symm
  have hfree : ∀ f, start Sample.project .empty t = .ok f → f.TellsApart t :=
    fun f hf => hbuilt.tellsApart hgen hne hedit hf (hsame f hf)
  obtain ⟨f, r, hf, hwritten, hiff⟩ := order_iff hbuilt hgen hne hedit
    (hconfig.trans (congrArg _ hcompiler.symm)) hapart hfree hedited hok
  rw [← ht] at hf hwritten hiff
  exact ⟨_, _, f, r, hbuilt, hf, hwritten, hiff.2 (.inr (.inr (.inr (hsame f (ht ▸ hf)))))⟩

/-- A source is edited after a build, and then a store: the edit of the store is not noticed, and what
building from scratch writes is not there. -/
theorem order_ne : ∃ s t₁ f,
    Built Sample.project s t₁ ∧
    (∀ out ∈ Sample.project.outputs, t₁.LeavesAlone (Sample.edited t₁ Sample.sourceEdits) out) ∧
    (∀ p ∈ Sample.sourceEdits.map Prod.fst,
      s.IsFollowed p.normalize ∧ Edited t₁ (Sample.edited t₁ Sample.sourceEdits) p.normalize) ∧
    s.isStoreFile Sample.path = true ∧ Sample.path ∈ Sample.sourceEdits.map Prod.fst ∧
    (∀ r ∈ (s.handleAll (Sample.edited t₁ Sample.sourceEdits)
      ((Sample.sourceEdits.map Prod.fst).map (Change.changed, ·))).1, r.isOk = true) ∧
    Compiler.load (Sample.edited t₁ Sample.sourceEdits) Sample.project.root = .ok s.compiler ∧
    start Sample.project .empty (Sample.edited t₁ Sample.sourceEdits) = .ok f ∧
    (f.writeFiles (Sample.edited t₁ Sample.sourceEdits)).result.isOk = true ∧
    (s.handleAll (Sample.edited t₁ Sample.sourceEdits)
        ((Sample.sourceEdits.map Prod.fst).map (Change.changed, ·))).2.2.read
          Sample.project.declarations ≠
      (f.writeFiles (Sample.edited t₁ Sample.sourceEdits)).files.read
        Sample.project.declarations := by
  -- the digests of the declarations differ, and so the declarations do
  have heval : ((start Sample.project .empty (Sample.tree Sample.store)).toOption.any fun s₀ =>
      let built := s₀.writeFiles (Sample.tree Sample.store)
      let t := Sample.edited built.files Sample.sourceEdits
      let run := built.session.handleAll t
        ((Sample.sourceEdits.map Prod.fst).map (Change.changed, ·))
      (built.result.toOption.any fun r => !r.skipped) &&
      (Sample.sourceEdits.all fun e => differs built.files t e.1) &&
      built.session.isStoreFile Sample.path &&
      run.1.all (·.isOk) &&
      decide (Compiler.load t Sample.project.root = .ok built.session.compiler) &&
      (Sample.project.outputs.all t.isFile) &&
      (start Sample.project .empty t).toOption.any fun f =>
        !f.stores.isEmpty && (run.2.2.read Sample.project.declarations).toOption.any fun c =>
          Ledger.digest c != Ledger.digest f.declarations.toUTF8) = true := by decide +kernel
  obtain ⟨s₀, hstart, h⟩ := exists_of_toOption_any heval
  simp only [Bool.and_eq_true, List.all_eq_true, decide_eq_true_eq] at h
  obtain ⟨⟨⟨⟨⟨⟨hbuild, hdiffers⟩, hstore⟩, hok⟩, hconfig⟩, hfile⟩, hscratch⟩ := h
  obtain ⟨r, hresult, hskipped⟩ := exists_of_toOption_any hbuild
  obtain ⟨f, hf, h⟩ := exists_of_toOption_any hscratch
  rw [Bool.and_eq_true] at h
  obtain ⟨c, hread, hdigest⟩ := exists_of_toOption_any h.2
  have hstores : f.stores ≠ [] := by simpa using h.1
  obtain ⟨hbuilt, hedit, hedited⟩ := edits_of_sample hstart hresult (by simpa using hskipped) rfl
    (by decide) hdiffers
  have hwritten := (rewrites_writeFiles (s := f) ((began_of_start hf).project_eq ▸ hfile)).1
  refine ⟨_, _, f, hbuilt, hedit, hedited, hstore, by decide, hok, hconfig, hf, hwritten, ?_⟩
  have hproject := (began_of_start hf).project_eq
  obtain ⟨c', hread', hdigest'⟩ := digest_of_writeFiles hf (by decide +kernel) (by decide +kernel)
    hfile hstores (o := (Sample.project.declarations, f.declarations))
    (by simp [outputs, hproject])
  rw [hread, hread']
  intro heq
  cases heq
  rw [hdigest'] at hdigest
  simp at hdigest

end Session

end StoreBindings
