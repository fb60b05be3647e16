import StoreBindings.Proofs.Program.Shape
import StoreBindings.Proofs.Session.Run
import StoreBindings.Watch

/-!
# Several changes at once

Of several changes that are followed on one tree only the first that leads to a rebuild counts: it
leaves what reading the sources and rebuilding leaves, and afterwards the session has nothing more to
do, since it has the stores of the tree and knows the generated files. Until then nothing is written.
So there are two trees that can come of a batch, and `files_handleAll_of_pending` says which one does.

* `Settled` — a session that has the stores of a program and knows the files generated for them.
* `handle_of_settled` — a settled session writes nothing and stays settled.
* `handle_of_pending` — what a change does to a session that has not yet written.
* `keepsSources_of_isFile` — a rebuild leaves the sources as they are, so what follows it finds the same
  program.
-/

namespace StoreBindings

namespace Ledger

open Files (Tree)

/-- What a write does is decided by what is known of the file. -/
lemma write_congr {l l' : Ledger} {p : Path} (h : l'.get? p = l.get? p) (t : Tree)
    (c : ByteArray) : (l'.write t p c).1 = (l.write t p c).1 ∧
      (l'.write t p c).2.2 = (l.write t p c).2.2 ∧
      ∀ q, l'.get? q = l.get? q → (l'.write t p c).2.1.get? q = (l.write t p c).2.1.get? q := by
  have hrecord : ∀ q, l'.get? q = l.get? q → (l'.record p c).get? q = (l.record p c).get? q := by
    intro q hq
    by_cases hp : q.components = p.components
    · rw [get?_record_of_same l' hp, get?_record_of_same l hp]
    · rw [get?_record_of_ne l' hp, get?_record_of_ne l hp, hq]
  -- both skip or neither does, and then both put the same content into the same tree
  rcases write_cases l t p c with ⟨hget, hw⟩ | ⟨hget, hw⟩
  · rcases write_cases l' t p c with ⟨-, hw'⟩ | ⟨hget', -⟩
    · rw [hw, hw']
      exact ⟨rfl, rfl, fun _ => id⟩
    · exact absurd (h.trans hget) hget'
  · rcases write_cases l' t p c with ⟨hget', -⟩ | ⟨-, hw'⟩
    · exact absurd (h.symm.trans hget') hget
    · rcases hw with ⟨hput, hw⟩ | ⟨e, he, hw⟩
      · rcases hw' with ⟨-, hw'⟩ | ⟨e', he', -⟩
        · rw [hw, hw']
          exact ⟨rfl, rfl, hrecord⟩
        · rw [hput] at he'
          cases he'
      · rcases hw' with ⟨hput', -⟩ | ⟨e', he', hw'⟩
        · rw [hput'] at he
          cases he
        · rw [he] at he'
          cases he'
          rw [hw, hw']
          exact ⟨rfl, rfl, fun _ => id⟩

end Ledger

namespace Session

open Files (Tree)
open Config (Project Compiler)

variable {s s' s₀ : Session} {t t' : Tree} {P : Program} {change : Change} {path : Path}
  {step : Step Outcome} {es : List (Change × Path)}

/-! ## Writing the same stores -/

lemma writeAll_congr {report : WriteReport} {outs : List (Path × String)}
    (h : ∀ o ∈ outs, s'.ledger.get? o.1 = s.ledger.get? o.1) :
    (writeAll report s' t outs).result = (writeAll report s t outs).result ∧
      (writeAll report s' t outs).files = (writeAll report s t outs).files := by
  induction outs generalizing report s s' t with
  | nil => exact ⟨rfl, rfl⟩
  | cons o rest ih =>
    obtain ⟨p, text⟩ := o
    have hfirst := Ledger.write_congr (h (p, text) List.mem_cons_self) t text.toUTF8
    rw [writeAll, writeAll]
    -- one write has the same result with both ledgers, and leaves them alike for the rest
    generalize s'.ledger.write t p text.toUTF8 = w' at hfirst ⊢
    generalize s.ledger.write t p text.toUTF8 = w at hfirst ⊢
    obtain ⟨result', l', t'⟩ := w'
    obtain ⟨result, l, t₁⟩ := w
    obtain ⟨rfl, rfl, hget⟩ := hfirst
    cases result' with
    | error e => exact ⟨rfl, rfl⟩
    | ok done =>
      have hrest : ∀ o ∈ rest, ({ s' with ledger := l' } : Session).ledger.get? o.1 =
          ({ s with ledger := l } : Session).ledger.get? o.1 := by
        intro o ho
        exact hget o.1 (h o (List.mem_cons_of_mem _ ho))
      exact ih hrest

/-- What is written is decided by the stores and by what is known of the generated files. -/
lemma writeFiles_congr (hproject : s'.project = s.project) (hstores : s'.stores = s.stores)
    (h : ∀ out ∈ s.project.outputs, s'.ledger.get? out = s.ledger.get? out) :
    (s'.writeFiles t).result = (s.writeFiles t).result ∧
      (s'.writeFiles t).files = (s.writeFiles t).files := by
  unfold writeFiles
  rw [hstores, outputs_congr hproject hstores]
  split
  · exact ⟨rfl, rfl⟩
  · exact writeAll_congr fun o ho => h o.1 (fst_mem_outputs ho)

/-! ## Sessions that have nothing more to do -/

/-- The session has the stores of a program, and knows the files that are generated for them. -/
structure Settled (s : Session) (P : Program) : Prop where
  stores : s.stores = Program.stores (P.extractions s.project.directories)
  known : s.stores ≠ [] →
    ∀ o ∈ s.outputs, s.ledger.get? o.1 = some (Ledger.digest o.2.toUTF8)

lemma Settled.congr (h : Settled s P) (hproject : s'.project = s.project)
    (hstores : s'.stores = s.stores)
    (hget : ∀ out ∈ s.project.outputs, s'.ledger.get? out = s.ledger.get? out) :
    Settled s' P := by
  refine ⟨by rw [hstores, hproject, h.stores], ?_⟩
  intro hne o ho
  rw [outputs_congr hproject hstores] at ho
  rw [hget o.1 (fst_mem_outputs ho)]
  exact h.known (fun hnil => hne (hstores.trans hnil)) o ho

/-- A settled session writes nothing. -/
lemma Settled.writeFiles (h : Settled s P) (t : Tree) :
    (s.writeFiles t).result.isOk = true ∧ (s.writeFiles t).session = s ∧
      (s.writeFiles t).files = t := by
  by_cases hnil : s.stores = []
  · rw [writeFiles_of_stores_eq_nil hnil]
    exact ⟨rfl, rfl, rfl⟩
  · rw [writeFiles_of_known hnil (h.known hnil)]
    exact ⟨rfl, rfl, rfl⟩

/-- A session that has written its files is settled. -/
lemma settled_of_writeFiles
    (hstores : s.stores = Program.stores (P.extractions s.project.directories))
    (hne : s.project.loader.components ≠ s.project.declarations.components)
    (hok : (s.writeFiles t).result.isOk = true) : Settled (s.writeFiles t).session P := by
  rw [writeFiles_session]
  exact ⟨hstores, fun hstores' o ho => get?_writeFiles (s := s) hstores' hok hne ho⟩

lemma stores_reread_process (s : Session) (change : Change) (p : Path) (P : Program) :
    (s.reread change p P).process.stores =
      Program.stores (P.extractions s.project.directories) := by
  show Program.stores (P.extractions (s.reread change p P).project.directories) = _
  rw [reread_project]

/-- Reading the sources once more finds the same stores, and leaves a session settled. -/
lemma Settled.reread (h : Settled s P)
    (hgen : ∀ out ∈ s.project.outputs, s.project.isGenerated out = true)
    (hP : Program.load t s.project s.compiler = .ok P) {p : Path} (hp : s.IsFollowed p)
    (change : Change) :
    Settled (s.reread change p P).process P ∧ Settled (s.reread change p P) P := by
  have hget : ∀ out ∈ s.project.outputs,
      (s.reread change p P).ledger.get? out = s.ledger.get? out :=
    fun out hout => get?_reread hp (hgen out hout) hP change
  have hproject := reread_project s change p P
  constructor
  · exact h.congr hproject ((stores_reread_process s change p P).trans h.stores.symm) hget
  · exact h.congr hproject (reread_stores s change p P) hget

/-- A settled session that follows a change on the tree of its stores writes nothing, and stays
settled. -/
theorem handle_of_settled (h : Settled s P)
    (hgen : ∀ out ∈ s.project.outputs, s.project.isGenerated out = true)
    (hP : Program.load t s.project s.compiler = .ok P) (change : Change) (path : Path) :
    SameProject s (s.handle t change path).session ∧
      Settled (s.handle t change path).session P ∧ (s.handle t change path).files = t := by
  have hhandled := handled s t change path
  generalize s.handle t change path = step at hhandled ⊢
  -- what is read again is the same program, so the texts are the ones that are there
  cases hhandled with
  | ignored _ => exact ⟨⟨rfl, rfl⟩, h, rfl⟩
  | unchanged _ _ _ => exact ⟨⟨rfl, rfl⟩, h, rfl⟩
  | failed _ hfail => rw [hP] at hfail; cases hfail
  | @rebuilt hp _ P' hP' _ =>
    cases Except.ok.inj (hP.symm.trans hP')
    obtain ⟨hsettled, -⟩ := h.reread hgen hP hp change
    obtain ⟨-, hsession, hfiles⟩ := hsettled.writeFiles t
    show SameProject s ((s.reread change path.normalize P).process.writeFiles t).session ∧
      Settled ((s.reread change path.normalize P).process.writeFiles t).session P ∧
      ((s.reread change path.normalize P).process.writeFiles t).files = t
    rw [hsession]
    exact ⟨(sameProject_reread ..).trans (sameProject_process _), hsettled, hfiles⟩
  | @gone hp P' hP' _ _ =>
    cases Except.ok.inj (hP.symm.trans hP')
    obtain ⟨-, hsettled⟩ := h.reread hgen hP hp change
    exact ⟨sameProject_reread s change path.normalize P, hsettled, rfl⟩
  | @found hp _ P' hP' _ _ =>
    cases Except.ok.inj (hP.symm.trans hP')
    obtain ⟨hsettled, -⟩ := h.reread hgen hP hp change
    exact ⟨(sameProject_reread ..).trans (sameProject_process _), hsettled, rfl⟩

lemma files_handleAll_of_settled (h : Settled s P)
    (hgen : ∀ out ∈ s.project.outputs, s.project.isGenerated out = true)
    (hP : Program.load t s.project s.compiler = .ok P) (es : List (Change × Path)) :
    (s.handleAll t es).2.2 = t := by
  induction es generalizing s with
  | nil => rfl
  | cons e es ih =>
    obtain ⟨change, path⟩ := e
    obtain ⟨hsame, hsettled, hfiles⟩ := handle_of_settled h hgen hP change path
    show ((s.handle t change path).session.handleAll (s.handle t change path).files es).2.2 = t
    rw [hfiles]
    exact ih hsettled (by rw [hsame.project]; exact hgen)
      (by rw [hsame.project, hsame.compiler]; exact hP)

/-! ## Up to the first rebuild -/

/-- Reading the sources and rebuilding. -/
def reloadAndRebuild (s : Session) (P : Program) (t : Tree) : Step WriteReport :=
  (s.withProgram P).rebuild t

/-- Rebuilding the generated files leaves the sources as they are. -/
def KeepsSources (s : Session) (t : Tree) : Prop :=
  ∀ P, Program.load t s.project s.compiler = .ok P →
    Program.load (s.reloadAndRebuild P t).files s.project s.compiler = .ok P

/-- Some change has led to a rebuild. -/
def Rebuilds (results : List (Except Failure Outcome)) : Prop := ∃ r, .ok (.rebuilt r) ∈ results

/-- A session that has followed changes without writing, since it was `s₀`. -/
structure Pending (s₀ s : Session) : Prop where
  project : s.project = s₀.project
  compiler : s.compiler = s₀.compiler
  known : ∀ out ∈ s₀.project.outputs, s.ledger.get? out = s₀.ledger.get? out

/-- Reading the sources again is not writing. -/
lemma Pending.reread (h : Pending s₀ s)
    (hgen : ∀ out ∈ s₀.project.outputs, s₀.project.isGenerated out = true) {p : Path}
    (hp : s.IsFollowed p) (hP : Program.load t s.project s.compiler = .ok P) (change : Change) :
    Pending s₀ (s.reread change p P) where
  project := (reread_project ..).trans h.project
  compiler := (reread_compiler ..).trans h.compiler
  known out hout := by
    have hgen' : s.project.isGenerated out = true := by
      rw [h.project]
      exact hgen out hout
    rw [get?_reread hp hgen' hP change]
    exact h.known out hout

/-- What it writes then is what reading the sources and rebuilding writes. -/
lemma Pending.writeFiles (h : Pending s₀ s)
    (hgen : ∀ out ∈ s₀.project.outputs, s₀.project.isGenerated out = true)
    (hp : s.IsFollowed path) (hP : Program.load t s.project s.compiler = .ok P) (change : Change) :
    ((s.reread change path P).process.writeFiles t).result = (s₀.reloadAndRebuild P t).result ∧
      ((s.reread change path P).process.writeFiles t).files = (s₀.reloadAndRebuild P t).files := by
  have hpending := h.reread hgen hp hP change
  have hstores : (s.reread change path P).process.stores =
      Program.stores (P.extractions s₀.project.directories) := by
    rw [stores_reread_process, h.project]
  refine writeFiles_congr hpending.project hstores fun out hout => ?_
  -- of the generated files nothing has been learned since
  have hloaded := Program.isLoaded_of_load (h.project ▸ hP)
  refine (hpending.known out hout).trans ?_
  exact (get?_withProgram_of_isGenerated hloaded (hgen out hout) s₀).symm

/-- A session that has not written yet follows a change: either it writes what reading the sources
and rebuilding writes, and is settled then, or it still does not write. -/
theorem handle_of_pending (h : Pending s₀ s)
    (hgen : ∀ out ∈ s₀.project.outputs, s₀.project.isGenerated out = true)
    (hne : s₀.project.loader.components ≠ s₀.project.declarations.components)
    (hstep : s.handle t change path = step) (hok : step.result.isOk = true) :
    (∃ r P, step.result = .ok (.rebuilt r) ∧
        Program.load t s₀.project s₀.compiler = .ok P ∧ SameProject s₀ step.session ∧
        Settled step.session P ∧ step.files = (s₀.reloadAndRebuild P t).files) ∨
      (∀ r, step.result ≠ .ok (.rebuilt r)) ∧ Pending s₀ step.session ∧ step.files = t := by
  have hhandled := handled s t change path
  rw [hstep] at hhandled
  cases hhandled with
  | ignored _ => exact .inr ⟨by simp, h, rfl⟩
  | unchanged _ _ _ => exact .inr ⟨by simp, h, rfl⟩
  | failed _ _ => cases hok
  | @rebuilt hp _ P hP _ =>
    left
    have hpending := h.reread hgen hp hP change
    obtain ⟨-, hfiles⟩ := h.writeFiles hgen hp hP change
    obtain ⟨r, hr⟩ := exists_of_rebuiltStep_isOk hok
    refine ⟨r, P, result_rebuiltStep_iff.2 hr, h.project ▸ h.compiler ▸ hP, ?_, ?_, hfiles⟩
    · have hw := sameProject_writeFiles (s.reread change path.normalize P).process t
      exact ⟨hw.1.trans hpending.project, hw.2.trans hpending.compiler⟩
    · refine settled_of_writeFiles ?_ ?_ (by rw [hr]; rfl)
      · rw [stores_reread_process, process_project, reread_project]
      · rw [process_project, hpending.project]
        exact hne
  | @gone hp P hP _ _ => exact .inr ⟨by simp, h.reread hgen hp hP change, rfl⟩
  | @found hp _ P hP _ _ =>
    have hpending := h.reread hgen hp hP change
    exact .inr ⟨by simp, ⟨hpending.project, hpending.compiler, hpending.known⟩, rfl⟩

/-- What comes of a batch: what reading the sources and rebuilding leaves, if some change leads to a
rebuild, and else the tree as it was. -/
theorem files_handleAll_of_pending (h : Pending s₀ s)
    (hgen : ∀ out ∈ s₀.project.outputs, s₀.project.isGenerated out = true)
    (hne : s₀.project.loader.components ≠ s₀.project.declarations.components)
    (hkeeps : s₀.KeepsSources t)
    (hok : ∀ r ∈ (s.handleAll t es).1, r.isOk = true) :
    (Rebuilds (s.handleAll t es).1 ∧ ∃ P, Program.load t s₀.project s₀.compiler = .ok P ∧
        (s.handleAll t es).2.2 = (s₀.reloadAndRebuild P t).files) ∨
      ¬Rebuilds (s.handleAll t es).1 ∧ (s.handleAll t es).2.2 = t := by
  induction es generalizing s with
  | nil => exact .inr ⟨fun ⟨r, hr⟩ => List.not_mem_nil hr, rfl⟩
  | cons e es ih =>
    obtain ⟨change, path⟩ := e
    rw [handleAll] at hok ⊢
    dsimp only at hok ⊢
    generalize hstep : s.handle t change path = step at hok ⊢
    have hfirst := hok step.result List.mem_cons_self
    rcases handle_of_pending h hgen hne hstep hfirst with
      ⟨r, P, hresult, hP, hsame, hsettled, hfiles⟩ | ⟨hnot, hpending, hfiles⟩
    · -- the first rebuild: the changes that are left find a settled session
      left
      refine ⟨⟨r, by rw [hresult]; exact List.mem_cons_self⟩, P, hP, ?_⟩
      rw [hfiles]
      exact files_handleAll_of_settled hsettled (by rw [hsame.project]; exact hgen)
        (by rw [hsame.project, hsame.compiler]; exact hkeeps P hP) es
    · rw [hfiles] at hok ⊢
      rcases ih hpending fun r hr => hok r (List.mem_cons_of_mem _ hr) with
        ⟨⟨r, hr⟩, hlater⟩ | ⟨hnone, htree⟩
      · exact .inl ⟨⟨r, List.mem_cons_of_mem _ hr⟩, hlater⟩
      · refine .inr ⟨?_, htree⟩
        rintro ⟨r, hr⟩
        rcases List.mem_cons.1 hr with heq | hr
        · exact hnot r heq.symm
        · exact hnone ⟨r, hr⟩

lemma Pending.refl (s : Session) : Pending s s := ⟨rfl, rfl, fun _ _ => rfl⟩

/-! ## The sources after a rebuild -/

/-- No source leads to a generated file. -/
def SourcesApart (project : Project) (c : Compiler) (t : Tree) : Prop :=
  ∀ paths, project.sources t c = .ok paths →
    ∀ p ∈ paths, ∀ out ∈ project.outputs, p.target ≠ out.target

/-- One tree comes from another by giving some files other contents. -/
structure Rewrites (t t' : Tree) (ps : List Path) : Prop where
  shape : t.SameShape t'
  elsewhere : ∀ place, (∀ p ∈ ps, place ≠ p.target) → t'.at? place = t.at? place

lemma Rewrites.refl (t : Tree) (ps : List Path) : Rewrites t t ps := ⟨.refl t, fun _ _ => rfl⟩

lemma Rewrites.trans {t'' : Tree} {ps : List Path} (h : Rewrites t t' ps)
    (h' : Rewrites t' t'' ps) : Rewrites t t'' ps :=
  ⟨h.shape.trans h'.shape, fun place hplace =>
    (h'.elsewhere place hplace).trans (h.elsewhere place hplace)⟩

lemma Rewrites.isFile {ps : List Path} (h : Rewrites t t' ps) (p : Path) :
    t'.isFile p = t.isFile p := congrFun (Tree.isFile_congr h.shape) p

/-- A file that is rewritten is given the new content, and stays where it is. -/
lemma rewrites_insert {ps : List Path} {p : Path} (hp : p ∈ ps) (hfile : t.isFile p = true)
    (c : ByteArray) : Rewrites t ⟨t.entries.insert p.target (.file c)⟩ ps := by
  obtain ⟨d, hd⟩ := Tree.isFile_iff.1 hfile
  exact ⟨Tree.sameShape_insert (Tree.read_eq_ok_iff.1 hd).2,
    fun place hplace => Tree.at?_insert_of_ne t (hplace p hp) _⟩

/-- Files at other places are left alone. -/
lemma Rewrites.leavesAlone {ps : List Path} {out : Path} (h : Rewrites t t' ps)
    (hout : ∀ p ∈ ps, out.target ≠ p.target) : t.LeavesAlone t' out := by
  have hat := h.elsewhere out.target hout
  refine ⟨hat, ?_⟩
  intro c hc
  rw [Tree.read_congr h.shape hat]
  exact hc

/-- A file that is there can be written, and nothing else happens. -/
lemma rewrites_write {l : Ledger} {ps : List Path} {p : Path} (hp : p ∈ ps)
    (hfile : t.isFile p = true) (c : ByteArray) :
    (l.write t p c).1.isOk = true ∧ Rewrites t (l.write t p c).2.2 ps := by
  obtain ⟨d, hd⟩ := Tree.isFile_iff.1 hfile
  have hput := Tree.put_of_isFile hd c
  rcases Ledger.write_cases l t p c with ⟨-, hw⟩ | ⟨-, ⟨-, hw⟩ | ⟨e, he, -⟩⟩
  · rw [hw]
    exact ⟨rfl, .refl t ps⟩
  · rw [hw, hput]
    exact ⟨rfl, rewrites_insert hp hfile c⟩
  · rw [hput] at he
    cases he

lemma rewrites_writeAll {report : WriteReport} {outs : List (Path × String)} {ps : List Path}
    (hmem : ∀ o ∈ outs, o.1 ∈ ps) (hfile : ∀ p ∈ ps, t.isFile p = true) :
    (writeAll report s t outs).result.isOk = true ∧
      Rewrites t (writeAll report s t outs).files ps := by
  induction outs generalizing report s t with
  | nil => exact ⟨rfl, .refl t ps⟩
  | cons o rest ih =>
    obtain ⟨p, text⟩ := o
    have hp := hmem (p, text) List.mem_cons_self
    obtain ⟨hok, hfirst⟩ := rewrites_write (l := s.ledger) hp (hfile p hp) text.toUTF8
    rw [writeAll]
    generalize s.ledger.write t p text.toUTF8 = w at hok hfirst ⊢
    obtain ⟨result, l, t'⟩ := w
    cases result with
    | error e => cases hok
    | ok done =>
      have hmem' : ∀ o ∈ rest, o.1 ∈ ps := fun o ho => hmem o (List.mem_cons_of_mem _ ho)
      have hfile' : ∀ q ∈ ps, t'.isFile q = true := by
        intro q hq
        rw [hfirst.isFile]
        exact hfile q hq
      exact And.imp_right hfirst.trans (ih (s := { s with ledger := l }) hmem' hfile')

/-- Generated files that are there can be rewritten, and nothing else happens. -/
lemma rewrites_writeFiles (hfile : ∀ out ∈ s.project.outputs, t.isFile out = true) :
    (s.writeFiles t).result.isOk = true ∧
      Rewrites t (s.writeFiles t).files s.project.outputs := by
  unfold writeFiles
  split
  · exact ⟨rfl, .refl t _⟩
  · exact rewrites_writeAll (fun _ => fst_mem_outputs) hfile

/-- Where the generated files are there already, rebuilding them leaves the sources as they are. -/
theorem keepsSources_of_isFile (hfile : ∀ out ∈ s.project.outputs, t.isFile out = true)
    (hapart : SourcesApart s.project s.compiler t) : s.KeepsSources t := by
  intro P hP
  have h : Rewrites t (s.reloadAndRebuild P t).files s.project.outputs :=
    (rewrites_writeFiles (s := (s.withProgram P).process) hfile).2
  rw [Program.load_congr h.shape fun paths hpaths p hp =>
    h.elsewhere p.target (hapart paths hpaths p hp)]
  exact hP

end Session

end StoreBindings
