import StoreBindings.Proofs.Session.Coherence
import StoreBindings.Proofs.Session.Gate

/-!
# What is written, and whether it had to be

The files that an operation writes one after the other are listed as it goes: `writesAll` is the loop
that writes, with each write kept. `Replays` ties the list to the files: what an operation leaves is what
the listed writes leave, directories aside. So nothing but the generated files is ever written.

A write is needless if the file is there already with the very content. The ledger is to prevent it, and
for this it has to know whatever is there; `Explained` is this as an invariant. It fails in one way: at
the beginning of a session a file can be at the place that a generated file's path leads to, while a
directory that the path passes and leaves again is missing. Then the path reads nothing, and the ledger
learns nothing of the file: `writes_of_reaches`, `needless_of_detour`.
-/

namespace StoreBindings

/-! ## Writes -/

/-- One file that is written: the files before, the path, and the content. -/
structure Write where
  before : Files.Tree
  path : Path
  content : ByteArray

namespace Write

open Files (Tree)

/-- The file is there already, with the content that is written. -/
def Needless (w : Write) : Prop := w.before.at? w.path.target = some (.file w.content)

instance (w : Write) : Decidable w.Needless :=
  match h : w.before.at? w.path.target with
  | some (.file c) =>
    @decidable_of_iff _ (c = w.content) (by unfold Needless; simp [h])
      (ByteArray.instDecidableEq c w.content)
  | some .directory => .isFalse (by unfold Needless; simp [h])
  | none => .isFalse (by unfold Needless; simp [h])

/-- From one tree to another there are these writes, and besides them directories are made. -/
inductive Replays : Tree → List Write → Tree → Prop
  | nil {t t' : Tree} (h : t.Grows t') : Replays t [] t'
  | cons {t₁ t' : Tree} {w : Write} {ws : List Write}
      (hput : w.before.put w.path w.content = (.ok (), t₁)) (h : Replays t₁ ws t') :
      Replays w.before (w :: ws) t'

variable {t t' : Tree} {ws : List Write} {place : Files.Place}

/-- Where no write leads, files stay as they are, and none is new. -/
lemma Replays.keepsFile (h : Replays t ws t') (hplace : ∀ w ∈ ws, place ≠ w.path.target) :
    Tree.KeepsFile t t' place ∧ Tree.KeepsFile t' t place := by
  induction h with
  | nil hgrows => exact ⟨hgrows.keepsFile place, hgrows.keepsFile_back place⟩
  | @cons t₁ t' w ws hput _ ih =>
    have hne := hplace w List.mem_cons_self
    obtain ⟨hkeep, hback⟩ := ih fun w' hw => hplace w' (List.mem_cons_of_mem _ hw)
    have hfirst := Tree.keepsFile_put w.before w.content hne
    have hfirst' := Tree.keepsFile_put_back w.before w.content hne
    rw [hput] at hfirst hfirst'
    exact ⟨hfirst.trans hkeep, hback.trans hfirst'⟩

end Write

/-! ## The two texts -/

namespace Generate

lemma head?_loader (stores : List Store.Metadata) (runtimePackage : String) :
    (loader stores runtimePackage).toList.head? = some 'i' := by
  unfold loader namedImport
  simp only [String.toList_append, List.head?_append]
  rfl

lemma head?_declarations (stores : List Store.Metadata) :
    (declarations stores).toList.head? = some 'd' := by
  unfold declarations
  simp only [String.toList_append, List.head?_append]
  rfl

/-- The two generated files are never to have the same content. -/
lemma loader_ne_declarations (stores stores' : List Store.Metadata) (runtimePackage : String) :
    (loader stores runtimePackage).toUTF8 ≠ (declarations stores').toUTF8 := by
  intro h
  have hsame := String.toByteArray_inj.1 h
  have hhead := head?_loader stores runtimePackage
  rw [hsame, head?_declarations] at hhead
  cases hhead

end Generate

namespace Session

open Files (Tree)
open Config (Project)

variable {project : Project} {handed : Ledger} {s s₀ : Session} {t t₀ : Tree} {change : Change}
  {path out : Path} {outs : List (Path × String)} {w : Write}

/-! ## What is written through the ledger -/

/-- The writes of `writeAll`. -/
def writesAll (l : Ledger) (t : Tree) : List (Path × String) → List Write
  | [] => []
  | (path, content) :: rest =>
    match l.write t path content.toUTF8 with
    | (.ok .written, l, t') => ⟨t, path, content.toUTF8⟩ :: writesAll l t' rest
    | (.ok .unchanged, l, t') => writesAll l t' rest
    | (.error _, _, _) => []

/-- The writes of `writeFiles`. -/
def writes (s : Session) (t : Tree) : List Write :=
  if s.stores.isEmpty then [] else writesAll s.ledger t s.outputs

lemma replays_writeAll (report : WriteReport) (s : Session) (t : Tree)
    (outs : List (Path × String)) :
    Write.Replays t (writesAll s.ledger t outs) (writeAll report s t outs).files := by
  induction outs generalizing report s t with
  | nil => exact .nil (.refl t)
  | cons o rest ih =>
    obtain ⟨p, text⟩ := o
    rw [writesAll, writeAll]
    rcases Ledger.write_cases s.ledger t p text.toUTF8 with ⟨-, hw⟩ | ⟨-, ⟨hput, hw⟩ | ⟨e, hput, hw⟩⟩
    · rw [hw]
      exact ih _ s t
    · rw [hw]
      have hcons := Write.Replays.cons (w := ⟨t, p, text.toUTF8⟩) (Prod.ext hput rfl)
        (ih (report.add p .written) { s with ledger := s.ledger.record p text.toUTF8 } _)
      exact hcons
    · rw [hw]
      -- a write that fails ends the run, and has put directories at most
      refine .nil ?_
      rcases Tree.put_cases t p text.toUTF8 with ⟨-, hfiles⟩ | ⟨-, hok, -⟩
      · rw [hfiles]
        exact Tree.grows_withParents t p
      · rw [hput] at hok
        cases hok

lemma replays_writeFiles (s : Session) (t : Tree) :
    Write.Replays t (s.writes t) (s.writeFiles t).files := by
  unfold writes writeFiles
  split
  · exact .nil (.refl t)
  · exact replays_writeAll _ s t s.outputs

/-- What is reported as written is what has been written. -/
lemma written_writeAll {report r : WriteReport}
    (h : (writeAll report s t outs).result = .ok r) :
    r.written = report.written ++ (writesAll s.ledger t outs).map Write.path := by
  induction outs generalizing report s t with
  | nil =>
    rw [← Except.ok.inj h]
    simp [writesAll]
  | cons o rest ih =>
    obtain ⟨p, text⟩ := o
    rw [writeAll] at h
    rw [writesAll]
    rcases Ledger.write_cases s.ledger t p text.toUTF8 with ⟨-, hw⟩ | ⟨-, ⟨-, hw⟩ | ⟨e, -, hw⟩⟩
    · rw [hw] at h ⊢
      change (writeAll (report.add p .unchanged) s t rest).result = .ok r at h
      have hrest := ih h
      exact hrest
    · rw [hw] at h ⊢
      rw [ih (s := { s with ledger := s.ledger.record p text.toUTF8 }) h]
      simp [WriteReport.add]
    · rw [hw] at h
      cases h

lemma written_writeFiles {r : WriteReport} (h : (s.writeFiles t).result = .ok r) :
    r.written = (s.writes t).map Write.path := by
  unfold writeFiles at h
  unfold writes
  split at h
  · next hs =>
    rw [if_pos hs, ← Except.ok.inj h]
    rfl
  · next hs =>
    rw [if_neg hs, written_writeAll h]
    rfl

/-- What holds before and is kept by each single write holds whenever a file is written, and then the
ledger does not take the file to have the content. -/
lemma exists_of_mem_writesAll {l : Ledger} {M : Ledger → Tree → Prop}
    (step : ∀ l t, ∀ o ∈ outs, M l t →
      M (l.write t o.1 o.2.toUTF8).2.1 (l.write t o.1 o.2.toUTF8).2.2)
    (h : M l t) (hw : w ∈ writesAll l t outs) :
    ∃ l', ∃ o ∈ outs, M l' w.before ∧ w.path = o.1 ∧ w.content = o.2.toUTF8 ∧
      l'.get? o.1 ≠ some (Ledger.digest o.2.toUTF8) := by
  induction outs generalizing l t with
  | nil => cases hw
  | cons o rest ih =>
    obtain ⟨p, text⟩ := o
    have hfirst := step l t (p, text) List.mem_cons_self h
    have hrest : ∀ l t, ∀ o ∈ rest, M l t →
        M (l.write t o.1 o.2.toUTF8).2.1 (l.write t o.1 o.2.toUTF8).2.2 :=
      fun l t o ho => step l t o (List.mem_cons_of_mem _ ho)
    -- a write of the rest comes later, where the condition still holds after the first one
    have hlater : ∀ {l t}, M l t → w ∈ writesAll l t rest → ∃ l', ∃ o ∈ (p, text) :: rest,
        M l' w.before ∧ w.path = o.1 ∧ w.content = o.2.toUTF8 ∧
          l'.get? o.1 ≠ some (Ledger.digest o.2.toUTF8) := by
      intro l t hM hw
      obtain ⟨l', o, ho, hw⟩ := ih hrest hM hw
      exact ⟨l', o, List.mem_cons_of_mem _ ho, hw⟩
    rw [writesAll] at hw
    rcases Ledger.write_cases l t p text.toUTF8 with ⟨-, hcase⟩ | ⟨hne, ⟨-, hcase⟩ | ⟨e, -, hcase⟩⟩
    · rw [hcase] at hfirst hw
      exact hlater hfirst hw
    · rw [hcase] at hfirst hw
      rcases List.mem_cons.1 hw with rfl | hw
      · exact ⟨l, (p, text), List.mem_cons_self, h, rfl, rfl, hne⟩
      · exact hlater hfirst hw
    · rw [hcase] at hw
      cases hw

/-! ## What an operation writes -/

instance (s found : Session) (change : Change) (p : Path) :
    Decidable (s.Concerns found change p) := inferInstanceAs (Decidable (_ ∨ _))

instance (s : Session) (p : Path) : Decidable (s.IsFollowed p) :=
  inferInstanceAs (Decidable (_ ∧ _))

/-- The session that writes the generated files when a change is followed, if it comes to that. -/
def rebuilding? (s : Session) (t : Tree) (change : Change) (p : Path) : Option Session :=
  if s.IsFollowed p ∧ ¬(change = .changed ∧ s.isKnown t p = true) then
    match Program.load t s.project s.compiler with
    | .error _ => none
    | .ok P =>
      if s.Concerns (s.reread change p P).process change p then some (s.reread change p P).process
      else none
  else none

lemma rebuilding?_eq_some_iff {f : Session} {p : Path} : s.rebuilding? t change p = some f ↔
    s.IsFollowed p ∧ ¬(change = .changed ∧ s.isKnown t p = true) ∧
      ∃ P, Program.load t s.project s.compiler = .ok P ∧
        s.Concerns (s.reread change p P).process change p ∧ f = (s.reread change p P).process := by
  unfold rebuilding?
  by_cases h : s.IsFollowed p ∧ ¬(change = .changed ∧ s.isKnown t p = true)
  · rw [if_pos h]
    cases hP : Program.load t s.project s.compiler with
    | error e => exact ⟨fun hf => (by cases hf), fun ⟨_, _, _, hload, _⟩ => by cases hload⟩
    | ok P =>
      dsimp only
      split
      · next hconcerns =>
        rw [Option.some.injEq]
        refine ⟨fun hf => ⟨h.1, h.2, P, rfl, hconcerns, hf.symm⟩, ?_⟩
        rintro ⟨-, -, P', hP', -, rfl⟩
        cases hP'
        rfl
      · next hnot =>
        refine ⟨fun hf => (by cases hf), ?_⟩
        rintro ⟨-, -, P', hP', hconcerns, -⟩
        cases hP'
        exact absurd hconcerns hnot
  · rw [if_neg h]
    refine ⟨fun hf => (by cases hf), ?_⟩
    rintro ⟨hp, hnew, -⟩
    exact absurd ⟨hp, hnew⟩ h

/-- Following a change writes what that session writes, and nothing if there is none. -/
lemma handle_of_rebuilding? (s : Session) (t : Tree) (change : Change) (path : Path) :
    (s.rebuilding? t change path.normalize = none ∧ (s.handle t change path).files = t) ∨
      ∃ f, s.rebuilding? t change path.normalize = some f ∧
        s.handle t change path = rebuiltStep (f.writeFiles t) := by
  have hnone : (∀ f, s.rebuilding? t change path.normalize ≠ some f) →
      s.rebuilding? t change path.normalize = none := Option.eq_none_iff_forall_ne_some.2
  have hhandled := handled s t change path
  generalize s.handle t change path = step at hhandled ⊢
  cases hhandled with
  | ignored hp =>
    refine .inl ⟨hnone fun f hf => ?_, rfl⟩
    exact hp (rebuilding?_eq_some_iff.1 hf).1
  | unchanged _ hchange hknown =>
    refine .inl ⟨hnone fun f hf => ?_, rfl⟩
    exact (rebuilding?_eq_some_iff.1 hf).2.1 ⟨hchange, hknown⟩
  | failed _ hfail =>
    refine .inl ⟨hnone fun f hf => ?_, rfl⟩
    obtain ⟨-, -, P, hP, -⟩ := rebuilding?_eq_some_iff.1 hf
    rw [hfail] at hP
    cases hP
  | @rebuilt hp hnew P hP hconcerns =>
    exact .inr ⟨_, rebuilding?_eq_some_iff.2 ⟨hp, hnew, P, hP, hconcerns, rfl⟩, rfl⟩
  | @gone _ P hP _ hnot =>
    refine .inl ⟨hnone fun f hf => ?_, rfl⟩
    obtain ⟨-, -, P', hP', hconcerns, -⟩ := rebuilding?_eq_some_iff.1 hf
    cases Except.ok.inj (hP.symm.trans hP')
    exact hnot hconcerns
  | @found _ _ P hP _ hnot =>
    refine .inl ⟨hnone fun f hf => ?_, rfl⟩
    obtain ⟨-, -, P', hP', hconcerns, -⟩ := rebuilding?_eq_some_iff.1 hf
    cases Except.ok.inj (hP.symm.trans hP')
    exact hnot hconcerns

/-- The operations that can write. -/
inductive Call
  | writeFiles
  | rebuild
  | handle (change : Change) (path : Path)

/-- The session that writes the generated files in the end, if an operation comes to that. -/
def Call.writer? (s : Session) (t : Tree) : Call → Option Session
  | .writeFiles => some s
  | .rebuild => some s.process
  | .handle change path => s.rebuilding? t change path.normalize

/-- What an operation writes. -/
def Call.writes (s : Session) (t : Tree) (call : Call) : List Write :=
  (call.writer? s t).elim [] (·.writes t)

/-- What an operation leaves on disk. -/
def Call.files (s : Session) (t : Tree) : Call → Tree
  | .writeFiles => (s.writeFiles t).files
  | .rebuild => (s.rebuild t).files
  | .handle change path => (s.handle t change path).files

/-- The list of what an operation writes leads to what it leaves on disk. -/
lemma replays_call (s : Session) (t : Tree) (call : Call) :
    Write.Replays t (call.writes s t) (call.files s t) := by
  cases call with
  | writeFiles => exact replays_writeFiles s t
  | rebuild => exact replays_writeFiles s.process t
  | handle change path =>
    show Write.Replays t ((s.rebuilding? t change path.normalize).elim [] (·.writes t))
      (s.handle t change path).files
    rcases handle_of_rebuilding? s t change path with ⟨hnone, hfiles⟩ | ⟨f, hsome, hstep⟩
    · rw [hnone, hfiles]
      exact .nil (.refl t)
    · rw [hsome, hstep]
      exact replays_writeFiles f t

/-! ## What the ledger knows of a file that is there -/

/-- If a generated file is there, its content is known, or it is one that only the other generated file
can be to have, or it is what was there at the beginning and could not be read. -/
def Explained (t₀ : Tree) (out : Path) (foreign : ByteArray → Prop) (l : Ledger) (t : Tree) : Prop :=
  ∀ c, t.at? out.target = some (.file c) → l.get? out = some (Ledger.digest c) ∨ foreign c ∨
    t₀.read out = .error .missing ∧ t₀.at? out.target = some (.file c)

variable {foreign : ByteArray → Prop}

lemma explained_write {l : Ledger} {o : Path × String} (h : Explained t₀ out foreign l t)
    (ho : o.1 = out ∨ foreign o.2.toUTF8) :
    Explained t₀ out foreign (l.write t o.1 o.2.toUTF8).2.1 (l.write t o.1 o.2.toUTF8).2.2 := by
  intro c hc
  rcases Ledger.write_cases l t o.1 o.2.toUTF8 with ⟨-, hw⟩ | ⟨-, ⟨hput, hw⟩ | ⟨e, hput, hw⟩⟩
  · rw [hw] at hc ⊢
    exact h c hc
  · rw [hw] at hc ⊢
    by_cases htarget : out.target = o.1.target
    · -- the file has just been written, under this path or under the other one
      have hnow := (Tree.read_eq_ok_iff.1 (Tree.read_put hput)).2
      rw [← htarget, hc] at hnow
      cases hnow
      rcases ho with rfl | hforeign
      · exact .inl (Ledger.get?_record_self l _ _)
      · exact .inr (.inl hforeign)
    · have hbefore := Tree.keepsFile_put_back t o.2.toUTF8 htarget c hc
      have hne : out.components ≠ o.1.components := fun he => htarget (Path.target_congr he)
      rw [Ledger.get?_record_of_ne l hne]
      exact h c hbefore
  · rw [hw] at hc ⊢
    exact h c (Tree.keepsFile_put_back_of_error hput _ c hc)

lemma persists_explained (hgen : project.isGenerated out = true)
    (hforeign : ∀ s : Session, s.project = project → ∀ o ∈ s.outputs,
      o.1 = out ∨ foreign o.2.toUTF8) :
    Persists project out (Explained t₀ out foreign) where
  learn hl h := by
    rcases hl with hget | ⟨hnot, -⟩
    · intro c hc
      rw [hget]
      exact h c hc
    · rw [hgen] at hnot
      cases hnot
  edit ht h := by
    intro c hc
    rw [ht.1] at hc
    exact h c hc
  write hs ho h := explained_write h (hforeign _ hs _ ho)

/-- At the beginning the content of a generated file that is there is known, unless its path does not
lead to it. -/
lemma known_or_missing_of_start (h : start project handed t = .ok s) (hout : out ∈ project.outputs)
    {c : ByteArray} (hc : t.at? out.target = some (.file c)) :
    s.ledger.get? out = some (Ledger.digest c) ∨ t.read out = .error .missing := by
  obtain ⟨compiler, P, l₁, l₂, -, -, h₁, h₂, rfl⟩ := start_eq_ok_iff.1 h
  have hcontent : ∀ {p : Path} {d : ByteArray}, p.target = out.target → t.read p = .ok d → d = c := by
    intro p d htarget hd
    have hthere := (Tree.read_eq_ok_iff.1 hd).2
    rw [htarget, hc] at hthere
    cases hthere
    rfl
  simp only [Project.outputs, List.mem_cons, List.not_mem_nil, or_false] at hout
  show l₂.get? out = _ ∨ _
  rcases hout with rfl | rfl
  · rcases recordGenerated_eq_ok_iff.1 h₁ with ⟨d, hd, rfl⟩ | ⟨hmissing, -⟩
    · left
      have hfirst : ((opened project compiler P handed).ledger.record project.loader d).get?
          project.loader = some (Ledger.digest c) := by
        rw [Ledger.get?_record_self, hcontent rfl hd]
      -- what is recorded for the declarations is the same if they are the same entry
      rcases recordGenerated_eq_ok_iff.1 h₂ with ⟨d', hd', rfl⟩ | ⟨-, rfl⟩
      · by_cases hsame : project.loader.components = project.declarations.components
        · rw [Ledger.get?_record_of_same _ hsame, hcontent (Path.target_congr hsame).symm hd']
        · rw [Ledger.get?_record_of_ne _ hsame]
          exact hfirst
      · exact hfirst
    · exact .inr hmissing
  · rcases recordGenerated_eq_ok_iff.1 h₂ with ⟨d, hd, rfl⟩ | ⟨hmissing, -⟩
    · left
      rw [Ledger.get?_record_self, hcontent rfl hd]
    · exact .inr hmissing

/-- Of both generated files it is known what is there, as far as it can be. -/
def ExplainsBoth (project : Project) (t₀ : Tree) (l : Ledger) (t : Tree) : Prop :=
  Explained t₀ project.loader (fun c => ∃ stores, c = (Generate.declarations stores).toUTF8) l t ∧
    Explained t₀ project.declarations
      (fun c => ∃ stores, c = (Generate.loader stores project.runtimePackage).toUTF8) l t

/-- What the loader is to be is foreign to the declarations, and the other way round. -/
lemma persists_loader (t₀ : Tree) (hgen : project.isGenerated project.loader = true) :
    Persists project project.loader (Explained t₀ project.loader
      fun c => ∃ stores, c = (Generate.declarations stores).toUTF8) := by
  refine persists_explained hgen ?_
  intro s hs o ho
  simp only [outputs, List.mem_cons, List.not_mem_nil, or_false] at ho
  rcases ho with rfl | rfl
  · exact .inl (by rw [hs])
  · exact .inr ⟨s.stores, rfl⟩

lemma persists_declarations (t₀ : Tree)
    (hgen : project.isGenerated project.declarations = true) :
    Persists project project.declarations (Explained t₀ project.declarations
      fun c => ∃ stores, c = (Generate.loader stores project.runtimePackage).toUTF8) := by
  refine persists_explained hgen ?_
  intro s hs o ho
  simp only [outputs, List.mem_cons, List.not_mem_nil, or_false] at ho
  rcases ho with rfl | rfl
  · exact .inr ⟨s.stores, by rw [← hs]; rfl⟩
  · exact .inl (by rw [hs])

lemma explained_of_start (h : start project handed t = .ok s) (hout : out ∈ project.outputs) :
    Explained t out foreign s.ledger t := by
  intro c hc
  rcases known_or_missing_of_start h hout hc with hget | hmissing
  · exact .inl hget
  · exact .inr (.inr ⟨hmissing, hc⟩)

/-- What persists and holds when a session begins holds throughout every run of it. -/
lemma holds_of_reaches {M : Ledger → Tree → Prop} (hstart : start project handed t₀ = .ok s₀)
    (hrun : Reaches (s₀, t₀) (s, t)) (hpersists : Persists project out M)
    (hout : out ∈ project.outputs) (h : M s₀.ledger t₀) : M s.ledger t := by
  have hproject := (began_of_start hstart).project_eq
  subst hproject
  exact persists_reaches hrun hpersists hout h

/-- Throughout a run it is known of both generated files what is there, as far as it can be. -/
lemma explainsBoth_of_reaches (hstart : start project handed t₀ = .ok s₀)
    (hgen : ∀ out ∈ project.outputs, project.isGenerated out = true)
    (hrun : Reaches (s₀, t₀) (s, t)) : ExplainsBoth project t₀ s.ledger t := by
  have hloader : project.loader ∈ project.outputs := by simp [Project.outputs]
  have hdeclarations : project.declarations ∈ project.outputs := by simp [Project.outputs]
  constructor
  · exact holds_of_reaches hstart hrun (persists_loader t₀ (hgen _ hloader)) hloader
      (explained_of_start hstart hloader)
  · exact holds_of_reaches hstart hrun (persists_declarations t₀ (hgen _ hdeclarations))
      hdeclarations (explained_of_start hstart hdeclarations)

/-- What is known of what is there when an operation begins is still known when it comes to write. -/
lemma holds_of_writer? {f : Session} {call : Call} {M : Ledger → Tree → Prop}
    (hpersists : Persists s.project out M) (h : call.writer? s t = some f) (hM : M s.ledger t) : M f.ledger t := by
  cases call with
  | writeFiles =>
    cases h
    exact hM
  | rebuild =>
    cases h
    exact hM
  | handle change path =>
    obtain ⟨hp, -, P, hP, -, rfl⟩ := rebuilding?_eq_some_iff.1 h
    exact persists_reread hpersists hp hP change hM

/-! ## Needless writes -/

/-- A session that knows what is there, as far as it can be, writes no file needlessly but one that was
there at the beginning and could not be read. -/
lemma missing_of_needless (h : ExplainsBoth s.project t₀ s.ledger t)
    (hgen : ∀ out ∈ s.project.outputs, s.project.isGenerated out = true)
    (hw : w ∈ s.writes t) (hneedless : w.Needless) :
    t₀.read w.path = .error .missing ∧ t₀.at? w.path.target = some (.file w.content) := by
  unfold writes at hw
  split at hw
  · cases hw
  · have hloader := persists_loader t₀ (hgen s.project.loader (by simp [Project.outputs]))
    have hdeclarations :=
      persists_declarations t₀ (hgen s.project.declarations (by simp [Project.outputs]))
    obtain ⟨l, o, ho, hboth, hpath, hcontent, hunknown⟩ := exists_of_mem_writesAll
      (M := fun l t => ExplainsBoth s.project t₀ l t)
      (fun l t o ho h => ⟨hloader.write rfl ho h.1, hdeclarations.write rfl ho h.2⟩) h hw
    unfold Write.Needless at hneedless
    rw [hpath, hcontent] at hneedless ⊢
    -- the content is known or foreign, but it is unknown, and it is the one the file is to have
    simp only [outputs, List.mem_cons, List.not_mem_nil, or_false] at ho
    rcases ho with rfl | rfl
    · rcases hboth.1 _ hneedless with hknown | ⟨stores, hforeign⟩ | hmissing
      · exact absurd hknown hunknown
      · exact absurd hforeign (Generate.loader_ne_declarations _ _ _)
      · exact hmissing
    · rcases hboth.2 _ hneedless with hknown | ⟨stores, hforeign⟩ | hmissing
      · exact absurd hknown hunknown
      · exact absurd hforeign.symm (Generate.loader_ne_declarations _ _ _)
      · exact hmissing

lemma path_of_mem_writes (hw : w ∈ s.writes t) : w.path ∈ s.project.outputs := by
  unfold writes at hw
  split at hw
  · cases hw
  · obtain ⟨l, o, ho, -, hpath, -⟩ := exists_of_mem_writesAll (M := fun _ _ => True)
      (fun _ _ _ _ _ => trivial) trivial hw
    rw [hpath]
    exact fst_mem_outputs ho

/-- The session that writes in the end is one of the same project. -/
lemma project_of_writer? {f : Session} {call : Call} (h : call.writer? s t = some f) :
    f.project = s.project := by
  cases call with
  | writeFiles =>
    cases h
    rfl
  | rebuild =>
    cases h
    rfl
  | handle change path =>
    obtain ⟨-, -, P, -, -, rfl⟩ := rebuilding?_eq_some_iff.1 h
    exact reread_project s change path.normalize P

lemma exists_writer_of_mem_writes {call : Call} (hw : w ∈ call.writes s t) :
    ∃ f, call.writer? s t = some f ∧ w ∈ f.writes t := by
  unfold Call.writes at hw
  cases hf : call.writer? s t with
  | none =>
    rw [hf] at hw
    cases hw
  | some f =>
    rw [hf] at hw
    exact ⟨f, rfl, hw⟩

lemma path_of_mem_call {call : Call} (hw : w ∈ call.writes s t) :
    w.path ∈ s.project.outputs := by
  obtain ⟨f, hf, hw⟩ := exists_writer_of_mem_writes hw
  rw [← project_of_writer? hf]
  exact path_of_mem_writes hw

lemma missing_of_needless_call {call : Call} (h : ExplainsBoth s.project t₀ s.ledger t)
    (hgen : ∀ out ∈ s.project.outputs, s.project.isGenerated out = true)
    (hw : w ∈ call.writes s t) (hneedless : w.Needless) :
    t₀.read w.path = .error .missing ∧ t₀.at? w.path.target = some (.file w.content) := by
  obtain ⟨f, hf, hw⟩ := exists_writer_of_mem_writes hw
  have hproject := project_of_writer? hf
  have hloader := persists_loader t₀ (hgen s.project.loader (by simp [Project.outputs]))
  have hdeclarations :=
    persists_declarations t₀ (hgen s.project.declarations (by simp [Project.outputs]))
  have hboth : ExplainsBoth f.project t₀ f.ledger t := by
    rw [hproject]
    exact ⟨holds_of_writer? hloader hf h.1, holds_of_writer? hdeclarations hf h.2⟩
  exact missing_of_needless hboth (hproject ▸ hgen) hw hneedless

/-- What is written when a change is followed is written by the rebuild that the change leads to. -/
lemma result_of_writes_ne_nil (h : (Call.handle change path).writes s t ≠ [] ∨
      (s.handle t change path).files ≠ t) :
    ∃ P, Program.load t s.project s.compiler = .ok P ∧
      (s.handle t change path).result =
        ((s.reread change path.normalize P).process.writeFiles t).result.map .rebuilt := by
  rcases handle_of_rebuilding? s t change path with ⟨hnone, hfiles⟩ | ⟨f, hsome, hstep⟩
  · refine absurd hfiles (h.resolve_left fun hne => hne ?_)
    show (s.rebuilding? t change path.normalize).elim [] (·.writes t) = []
    rw [hnone]
    rfl
  · obtain ⟨-, -, P, hP, -, rfl⟩ := rebuilding?_eq_some_iff.1 hsome
    exact ⟨P, hP, by rw [hstep]; rfl⟩

/-- Whatever a session has been handed and however it has run, an operation of it writes the generated
files and no other. Following a change writes only in a rebuild, of which the outcome is that of the
change, and if the change is ignored or is none, everything stays as it was. A file is written that was
there with the very content only if it was so at the beginning, and its path did not lead to it then. -/
theorem writes_of_reaches (hstart : start project handed t₀ = .ok s₀)
    (hgen : ∀ out ∈ project.outputs, project.isGenerated out = true)
    (hrun : Reaches (s₀, t₀) (s, t)) (call : Call) :
    (Write.Replays t (call.writes s t) (call.files s t) ∧
      (∀ w ∈ call.writes s t, w.path ∈ project.outputs) ∧
      ∀ place, (∀ out ∈ project.outputs, place ≠ out.target) →
        Tree.KeepsFile t (call.files s t) place ∧ Tree.KeepsFile (call.files s t) t place) ∧
    (∀ change path, call = .handle change path →
      call.writes s t ≠ [] ∨ call.files s t ≠ t → ∃ P,
        Program.load t s.project s.compiler = .ok P ∧ (s.handle t change path).result =
          ((s.reread change path.normalize P).process.writeFiles t).result.map .rebuilt) ∧
    (∀ change path outcome, (s.handle t change path).result = .ok outcome →
      outcome = .ignored ∨ outcome = .unchanged →
        (s.handle t change path).session = s ∧ (s.handle t change path).files = t) ∧
    ∀ w ∈ call.writes s t, w.Needless →
      t₀.read w.path = .error .missing ∧ t₀.at? w.path.target = some (.file w.content) := by
  have hproject : s.project = project :=
    (sameProject_of_reaches hrun).project.trans (began_of_start hstart).project_eq
  have hpath : ∀ w ∈ call.writes s t, w.path ∈ project.outputs := by
    intro w hw
    rw [← hproject]
    exact path_of_mem_call hw
  have hreplays := replays_call s t call
  refine ⟨⟨hreplays, hpath, ?_⟩, ?_, ?_, ?_⟩
  · intro place hplace
    exact hreplays.keepsFile fun w hw => hplace w.path (hpath w hw)
  · rintro change path rfl h
    exact result_of_writes_ne_nil h
  · intro change path outcome hresult hkept
    exact handle_eq_of_kept hresult hkept
  · intro w hw hneedless
    have hboth := explainsBoth_of_reaches hstart hgen hrun
    exact missing_of_needless_call (hproject ▸ hboth) (hproject ▸ hgen) hw hneedless

/-- The first build of a project writes both of its generated files, neither needlessly. -/
theorem writes_of_first_build : ∃ s, start Sample.project .empty (Sample.tree Sample.store) = .ok s ∧
    (Call.writeFiles.writes s (Sample.tree Sample.store)).map Write.path = Sample.project.outputs ∧
    ∀ w ∈ Call.writeFiles.writes s (Sample.tree Sample.store),
      w.path ∈ Sample.project.outputs ∧ ¬w.Needless := by
  have heval : ((start Sample.project .empty (Sample.tree Sample.store)).toOption.any fun s =>
      (s.writeFiles (Sample.tree Sample.store)).result.toOption.any fun r =>
        decide (r.written = Sample.project.outputs)) = true := by decide +kernel
  obtain ⟨s, hstart, h⟩ := exists_of_toOption_any heval
  obtain ⟨r, hresult, h⟩ := exists_of_toOption_any h
  rw [decide_eq_true_eq] at h
  obtain ⟨⟨-, hpath, -⟩, -, -, hneedless⟩ :=
    writes_of_reaches hstart (by decide +kernel) .refl .writeFiles
  refine ⟨s, hstart, (written_writeFiles hresult).symm.trans h, fun w hw => ⟨hpath w hw, ?_⟩⟩
  intro hsame
  have hfile := (Sample.missing w.path (hpath w hw)).2
  exact Tree.hasFile_eq_false_iff.1 hfile _ (hneedless w hw hsame).2

end Session

namespace Sample

/-- The project with a path for the loader that takes back a directory. -/
def detour : Config.Project :=
  { project with loader := .ofString "/app/src/Stores/Generated/a/../StoreLoader.ts" }

/-- The files of the project with a loader that is there already, and without the directory. -/
def treeWith (content : ByteArray) : Files.Tree :=
  ⟨((tree store).entries.insert detour.generatedDirectory.target .directory).insert detour.loader.target
    (.file content)⟩

end Sample

namespace Session

open Files (Tree)

/-- A loader is there with the content that it is to have, but its path takes back a directory that is
missing. A session that begins then writes it over the same content. -/
theorem needless_of_detour : ∃ t s w, start Sample.detour .empty t = .ok s ∧
    (∀ out ∈ Sample.detour.outputs, Sample.detour.isGenerated out = true) ∧
    w ∈ Call.writeFiles.writes s t ∧ w.Needless := by
  have heval : ((start Sample.detour .empty (Sample.tree Sample.store)).toOption.any fun s₀ =>
      let t := Sample.treeWith s₀.loader.toUTF8
      (start Sample.detour .empty t).toOption.any fun s =>
        !s.stores.isEmpty && (s.ledger.get? Sample.detour.loader).isNone &&
        (t.put Sample.detour.loader s.loader.toUTF8).1.isOk &&
        decide (Config.Compiler.load t Sample.detour.root = .ok s₀.compiler) &&
        (Sample.detour.sources (Sample.tree Sample.store) s₀.compiler).toOption.any fun paths =>
          (Sample.detour.sources t s₀.compiler).toOption.any fun paths' =>
            decide (paths' = paths) && paths.all (agrees (Sample.tree Sample.store) t)) = true := by
    decide +kernel
  obtain ⟨s₀, hstart₀, h⟩ := exists_of_toOption_any heval
  dsimp only at h
  generalize ht : Sample.treeWith s₀.loader.toUTF8 = t at h
  obtain ⟨s, hstart, h⟩ := exists_of_toOption_any h
  simp only [Bool.and_eq_true, decide_eq_true_eq, Bool.not_eq_true', Option.isNone_iff_eq_none] at h
  obtain ⟨⟨⟨⟨hstores, hunknown⟩, hput⟩, hconfig⟩, h⟩ := h
  obtain ⟨paths, hpaths, h⟩ := exists_of_toOption_any h
  obtain ⟨paths', hpaths', h⟩ := exists_of_toOption_any h
  simp only [Bool.and_eq_true, decide_eq_true_eq, List.all_eq_true] at h
  obtain ⟨rfl, hagrees⟩ := h
  have hread : ∀ p ∈ paths', t.read p = (Sample.tree Sample.store).read p :=
    fun p hp => read_eq_of_agrees (hagrees p hp)
  -- the loader is to be what it was made to be, since the sources are the same
  have houtputs := outputs_eq_of_sources hstart₀ hstart hconfig hpaths hpaths' hread
  have hsame : s.loader = s₀.loader := (Prod.ext_iff.1 (List.cons_eq_cons.1 houtputs).1).2
  have hproject := (began_of_start hstart).project_eq
  refine ⟨t, s, ⟨t, s.project.loader, s.loader.toUTF8⟩, hstart, by decide +kernel, ?_, ?_⟩
  · show _ ∈ s.writes t
    unfold writes outputs
    rw [if_neg (by rw [hstores]; simp), writesAll]
    rw [← hproject] at hunknown hput
    rcases Ledger.write_cases s.ledger t s.project.loader s.loader.toUTF8 with
      ⟨hknown, -⟩ | ⟨-, ⟨-, hw⟩ | ⟨e, hfail, -⟩⟩
    · rw [hunknown] at hknown
      cases hknown
    · rw [hw]
      exact List.mem_cons_self
    · rw [hfail] at hput
      cases hput
  · unfold Write.Needless
    rw [hproject, ← ht, hsame]
    exact Tree.at?_insert_self ⟨_⟩ (by decide +kernel) _

end Session

end StoreBindings
