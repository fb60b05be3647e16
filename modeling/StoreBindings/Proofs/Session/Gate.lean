import StoreBindings.Proofs.Session.Run

/-!
# What the gate in front of the generated files lets through

A session can begin with the ledger of an earlier one. Such a ledger is corrected where a generated
file is there, but not where it is missing: what was known of the file stays known. So if the file is
to have that very content again, it is not written, and stays missing.

This is the only way in which the gate fails: `written_iff`.
-/

namespace StoreBindings

namespace Files.Tree

variable {t t' : Tree} {p : Path} {place : Place}

lemma hasFile_eq_false_iff :
    t.hasFile place = false ↔ ∀ c, t.at? place ≠ some (.file c) := by
  unfold hasFile
  split
  · next c he => simp [he]
  · next h => simpa using h

lemma hasFile_of_read {c : ByteArray} (h : t.read p = .ok c) : t.hasFile p.target = true := by
  unfold hasFile
  rw [(read_eq_ok_iff.1 h).2]

/-- Where no file is, none can be read. -/
lemma read_ne_ok (h : t.hasFile p.target = false) (c : ByteArray) : t.read p ≠ .ok c := by
  intro hread
  rw [hasFile_of_read hread] at h
  cases h

lemma KeepsFile.hasFile_eq_false (hk : KeepsFile t' t place) (h : t.hasFile place = false) :
    t'.hasFile place = false := by
  rw [hasFile_eq_false_iff] at h ⊢
  exact fun c hc => h c (hk c hc)

end Files.Tree

namespace Ledger

open Files (Tree)

variable {l handed : Ledger} {t t' : Tree} {p q : Path} {c : ByteArray}

/-- No write through a ledger makes another file than the one that is written. -/
lemma hasFile_write_of_ne (hq : q.target ≠ p.target) (h : t.hasFile q.target = false) :
    (l.write t p c).2.2.hasFile q.target = false := by
  rcases files_write_cases l t p c with hw | hw
  · rw [hw]
    exact h
  · rw [hw]
    exact (Tree.keepsFile_put_back t c hq).hasFile_eq_false h

/-- What is known of a file is what it reads, or it is missing and what is known of it has been handed
down; and it is only missing to its path if it is not there. -/
structure Accounts (handed l : Ledger) (t : Tree) (p : Path) : Prop where
  plain : t.hasFile p.target = true → ∃ c, t.read p = .ok c
  known : ∀ d, l.get? p = some d →
    l.Seen t p ∨ handed.get? p = some d ∧ t.hasFile p.target = false

/-- A missing file that is taken to have a content. -/
def Misses (l : Ledger) (t : Tree) (p : Path) (c : ByteArray) : Prop :=
  l.get? p = some (digest c) ∧ t.hasFile p.target = false

lemma Accounts.congr {l' : Ledger} (h : Accounts handed l t p) (hl : l'.get? p = l.get? p)
    (hread : ∀ c, t.read p = .ok c → t'.read p = .ok c)
    (hfile : t.hasFile p.target = false → t'.hasFile p.target = false) :
    Accounts handed l' t' p where
  plain hp := by
    have hold : t.hasFile p.target = true := by
      rw [← Bool.not_eq_false]
      intro hnot
      rw [hfile hnot] at hp
      cases hp
    obtain ⟨c, hc⟩ := h.plain hold
    exact ⟨c, hread c hc⟩
  known d hd := by
    rw [hl] at hd
    exact (h.known d hd).imp (fun hs => hs.congr hl hread) fun hm => ⟨hm.1, hfile hm.2⟩

lemma accounts_write (h : Accounts handed l t q) (hq : q = p ∨ q.target ≠ p.target) :
    Accounts handed (l.write t p c).2.1 (l.write t p c).2.2 q := by
  rcases hq with rfl | hq
  · rcases write_cases l t q c with ⟨-, hw⟩ | ⟨-, ⟨hput, hw⟩ | ⟨e, hput, hw⟩⟩
    · rw [hw]
      exact h
    · rw [hw]
      have hread := Tree.read_put hput
      exact ⟨fun _ => ⟨c, hread⟩, fun _ _ => .inl ⟨c, hread, get?_record_self l q c⟩⟩
    · rw [hw]
      exact h.congr rfl
        (fun _ => Tree.read_of_keeps (Tree.keeps_put t q c) (Tree.keepsFile_put_of_error hput _))
        (Tree.keepsFile_put_back_of_error hput _).hasFile_eq_false
  · exact h.congr (get?_write_of_ne fun he => hq (Path.target_congr he))
      (fun _ => read_write_of_ne hq) (hasFile_write_of_ne hq)

/-- What the sources teach of a file is what is at its place. -/
lemma accounts_learn {project : Config.Project} {l' : Ledger} (h : Accounts handed l t p)
    (hl : Session.Learns project p t l l') : Accounts handed l' t p := by
  rcases hl with hget | ⟨-, hnone | ⟨c, hc, hget⟩⟩
  · exact h.congr hget (fun _ => id) id
  · refine ⟨h.plain, ?_⟩
    intro d hd
    rw [hnone] at hd
    cases hd
  · -- there is a file, so the path reads it, and it is what has been learned
    have hfile : t.hasFile p.target = true := by
      unfold Tree.hasFile
      rw [hc]
    obtain ⟨c', hc'⟩ := h.plain hfile
    have hsame := (Tree.read_eq_ok_iff.1 hc').2
    rw [hc] at hsame
    cases hsame
    exact ⟨h.plain, fun _ _ => .inl ⟨c, hc', hget⟩⟩

/-- A missing file that is taken to have its content is not written. -/
lemma misses_write (h : Misses l t q c) {d : ByteArray}
    (hq : q = p ∧ d = c ∨ q.target ≠ p.target) :
    Misses (l.write t p d).2.1 (l.write t p d).2.2 q c := by
  rcases hq with ⟨rfl, rfl⟩ | hq
  · rcases write_cases l t q d with ⟨-, hw⟩ | ⟨hne, -⟩
    · rw [hw]
      exact h
    · exact absurd h.1 hne
  · exact ⟨(get?_write_of_ne fun he => hq (Path.target_congr he)).trans h.1,
      hasFile_write_of_ne hq h.2⟩

end Ledger

namespace Session

open Files (Tree)
open Config (Project)
open Ledger (Accounts Misses)

variable {project : Project} {handed : Ledger} {s s₀ : Session} {t t₀ : Tree} {out : Path}
  {r : WriteReport}

lemma survives_accounts (hapart : ∀ q ∈ project.outputs, out = q ∨ out.target ≠ q.target) :
    Survives project out fun l t => Accounts handed l t out where
  learn hl h := Ledger.accounts_learn h hl
  edit ht h := by
    refine h.congr rfl ht.2 ?_
    intro hfile
    unfold Tree.hasFile at hfile ⊢
    rw [ht.1]
    exact hfile
  write hq h := Ledger.accounts_write h (hapart _ hq)

lemma accounts_of_began (h : Began project handed t s) (hdiffer : project.OutputsDiffer)
    (hout : out ∈ project.outputs)
    (hplain : t.hasFile out.target = true → (t.read out).isOk = true) :
    Accounts handed s.ledger t out := by
  have hread : t.hasFile out.target = true → ∃ c, t.read out = .ok c := by
    intro hfile
    exact exists_of_isOk (hplain hfile)
  refine ⟨hread, ?_⟩
  intro d hd
  refine (h.recorded hdiffer out hout).imp id ?_
  rintro ⟨hmissing, hget⟩
  have hfile : t.hasFile out.target = false := by
    rw [← Bool.not_eq_true]
    intro hfile
    obtain ⟨c, hc⟩ := hread hfile
    rw [hmissing] at hc
    cases hc
  refine ⟨?_, hfile⟩
  rw [hget] at hd
  -- what is known of a file that is missing cannot have been learned from the tree
  rcases learns_withProgram (Program.isLoaded_of_load h.program)
    ⟨project, s.compiler, .empty, [], [], handed⟩ out with hl | ⟨-, hl | ⟨c, hc, -⟩⟩
  · exact hl.symm.trans hd
  · exact absurd (hl.symm.trans hd) (by simp)
  · exact absurd hc (Tree.hasFile_eq_false_iff.1 hfile c)

/-- Throughout a run, of a generated file is known what it reads, or it is missing and what is known
of it has been handed down. -/
lemma accounts_of_reaches (hstart : start project handed t₀ = .ok s₀)
    (hrun : Reaches (s₀, t₀) (s, t)) (hapart : project.OutputsApart)
    (hplain : ∀ out ∈ project.outputs, t₀.hasFile out.target = true → (t₀.read out).isOk = true)
    (hout : out ∈ project.outputs) : Accounts handed s.ledger t out := by
  have hbegan := began_of_start hstart
  have hproject := hbegan.project_eq
  exact reaches_induction hrun
    (survives_accounts fun q hq => hapart.eq_or_ne hout (hproject ▸ hq))
    (hproject ▸ hout) (accounts_of_began hbegan hapart.differ hout (hplain out hout))

/-- A missing file that is taken to have its content is still missing when all files are written. -/
lemma misses_writeFiles (hne : s.project.loader.target ≠ s.project.declarations.target)
    {o : Path × String} (ho : o ∈ s.outputs) (h : Misses s.ledger t o.1 o.2.toUTF8) :
    Misses (s.writeFiles t).session.ledger (s.writeFiles t).files o.1 o.2.toUTF8 := by
  have hapart : s.project.OutputsApart := .inr hne
  refine writeFiles_induction (M := fun l t => Misses l t o.1 o.2.toUTF8) ?_ h
  intro l t o' ho' h
  refine Ledger.misses_write h ?_
  rcases hapart.eq_or_ne (fst_mem_outputs ho) (fst_mem_outputs ho') with hpath | htarget
  · rw [eq_of_fst_eq hne ho ho' hpath]
    exact .inl ⟨rfl, rfl⟩
  · exact .inr htarget

/-- After any run of a session that has been handed a ledger, writing the generated files leaves both
with the contents that they are to have if and only if the ledger does not take a missing one to have
its content already. What it takes a missing one to have is what has been handed down. -/
theorem written_iff (hstart : start project handed t₀ = .ok s₀)
    (hrun : Reaches (s₀, t₀) (s, t))
    (hne : project.loader.target ≠ project.declarations.target)
    (hplain : ∀ out ∈ project.outputs, t₀.hasFile out.target = true → (t₀.read out).isOk = true)
    (hresult : (s.writeFiles t).result = .ok r) (hskipped : r.skipped = false)
    (hfree : s.TellsApart t) :
    ((∀ o ∈ s.outputs, (s.writeFiles t).files.read o.1 = .ok o.2.toUTF8) ↔
      ∀ o ∈ s.outputs,
        (t.read o.1).isOk = true ∨ s.ledger.get? o.1 ≠ some (Ledger.digest o.2.toUTF8)) ∧
    ∀ o ∈ s.outputs, (t.read o.1).isOk = false →
      ∀ d, s.ledger.get? o.1 = some d → handed.get? o.1 = some d := by
  have hproject : s.project = project :=
    (sameProject_of_reaches hrun).project.trans (began_of_start hstart).project_eq
  have hapart : s.project.OutputsApart := .inr (hproject ▸ hne)
  have hstores : s.stores ≠ [] := stores_ne_nil_of_not_skipped hresult hskipped
  have haccounts : ∀ o ∈ s.outputs, Accounts handed s.ledger t o.1 := fun o ho =>
    accounts_of_reaches hstart hrun (.inr hne) hplain (hproject ▸ fst_mem_outputs ho)
  have hhanded : ∀ o ∈ s.outputs, (t.read o.1).isOk = false → ∀ d, s.ledger.get? o.1 = some d →
      handed.get? o.1 = some d ∧ t.hasFile o.1.target = false := by
    intro o ho hunread d hd
    rcases (haccounts o ho).known d hd with ⟨c, hc, -⟩ | hmissing
    · rw [hc] at hunread
      cases hunread
    · exact hmissing
  refine ⟨⟨?_, ?_⟩, fun o ho hunread d hd => (hhanded o ho hunread d hd).1⟩
  · -- a missing file that is skipped stays missing
    intro hright o ho
    by_contra hnot
    rw [not_or, Bool.not_eq_true, ne_eq, not_not] at hnot
    obtain ⟨hunread, hskip⟩ := hnot
    have hafter := misses_writeFiles (hproject ▸ hne) ho
      ⟨hskip, (hhanded o ho hunread _ hskip).2⟩
    exact Tree.read_ne_ok hafter.2 _ (hright o ho)
  · -- what is skipped is there, so the ledger is honest
    intro hcond
    have hhonest : ∀ o ∈ s.outputs, s.ledger.Honest t o.1 o.2.toUTF8 := by
      intro o ho hskip
      have hread := (hcond o ho).resolve_right fun h => h hskip
      rcases (haccounts o ho).known _ hskip with hseen | ⟨-, hfile⟩
      · exact honest_of_tellsApart ho hseen.tracks hfree hskip
      · obtain ⟨c, hc⟩ := exists_of_isOk hread
        exact absurd hc (Tree.read_ne_ok hfile c)
    obtain ⟨hfiles, hok⟩ := writeFiles_of_honest hstores hapart hfree hhonest
    rw [hresult] at hok
    intro o ho
    rw [hfiles]
    exact read_putAll_of_mem (hproject ▸ hne) (eq_ok_of_isOk hok.symm) ho

/-- The small project can be built. -/
lemma exists_sample_build : ∃ s r,
    start Sample.project .empty (Sample.tree Sample.store) = .ok s ∧
    (s.writeFiles (Sample.tree Sample.store)).result = .ok r ∧ r.skipped = false := by
  have heval : ((start Sample.project .empty (Sample.tree Sample.store)).toOption.any fun s =>
      (s.writeFiles (Sample.tree Sample.store)).result.toOption.any fun r => !r.skipped) = true := by
    decide +kernel
  obtain ⟨s, hstart, h⟩ := exists_of_toOption_any heval
  obtain ⟨r, hresult, h⟩ := exists_of_toOption_any h
  exact ⟨s, r, hstart, hresult, by simpa using h⟩

/-- A project that is built for the first time. -/
theorem written_of_first_build : ∃ s r,
    start Sample.project .empty (Sample.tree Sample.store) = .ok s ∧
    (s.writeFiles (Sample.tree Sample.store)).result = .ok r ∧ r.skipped = false ∧
    ∀ o ∈ s.outputs,
      (s.writeFiles (Sample.tree Sample.store)).files.read o.1 = .ok o.2.toUTF8 := by
  obtain ⟨s, r, hstart, hresult, hskipped⟩ := exists_sample_build
  have hproject := (began_of_start hstart).project_eq
  have hfree : s.TellsApart (Sample.tree Sample.store) := by
    refine tellsApart_of_missing (by rw [hproject]; decide +kernel) ?_
    intro out hout
    exact (Sample.missing out (hproject ▸ hout)).1
  refine ⟨s, r, hstart, hresult, hskipped, ?_⟩
  -- from an empty ledger nothing is skipped, since nothing is known of a file that is missing
  have hiff := written_iff hstart .refl (by decide +kernel)
    (fun out hout hfile => by rw [(Sample.missing out hout).2] at hfile; cases hfile)
    hresult hskipped hfree
  apply hiff.1.2
  intro o ho
  right
  intro hget
  have hhanded := hiff.2 o ho (Sample.missing o.1 (hproject ▸ fst_mem_outputs ho)).1 _ hget
  rw [Ledger.get?_empty] at hhanded
  cases hhanded

/-- A session that has been handed the ledger of a build does not notice that the generated files are
gone. -/
lemma files_writeFiles_of_handed (hstart : start project handed t = .ok s)
    (hgen : ∀ out ∈ project.outputs, project.isGenerated out = true)
    (hdiffer : project.OutputsDiffer)
    (hmissing : ∀ out ∈ project.outputs, (t.read out).isOk = false)
    (hhanded : ∀ o ∈ s.outputs, handed.get? o.1 = some (Ledger.digest o.2.toUTF8)) :
    (s.writeFiles t).result.isOk = true ∧ (s.writeFiles t).files = t := by
  have hbegan := began_of_start hstart
  have hknown : ∀ o ∈ s.outputs, s.ledger.get? o.1 = some (Ledger.digest o.2.toUTF8) := by
    intro o ho
    have hout : o.1 ∈ project.outputs := hbegan.project_eq ▸ fst_mem_outputs ho
    rcases hbegan.seen_or_handed hdiffer hout (hgen o.1 hout) with ⟨c, hc, -⟩ | ⟨-, hget⟩
    · have hnot := hmissing o.1 hout
      rw [hc] at hnot
      cases hnot
    · rw [hget, hhanded o ho]
  by_cases hnil : s.stores = []
  · rw [writeFiles_of_stores_eq_nil hnil]
    exact ⟨rfl, rfl⟩
  · rw [writeFiles_of_known hnil hknown]
    exact ⟨rfl, rfl⟩

/-- The generated files of a project are removed between two sessions, of which the second is handed
the ledger of the first: it leaves them missing. -/
theorem unwritten_of_removed : ∃ s₀ r₀ s r,
    start Sample.project .empty (Sample.tree Sample.store) = .ok s₀ ∧
    (s₀.writeFiles (Sample.tree Sample.store)).result = .ok r₀ ∧
    start Sample.project (s₀.writeFiles (Sample.tree Sample.store)).session.ledger
      (Sample.tree Sample.store) = .ok s ∧
    (s.writeFiles (Sample.tree Sample.store)).result = .ok r ∧ r.skipped = false ∧
    ∀ o ∈ s.outputs,
      ((s.writeFiles (Sample.tree Sample.store)).files.read o.1).isOk = false := by
  obtain ⟨s₀, r₀, hstart₀, hresult₀, hskipped₀⟩ := exists_sample_build
  have hbegan₀ := began_of_start hstart₀
  have hstores₀ : s₀.stores ≠ [] := stores_ne_nil_of_not_skipped hresult₀ hskipped₀
  obtain ⟨s, hstart⟩ := exists_start hbegan₀.compiler hbegan₀.program hbegan₀.isOpen
    (s₀.writeFiles (Sample.tree Sample.store)).session.ledger
  obtain ⟨hproject, -, -, hstores⟩ := (began_of_start hstart).unique hbegan₀
  have houtputs : s.outputs = s₀.outputs := outputs_congr hproject hstores
  -- the ledger of the first build is handed on to a tree without what it generated
  have hhanded : ∀ o ∈ s.outputs,
      (s₀.writeFiles (Sample.tree Sample.store)).session.ledger.get? o.1 =
        some (Ledger.digest o.2.toUTF8) := by
    intro o ho
    rw [houtputs] at ho
    exact get?_writeFiles hstores₀ (by rw [hresult₀]; rfl)
      (by rw [hbegan₀.project_eq]; decide +kernel) ho
  obtain ⟨hok, hfiles⟩ := files_writeFiles_of_handed hstart (by decide +kernel)
    (.inr (by decide +kernel)) (fun out hout => (Sample.missing out hout).1) hhanded
  obtain ⟨r, hresult⟩ := exists_of_isOk hok
  refine ⟨s₀, r₀, s, r, hstart₀, hresult₀, hstart, hresult, ?_, ?_⟩
  · rw [← Bool.not_eq_true, skipped_iff hresult, hstores]
    exact hstores₀
  · intro o ho
    rw [hfiles]
    rw [houtputs] at ho
    exact (Sample.missing o.1 (hbegan₀.project_eq ▸ fst_mem_outputs ho)).1

end Session

end StoreBindings
