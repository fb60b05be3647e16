import StoreBindings.Proofs.Session.Start

/-!
# Writing the generated files

Several files are written one after the other through the ledger, which is asked before each of
them. What holds before and is kept by each single write holds afterwards: `writeAll_induction`. From
this follows what becomes of the ledger and of the tree, and:

* `files_writeAll` — through a ledger that is honest about the files, what is left is the tree in which
  they have all been put, whatever was skipped.
* `putAll_putAll` — putting them all once more changes nothing.
-/

namespace StoreBindings

namespace Files.Tree

/-- Put texts into files one after the other; the first that fails ends it. -/
def putAll (t : Tree) : List (Path × String) → Except Trouble Unit × Tree
  | [] => (.ok (), t)
  | (p, text) :: rest =>
    match t.put p text.toUTF8 with
    | (.ok _, t) => putAll t rest
    | (.error e, t) => (.error e, t)

variable {t t' : Tree} {p q : Path} {text : String}

/-- If two files can be put, each is put for itself. -/
lemma put_of_putAll_pair {a b : String} (h : (t.putAll [(p, a), (q, b)]).1 = .ok ()) :
    ∃ t', t.put p a.toUTF8 = (.ok (), t') ∧
      t'.put q b.toUTF8 = (.ok (), (t.putAll [(p, a), (q, b)]).2) := by
  unfold putAll at h ⊢
  cases ha : t.put p a.toUTF8 with
  | mk made t₁ =>
    rw [ha] at h
    cases made with
    | error e => cases h
    | ok u =>
      refine ⟨t₁, rfl, ?_⟩
      dsimp only at h ⊢
      unfold putAll at h ⊢
      cases hb : t₁.put q b.toUTF8 with
      | mk made t₂ =>
        rw [hb] at h
        cases made with
        | error e => cases h
        | ok u => rfl

lemma putAll_pair {a b : String} {t'' : Tree} (ha : t.put p a.toUTF8 = (.ok (), t'))
    (hb : t'.put q b.toUTF8 = (.ok (), t'')) : t.putAll [(p, a), (q, b)] = (.ok (), t'') := by
  simp only [putAll, ha, hb]

/-- What two files read after both have been put. -/
lemma read_putAll_pair {a b : String} (h : (t.putAll [(p, a), (q, b)]).1 = .ok ())
    (hne : p.target ≠ q.target) :
    (t.putAll [(p, a), (q, b)]).2.read p = .ok a.toUTF8 ∧
      (t.putAll [(p, a), (q, b)]).2.read q = .ok b.toUTF8 := by
  obtain ⟨t₁, ha, hb⟩ := put_of_putAll_pair h
  have hreada := read_of_put ha
  have hkeep := read_of_keeps (keeps_put t₁ q b.toUTF8) (keepsFile_put t₁ _ hne) hreada
  rw [hb] at hkeep
  exact ⟨hkeep, read_of_put hb⟩

/-- Two files can only be put if neither was blocked before. -/
lemma isOpen_of_putAll_pair {a b : String} (h : (t.putAll [(p, a), (q, b)]).1 = .ok ()) :
    IsOpen t p ∧ IsOpen t q := by
  obtain ⟨t₁, ha, hb⟩ := put_of_putAll_pair h
  have hk := keeps_put t p a.toUTF8
  rw [ha] at hk
  exact ⟨isOpen_of_put (Keeps.refl t) (by rw [ha]), isOpen_of_put hk (by rw [hb])⟩

/-- Putting two files that have just been put changes nothing, whether they are one file or two. -/
theorem putAll_putAll {a b : String} (h : (t.putAll [(p, a), (q, b)]).1 = .ok ())
    (hapart : p = q ∨ p.target ≠ q.target) :
    (t.putAll [(p, a), (q, b)]).2.putAll [(p, a), (q, b)] =
      (.ok (), (t.putAll [(p, a), (q, b)]).2) := by
  rcases hapart with rfl | hne
  · -- one file: the first text is put back over the second, and then the second over it
    obtain ⟨t₁, ha, hb⟩ := put_of_putAll_pair h
    have hback : (t.putAll [(p, a), (p, b)]).2.put p a.toUTF8 = (.ok (), t₁) := by
      have hput := put_put (t := t₁) (p := p) (c := b.toUTF8) (by rw [hb]) a.toUTF8
      rw [hb, put_of_read (read_of_put ha)] at hput
      exact hput
    exact putAll_pair hback hb
  · obtain ⟨hp, hq⟩ := read_putAll_pair h hne
    exact putAll_pair (put_of_read hp) (put_of_read hq)

end Files.Tree

namespace Session

open Files (Tree)
open Config (Project)

variable {s : Session} {t : Tree} {report : WriteReport} {outs : List (Path × String)}

/-- What each single write keeps is kept by writing all files. -/
theorem writeAll_induction {M : Ledger → Tree → Prop}
    (step : ∀ l t, ∀ o ∈ outs, M l t →
      M (l.write t o.1 o.2.toUTF8).2.1 (l.write t o.1 o.2.toUTF8).2.2)
    (h : M s.ledger t) :
    M (writeAll report s t outs).session.ledger (writeAll report s t outs).files := by
  induction outs generalizing report s t with
  | nil => exact h
  | cons o rest ih =>
    obtain ⟨p, text⟩ := o
    have hfirst := step s.ledger t (p, text) List.mem_cons_self h
    rw [writeAll]
    generalize s.ledger.write t p text.toUTF8 = w at hfirst ⊢
    obtain ⟨result, l, t'⟩ := w
    cases result with
    | error e => exact hfirst
    | ok done =>
      exact ih (s := { s with ledger := l })
        (fun l t o ho => step l t o (List.mem_cons_of_mem _ ho)) hfirst

/-- Writing changes nothing of a session but its ledger. -/
lemma writeAll_session (report : WriteReport) (s : Session) (t : Tree)
    (outs : List (Path × String)) : (writeAll report s t outs).session =
      { s with ledger := (writeAll report s t outs).session.ledger } := by
  induction outs generalizing report s t with
  | nil => rfl
  | cons o rest ih =>
    obtain ⟨p, text⟩ := o
    rw [writeAll]
    generalize s.ledger.write t p text.toUTF8 = w
    obtain ⟨result, l, t'⟩ := w
    cases result with
    | error e => rfl
    | ok done => exact ih (report.add p done) { s with ledger := l } t'

lemma writeAll_skipped {r : WriteReport} (h : (writeAll report s t outs).result = .ok r) :
    r.skipped = report.skipped := by
  induction outs generalizing report s t with
  | nil => rw [← Except.ok.inj h]
  | cons o rest ih =>
    obtain ⟨p, text⟩ := o
    rw [writeAll] at h
    generalize s.ledger.write t p text.toUTF8 = w at h
    obtain ⟨result, l, t'⟩ := w
    cases result with
    | error e => cases h
    | ok done =>
      rw [ih h]
      cases done <;> rfl

/-- Files that are known to have their contents are not written. -/
lemma writeAll_of_known
    (h : ∀ o ∈ outs, s.ledger.get? o.1 = some (Ledger.digest o.2.toUTF8)) :
    writeAll report s t outs =
      ⟨.ok { report with unchanged := report.unchanged ++ outs.map Prod.fst }, s, t⟩ := by
  induction outs generalizing report with
  | nil => simp [writeAll]
  | cons o rest ih =>
    obtain ⟨p, text⟩ := o
    have hknown := h (p, text) List.mem_cons_self
    rw [writeAll]
    rcases Ledger.write_cases s.ledger t p text.toUTF8 with ⟨-, hw⟩ | ⟨hne, -⟩
    · rw [hw]
      show writeAll (report.add p .unchanged) s t rest = _
      rw [ih fun o ho => h o (List.mem_cons_of_mem _ ho)]
      simp [WriteReport.add]
    · exact absurd hknown hne

/-- Files that have been written are known to have their contents. -/
lemma get?_writeAll (hok : (writeAll report s t outs).result.isOk = true)
    (hkeys : ∀ o ∈ outs, ∀ o' ∈ outs, o.1.components = o'.1.components → o = o')
    {o : Path × String} (ho : o ∈ outs) :
    (writeAll report s t outs).session.ledger.get? o.1 =
      some (Ledger.digest o.2.toUTF8) := by
  induction outs generalizing report s t with
  | nil => cases ho
  | cons first rest ih =>
    obtain ⟨p, text⟩ := first
    have hwritten := Ledger.get?_write_of_isOk (l := s.ledger) (t := t) (p := p)
      (c := text.toUTF8)
    rw [writeAll] at hok ⊢
    generalize s.ledger.write t p text.toUTF8 = w at hok hwritten ⊢
    obtain ⟨result, l, t'⟩ := w
    cases result with
    | error e => cases hok
    | ok done =>
      have hrest : ∀ o ∈ rest, ∀ o' ∈ rest, o.1.components = o'.1.components → o = o' :=
        fun o ho o' ho' => hkeys o (List.mem_cons_of_mem _ ho) o' (List.mem_cons_of_mem _ ho')
      rcases List.mem_cons.1 ho with rfl | ho
      · -- the writes that follow are of the same file with the same content, or of others
        refine writeAll_induction (s := { s with ledger := l })
          (M := fun l _ => l.get? p = some (Ledger.digest text.toUTF8)) ?_ (hwritten rfl)
        intro l t o' ho' hget
        by_cases hp : p.components = o'.1.components
        · have heq := hkeys _ List.mem_cons_self o' (List.mem_cons_of_mem _ ho') hp
          rcases Ledger.write_self_cases l t p text.toUTF8 with ⟨hget', -⟩ | ⟨hget', -⟩
          · rw [← heq]
            exact hget'
          · rw [← heq]
            exact hget'.trans hget
        · exact (Ledger.get?_write_of_ne hp).trans hget
      · exact ih (s := { s with ledger := l }) hok hrest ho

/-- What each single write keeps is kept when the generated files are written. -/
lemma writeFiles_induction {M : Ledger → Tree → Prop}
    (step : ∀ l t, ∀ o ∈ s.outputs, M l t →
      M (l.write t o.1 o.2.toUTF8).2.1 (l.write t o.1 o.2.toUTF8).2.2)
    (h : M s.ledger t) : M (s.writeFiles t).session.ledger (s.writeFiles t).files := by
  unfold writeFiles
  split
  · exact h
  · exact writeAll_induction step h

lemma writeFiles_session (s : Session) (t : Tree) : (s.writeFiles t).session =
    { s with ledger := (s.writeFiles t).session.ledger } := by
  unfold writeFiles
  split
  · rfl
  · exact writeAll_session _ _ _ _

/-- Generated files are skipped if and only if there is no store. -/
lemma skipped_iff {r : WriteReport} (h : (s.writeFiles t).result = .ok r) :
    r.skipped = true ↔ s.stores = [] := by
  unfold writeFiles at h
  split at h
  · next hs =>
    rw [← Except.ok.inj h]
    simpa [WriteReport.skip] using hs
  · next hs =>
    rw [writeAll_skipped h]
    simpa [WriteReport.empty] using hs

/-- What is not skipped is written for a store. -/
lemma stores_ne_nil_of_not_skipped {r : WriteReport} (h : (s.writeFiles t).result = .ok r)
    (hskipped : r.skipped = false) : s.stores ≠ [] := by
  intro hnil
  rw [(skipped_iff h).2 hnil] at hskipped
  cases hskipped

lemma writeFiles_of_stores_eq_nil (h : s.stores = []) : s.writeFiles t = ⟨.ok .skip, s, t⟩ := by
  unfold writeFiles
  rw [h]
  rfl

lemma writeFiles_of_stores_ne_nil (h : s.stores ≠ []) :
    s.writeFiles t = writeAll .empty s t s.outputs := by
  unfold writeFiles
  rw [if_neg (by simpa using h)]

/-- Files that a ledger is honest about are left as if they had all been put. -/
theorem files_writeAll (h : ∀ o ∈ outs, s.ledger.Honest t o.1 o.2.toUTF8)
    (hapart : ∀ o ∈ outs, ∀ o' ∈ outs, o.1.target = o'.1.target → o.1 = o'.1 ∧
      Ledger.CollisionFree [o.2.toUTF8, o'.2.toUTF8]) :
    (writeAll report s t outs).files = (t.putAll outs).2 ∧
      (writeAll report s t outs).result.isOk = (t.putAll outs).1.isOk := by
  induction outs generalizing report s t with
  | nil => exact ⟨rfl, rfl⟩
  | cons o rest ih =>
    obtain ⟨p, text⟩ := o
    have hfirst := Ledger.files_write_of_honest (h (p, text) List.mem_cons_self)
    have hrest : ∀ o ∈ rest, (s.ledger.write t p text.toUTF8).2.1.Honest
        (s.ledger.write t p text.toUTF8).2.2 o.1 o.2.toUTF8 := by
      intro o ho
      refine Ledger.honest_write (h o (List.mem_cons_of_mem _ ho)) ?_
      by_cases htarget : o.1.target = p.target
      · obtain ⟨heq, hfree⟩ := hapart o (List.mem_cons_of_mem _ ho) (p, text) List.mem_cons_self
          htarget
        exact .inl ⟨heq, hfree _ (by simp) _ (by simp)⟩
      · exact .inr htarget
    -- write and put leave the same tree, and fail together
    rw [writeAll]
    unfold Tree.putAll
    generalize s.ledger.write t p text.toUTF8 = w at hfirst hrest ⊢
    generalize t.put p text.toUTF8 = put at hfirst ⊢
    obtain ⟨result, l, t'⟩ := w
    obtain ⟨made, t''⟩ := put
    obtain ⟨rfl, hok⟩ := hfirst
    cases result with
    | error e =>
      cases made with
      | ok u => cases hok
      | error e' => exact ⟨rfl, rfl⟩
    | ok done =>
      cases made with
      | error e' => cases hok
      | ok u =>
        exact ih (s := { s with ledger := l }) hrest fun o ho o' ho' =>
          hapart o (List.mem_cons_of_mem _ ho) o' (List.mem_cons_of_mem _ ho')

/-! ## The generated files of a session -/

variable {s' : Session} {u : Tree} {out : Path}

/-- What a generated file reads, and what it is to read. -/
def contentsAt (s : Session) (t : Tree) (p : Path) : List ByteArray :=
  (t.read p).toOption.toList ++ (s.outputs.filter (·.1 = p)).map fun o => o.2.toUTF8

/-- What a generated file reads and what it is to read have different digests if they differ. -/
def TellsApart (s : Session) (t : Tree) : Prop :=
  ∀ out ∈ s.project.outputs, Ledger.CollisionFree (s.contentsAt t out)

lemma outputs_congr (hproject : s'.project = s.project) (hstores : s'.stores = s.stores) :
    s'.outputs = s.outputs := by
  unfold outputs loader declarations
  rw [hproject, hstores]

lemma fst_mem_outputs {o : Path × String} (h : o ∈ s.outputs) : o.1 ∈ s.project.outputs := by
  simp only [outputs, List.mem_cons, List.not_mem_nil, or_false] at h
  rcases h with rfl | rfl <;> simp [Project.outputs]

lemma exists_mem_outputs (h : out ∈ s.project.outputs) : ∃ o ∈ s.outputs, o.1 = out := by
  simpa [Project.outputs, outputs, eq_comm] using h

lemma mem_contentsAt_of_read {c : ByteArray} (h : t.read out = .ok c) :
    c ∈ s.contentsAt t out := by
  unfold contentsAt
  rw [h]
  exact List.mem_append_left _ List.mem_cons_self

lemma mem_contentsAt_of_mem {o : Path × String} (h : o ∈ s.outputs) :
    o.2.toUTF8 ∈ s.contentsAt t o.1 :=
  List.mem_append_right _ (List.mem_map_of_mem (List.mem_filter.2 ⟨h, by simp⟩))

lemma TellsApart.congr (h : s.TellsApart t) (hproject : s'.project = s.project)
    (hstores : s'.stores = s.stores) : s'.TellsApart t := by
  unfold TellsApart contentsAt
  rw [hproject, outputs_congr hproject hstores]
  exact h

/-- Contents are still told apart once a generated file has one of the texts it is to have. -/
lemma TellsApart.of_read (h : s.TellsApart t)
    (hread : ∀ out ∈ s.project.outputs, ∃ o ∈ s.outputs, o.1 = out ∧ u.read out = .ok o.2.toUTF8) :
    s.TellsApart u := by
  intro out hout
  refine (h out hout).of_subset ?_
  intro c hc
  obtain ⟨o, ho, rfl, hread⟩ := hread out hout
  rcases List.mem_append.1 hc with hc | hc
  · rw [hread] at hc
    rw [List.mem_singleton.1 hc]
    exact mem_contentsAt_of_mem ho
  · exact List.mem_append_right _ hc

/-- Where every generated file reads what it is to read, there is nothing to tell apart. -/
lemma tellsApart_of_read (hne : s.project.loader ≠ s.project.declarations)
    (h : ∀ o ∈ s.outputs, t.read o.1 = .ok o.2.toUTF8) : s.TellsApart t := by
  intro out hout
  simp only [Project.outputs, List.mem_cons, List.not_mem_nil, or_false] at hout
  rcases hout with rfl | rfl
  · have hread := h (s.project.loader, s.loader) (by simp [outputs])
    refine (Ledger.collisionFree_singleton s.loader.toUTF8).of_subset ?_
    intro c hc
    simpa [contentsAt, hread, Except.toOption, outputs, hne.symm] using hc
  · have hread := h (s.project.declarations, s.declarations) (by simp [outputs])
    refine (Ledger.collisionFree_singleton s.declarations.toUTF8).of_subset ?_
    intro c hc
    simpa [contentsAt, hread, Except.toOption, outputs, hne] using hc

/-- Where no generated file is there yet, there is nothing to tell apart. -/
lemma tellsApart_of_missing (hne : s.project.loader ≠ s.project.declarations)
    (h : ∀ out ∈ s.project.outputs, (t.read out).isOk = false) : s.TellsApart t := by
  intro out hout
  have hnone : (t.read out).toOption = none := by
    have hout := h out hout
    cases hr : t.read out with
    | error e => rfl
    | ok c => rw [hr] at hout; cases hout
  simp only [Project.outputs, List.mem_cons, List.not_mem_nil, or_false] at hout
  unfold contentsAt outputs
  rw [hnone]
  rcases hout with rfl | rfl
  · simpa [hne.symm] using Ledger.collisionFree_singleton _
  · simpa [hne] using Ledger.collisionFree_singleton _

/-- A ledger that tracks a generated file is honest about what it is to read. -/
lemma honest_of_tellsApart {o : Path × String} (ho : o ∈ s.outputs)
    (h : s.ledger.Tracks t o.1) (hfree : s.TellsApart t) :
    s.ledger.Honest t o.1 o.2.toUTF8 :=
  Ledger.honest_of_tracks h (hfree _ (fst_mem_outputs ho)) (fun _ => mem_contentsAt_of_read)
    (mem_contentsAt_of_mem ho)

/-- What is left when a session writes files that its ledger is honest about. -/
lemma writeFiles_of_honest (hstores : s.stores ≠ []) (hapart : s.project.OutputsApart)
    (hfree : s.TellsApart t) (h : ∀ o ∈ s.outputs, s.ledger.Honest t o.1 o.2.toUTF8) :
    (s.writeFiles t).files = (t.putAll s.outputs).2 ∧
      (s.writeFiles t).result.isOk = (t.putAll s.outputs).1.isOk := by
  rw [writeFiles_of_stores_ne_nil hstores]
  refine files_writeAll h ?_
  intro o ho o' ho' htarget
  have heq : o.1 = o'.1 :=
    (hapart.eq_or_ne (fst_mem_outputs ho) (fst_mem_outputs ho')).resolve_right fun hne =>
      hne htarget
  refine ⟨heq, (hfree _ (fst_mem_outputs ho)).of_subset ?_⟩
  intro c hc
  simp only [List.mem_cons, List.not_mem_nil, or_false] at hc
  rcases hc with rfl | rfl
  · exact mem_contentsAt_of_mem ho
  · rw [heq]
    exact mem_contentsAt_of_mem ho'

/-- Two generated files at different places are told apart by their paths. -/
lemma eq_of_fst_eq (hne : s.project.loader.target ≠ s.project.declarations.target)
    {o o' : Path × String} (ho : o ∈ s.outputs) (ho' : o' ∈ s.outputs) (h : o.1 = o'.1) :
    o = o' := by
  simp only [outputs, List.mem_cons, List.not_mem_nil, or_false] at ho ho'
  rcases ho with rfl | rfl <;> rcases ho' with rfl | rfl
  · rfl
  · exact absurd (congrArg Path.target h) hne
  · exact absurd (congrArg Path.target h).symm hne
  · rfl

/-- Generated files that are known to have their contents are not written. -/
lemma writeFiles_of_known (hstores : s.stores ≠ [])
    (h : ∀ o ∈ s.outputs, s.ledger.get? o.1 = some (Ledger.digest o.2.toUTF8)) :
    s.writeFiles t = ⟨.ok ⟨false, [], s.project.outputs⟩, s, t⟩ := by
  rw [writeFiles_of_stores_ne_nil hstores, writeAll_of_known h]
  rfl

/-- Generated files that have been written are known to have their contents. -/
lemma get?_writeFiles (hstores : s.stores ≠ []) (hok : (s.writeFiles t).result.isOk = true)
    (hne : s.project.loader.components ≠ s.project.declarations.components)
    {o : Path × String} (ho : o ∈ s.outputs) :
    (s.writeFiles t).session.ledger.get? o.1 = some (Ledger.digest o.2.toUTF8) := by
  rw [writeFiles_of_stores_ne_nil hstores] at hok ⊢
  refine get?_writeAll hok ?_ ho
  intro o ho o' ho' hp
  simp only [outputs, List.mem_cons, List.not_mem_nil, or_false] at ho ho'
  rcases ho with rfl | rfl <;> rcases ho' with rfl | rfl
  · rfl
  · exact absurd hp hne
  · exact absurd hp.symm hne
  · rfl

/-- Two generated files at different places read what they are to read once they have been put. -/
lemma read_putAll_of_mem (hne : s.project.loader.target ≠ s.project.declarations.target)
    (hput : (t.putAll s.outputs).1 = .ok ()) {o : Path × String} (ho : o ∈ s.outputs) :
    (t.putAll s.outputs).2.read o.1 = .ok o.2.toUTF8 := by
  have hboth := Tree.read_putAll_pair hput hne
  simp only [outputs, List.mem_cons, List.not_mem_nil, or_false] at ho
  rcases ho with rfl | rfl
  · exact hboth.1
  · exact hboth.2

/-- Every generated file reads what it is to read once all of them have been put. -/
lemma exists_read_putAll (hapart : s.project.OutputsApart)
    (hput : (t.putAll s.outputs).1 = .ok ()) (hout : out ∈ s.project.outputs) :
    ∃ o ∈ s.outputs, o.1 = out ∧ (t.putAll s.outputs).2.read out = .ok o.2.toUTF8 := by
  simp only [Project.outputs, List.mem_cons, List.not_mem_nil, or_false] at hout
  have hloader : (s.project.loader, s.loader) ∈ s.outputs := by simp [outputs]
  have hdeclarations : (s.project.declarations, s.declarations) ∈ s.outputs := by simp [outputs]
  rcases hapart with heq | hne
  · obtain ⟨t₁, -, hb⟩ := Tree.put_of_putAll_pair hput
    have hout' : out = s.project.declarations := hout.elim (fun h => h.trans heq) id
    refine ⟨_, hdeclarations, hout'.symm, ?_⟩
    rw [hout']
    exact Tree.read_of_put hb
  · rcases hout with rfl | rfl
    · exact ⟨_, hloader, rfl, read_putAll_of_mem hne hput hloader⟩
    · exact ⟨_, hdeclarations, rfl, read_putAll_of_mem hne hput hdeclarations⟩

end Session

end StoreBindings
