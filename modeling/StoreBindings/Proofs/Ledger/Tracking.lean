import StoreBindings.Ledger
import StoreBindings.Proofs.Files.Putting
import StoreBindings.Proofs.Path.Target

/-!
# Ledgers that know what is on disk

A ledger lets a file be written only if the digest that it has of the file is another one than that
of the new content. So it does its work only if what it knows is what is there:

* `Tracks` — what a ledger knows of a file, if anything, is the digest of what the file reads.
* `tracks_write` — a write through the ledger keeps this of the file and of all files elsewhere.
* `Honest` — if the ledger would have a content skipped, the file reads it. A ledger that tracks the
  file is honest about all contents that digests tell apart: `honest_of_tracks`.
* `files_write_of_honest` — through an honest ledger, a write leaves exactly the tree that putting the
  content unconditionally leaves.
-/

namespace StoreBindings

namespace Ledger

open Files (Tree)

variable {l : Ledger} {t : Tree} {p q : Path} {c d : ByteArray}

/-- Among these contents, no two have one digest. -/
def CollisionFree (contents : List ByteArray) : Prop :=
  ∀ a ∈ contents, ∀ b ∈ contents, digest a = digest b → a = b

/-- Fewer contents do not collide either. -/
lemma CollisionFree.of_subset {contents contents' : List ByteArray} (h : CollisionFree contents')
    (hsub : ∀ c ∈ contents, c ∈ contents') : CollisionFree contents :=
  fun a ha b hb => h a (hsub a ha) b (hsub b hb)

/-- One content does not collide with itself. -/
lemma collisionFree_singleton (c : ByteArray) : CollisionFree [c] := by
  intro a ha b hb _
  rw [List.mem_singleton.1 ha, List.mem_singleton.1 hb]

/-- Two contents with different digests do not collide. -/
lemma collisionFree_pair {a b : ByteArray} (h : digest a ≠ digest b) : CollisionFree [a, b] := by
  simp only [CollisionFree, List.mem_cons, List.not_mem_nil, or_false, forall_eq_or_imp, forall_eq]
  exact ⟨⟨fun _ => trivial, fun he => absurd he h⟩, fun he => absurd he.symm h, fun _ => trivial⟩

/-! ## Look-ups -/

@[simp] lemma get?_empty (p : Path) : empty.get? p = none := rfl

@[simp] lemma get?_record_self (l : Ledger) (p : Path) (c : ByteArray) :
    (l.record p c).get? p = some (digest c) := OrderedMap.get?_insert_self l.digests _ _

/-- What is recorded is known by every spelling of the path. -/
lemma get?_record_of_same (l : Ledger) (h : q.components = p.components) (c : ByteArray) :
    (l.record p c).get? q = some (digest c) := by
  unfold get?
  rw [h]
  exact get?_record_self l p c

/-- Of other paths nothing is learned. -/
lemma get?_record_of_ne (l : Ledger) (h : q.components ≠ p.components) (c : ByteArray) :
    (l.record p c).get? q = l.get? q := OrderedMap.get?_insert_of_ne l.digests h _

/-- What is known of other paths is not forgotten. -/
lemma get?_forget_of_ne (l : Ledger) (h : q.components ≠ p.components) :
    (l.forget p).get? q = l.get? q := OrderedMap.get?_erase_of_ne l.digests h

/-- What is forgotten is not known by any spelling of the path. -/
lemma get?_forget_of_same (l : Ledger) (h : q.components = p.components) :
    (l.forget p).get? q = none := by
  unfold get? forget
  rw [h]
  exact OrderedMap.get?_erase_self l.digests _

/-- A content counts as unchanged if its digest is known. -/
lemma isChanged_eq_false_iff : l.isChanged p c = false ↔ l.get? p = some (digest c) := by
  unfold isChanged
  simp

/-! ## Writing -/

/-- What has changed is put, and recorded if that works. -/
lemma write_eq_put (l : Ledger) (t : Tree) (p : Path) (c : ByteArray) :
    l.write t p c =
      if l.isChanged p c then
        match t.put p c with
        | (.ok _, t) => (.ok .written, l.record p c, t)
        | (.error e, t) => (.error e, l, t)
      else (.ok .unchanged, l, t) := by
  unfold write Tree.put Tree.withParents
  split
  · cases p.parent? with
    | none =>
      dsimp only
      cases t.write p c <;> rfl
    | some above =>
      dsimp only
      cases t.makeDirectories above with
      | mk made t₁ =>
        cases made with
        | error e => rfl
        | ok u =>
          dsimp only
          cases t₁.write p c <;> rfl
  · rfl

/-- A write is skipped, or it puts the file, and what is known follows what has been put. -/
lemma write_cases (l : Ledger) (t : Tree) (p : Path) (c : ByteArray) :
    l.get? p = some (digest c) ∧ l.write t p c = (.ok .unchanged, l, t) ∨
      l.get? p ≠ some (digest c) ∧
        ((t.put p c).1 = .ok () ∧
            l.write t p c = (.ok .written, l.record p c, (t.put p c).2) ∨
          ∃ e, (t.put p c).1 = .error e ∧ l.write t p c = (.error e, l, (t.put p c).2)) := by
  rw [write_eq_put]
  by_cases h : l.get? p = some (digest c)
  · left
    rw [isChanged_eq_false_iff.2 h]
    exact ⟨h, rfl⟩
  · right
    have hch : l.isChanged p c = true := by
      rw [← Bool.not_eq_false, isChanged_eq_false_iff]
      exact h
    rw [if_pos hch]
    refine ⟨h, ?_⟩
    cases t.put p c with
    | mk made t₁ =>
      cases made with
      | ok u => exact .inl ⟨rfl, rfl⟩
      | error e => exact .inr ⟨e, rfl, rfl⟩

/-! ## What is known is there -/

/-- What a ledger knows of a file, if anything, is the digest of what the file reads. -/
def Tracks (l : Ledger) (t : Tree) (p : Path) : Prop :=
  ∀ d, l.get? p = some d → ∃ c, t.read p = .ok c ∧ digest c = d

/-- A file of which nothing is known is tracked. -/
lemma tracks_of_get?_eq_none (h : l.get? p = none) : l.Tracks t p := by
  intro d hd
  rw [h] at hd
  cases hd

/-- A file stays tracked while nothing is learned of it and it reads the same. -/
lemma Tracks.congr {l' : Ledger} {t' : Tree} (h : l.Tracks t p) (hl : l'.get? p = l.get? p)
    (ht : ∀ c, t.read p = .ok c → t'.read p = .ok c) : l'.Tracks t' p := by
  intro d hd
  rw [hl] at hd
  obtain ⟨c, hc, hdc⟩ := h d hd
  exact ⟨c, ht c hc, hdc⟩

/-- Whether a write succeeds or not, it leaves the tree alone or puts the file. -/
lemma files_write_cases (l : Ledger) (t : Tree) (p : Path) (c : ByteArray) :
    (l.write t p c).2.2 = t ∨ (l.write t p c).2.2 = (t.put p c).2 := by
  rcases write_cases l t p c with ⟨-, hw⟩ | ⟨-, ⟨-, hw⟩ | ⟨e, -, hw⟩⟩
  · left
    rw [hw]
  · right
    rw [hw]
  · right
    rw [hw]

/-- A write leaves directories and files what they are. -/
lemma keeps_write (l : Ledger) (t : Tree) (p : Path) (c : ByteArray) :
    Tree.Keeps t (l.write t p c).2.2 := by
  rcases files_write_cases l t p c with hw | hw
  · rw [hw]
    exact .refl t
  · rw [hw]
    exact Tree.keeps_put t p c

/-- A write does not change the files at other places. -/
lemma keepsFile_write_of_ne {place : Files.Place} (hp : place ≠ p.target) :
    Tree.KeepsFile t (l.write t p c).2.2 place := by
  rcases files_write_cases l t p c with hw | hw
  · rw [hw]
    exact fun _ => id
  · rw [hw]
    exact Tree.keepsFile_put t c hp

/-- A write does not change what files at other places read. -/
lemma read_write_of_ne (hq : q.target ≠ p.target) (h : t.read q = .ok d) :
    (l.write t p c).2.2.read q = .ok d :=
  Tree.read_of_keeps (keeps_write l t p c) (keepsFile_write_of_ne hq) h

/-- A write teaches nothing of other paths. -/
lemma get?_write_of_ne (hq : q.components ≠ p.components) :
    (l.write t p c).2.1.get? q = l.get? q := by
  rcases write_cases l t p c with ⟨-, hw⟩ | ⟨-, ⟨-, hw⟩ | ⟨e, -, hw⟩⟩
  · rw [hw]
  · rw [hw]
    exact get?_record_of_ne l hq c
  · rw [hw]

/-- What has been written is known. -/
lemma get?_write_of_isOk (h : (l.write t p c).1.isOk = true) :
    (l.write t p c).2.1.get? p = some (digest c) := by
  rcases write_cases l t p c with ⟨hget, hw⟩ | ⟨-, ⟨-, hw⟩ | ⟨e, -, hw⟩⟩
  · rw [hw]
    exact hget
  · rw [hw]
    exact get?_record_self l p c
  · rw [hw] at h
    cases h

/-- What is known of a file after it has been written, or should have been: its new content, or what
was known before. -/
lemma write_self_cases (l : Ledger) (t : Tree) (p : Path) (c : ByteArray) :
    ((l.write t p c).2.1.get? p = some (digest c) ∧ (l.write t p c).2.2.read p = .ok c) ∨
      (l.write t p c).2.1.get? p = l.get? p ∧
        ∀ d, t.read p = .ok d → (l.write t p c).2.2.read p = .ok d := by
  rcases write_cases l t p c with ⟨-, hw⟩ | ⟨-, ⟨hput, hw⟩ | ⟨e, hput, hw⟩⟩
  · rw [hw]
    exact .inr ⟨rfl, fun _ => id⟩
  · rw [hw]
    exact .inl ⟨get?_record_self l p c, Tree.read_put hput⟩
  · rw [hw]
    exact .inr ⟨rfl, fun d hd => Tree.read_of_keeps (Tree.keeps_put t p c)
      (Tree.keepsFile_put_of_error hput _) hd⟩

/-- A write keeps track of the file that is written, and of all files at other places. -/
theorem tracks_write (h : l.Tracks t q) (hq : q = p ∨ q.target ≠ p.target) :
    (l.write t p c).2.1.Tracks (l.write t p c).2.2 q := by
  rcases hq with rfl | hq
  · rcases write_self_cases l t q c with ⟨hget, hread⟩ | ⟨hget, hread⟩
    · intro d hd
      rw [hget] at hd
      exact ⟨c, hread, Option.some.inj hd⟩
    · exact h.congr hget hread
  · exact h.congr (get?_write_of_ne fun he => hq (Path.target_congr he))
      fun _ => read_write_of_ne hq

/-! ## What is skipped is there -/

/-- If a ledger would have a content skipped, it is there. -/
def Honest (l : Ledger) (t : Tree) (p : Path) (c : ByteArray) : Prop :=
  l.get? p = some (digest c) → t.read p = .ok c

/-- A ledger that tracks a file is honest about what cannot be confused with what the file reads. -/
theorem honest_of_tracks {contents : List ByteArray} (h : l.Tracks t p)
    (hfree : CollisionFree contents) (hread : ∀ d, t.read p = .ok d → d ∈ contents)
    (hc : c ∈ contents) : l.Honest t p c := by
  intro hget
  obtain ⟨d, hd, hdigest⟩ := h _ hget
  rw [hfree d (hread d hd) c hc hdigest] at hd
  exact hd

/-- A write keeps a ledger honest about the file that is written, if its content cannot be confused
with the new one, and about files at other places. -/
lemma honest_write (h : l.Honest t q d) (hq : q = p ∧ (digest c = digest d → c = d) ∨
    q.target ≠ p.target) : (l.write t p c).2.1.Honest (l.write t p c).2.2 q d := by
  intro hget
  rcases hq with ⟨rfl, hsame⟩ | hq
  · rcases write_self_cases l t q c with ⟨hget', hread⟩ | ⟨hget', hread⟩
    · rw [hget'] at hget
      rw [hread, hsame (Option.some.inj hget)]
    · rw [hget'] at hget
      exact hread d (h hget)
  · rw [get?_write_of_ne fun he => hq (Path.target_congr he)] at hget
    exact read_write_of_ne hq (h hget)

/-- Through an honest ledger, a write does to the tree what putting the content does. -/
theorem files_write_of_honest (h : l.Honest t p c) :
    (l.write t p c).2.2 = (t.put p c).2 ∧ (l.write t p c).1.isOk = (t.put p c).1.isOk := by
  rcases write_cases l t p c with ⟨hget, hw⟩ | ⟨-, ⟨hput, hw⟩ | ⟨e, hput, hw⟩⟩
  · -- what is skipped is there, so putting it changes nothing either
    have hsame := Tree.put_of_read (h hget)
    rw [hw, hsame]
    exact ⟨rfl, rfl⟩
  · rw [hw, hput]
    exact ⟨rfl, rfl⟩
  · rw [hw, hput]
    exact ⟨rfl, rfl⟩

end Ledger

end StoreBindings
