import Mathlib.Tactic.SplitIfs
import StoreBindings.Files.Tree

/-!
# What a path reads when a tree changes

A path that leads somewhere leads to its `target`, a place that is known from the names of the path
alone. So whether a change of a tree can be seen through a path is a question about two places:

* `Keeps` — directories stay directories and files stay files; what is new is new.
* `KeepsFile` — the file at one place stays as it is.
* `read_of_keeps` — under both, what a path reads does not change.
* `IsOpen` — a path reads a file, or nothing because nothing is there: it is not blocked by a directory
  at its end or by a file on its way.
-/

namespace StoreBindings

namespace Files

/-- The place that one more name leads to. -/
def descend (place : Place) (name : List Char) : Place :=
  if name = [] ∨ name = ['.'] then place
  else if name = ['.', '.'] then place.dropLast
  else place ++ [name]

end Files

/-- The place that the names of a path lead to. -/
def Path.target (p : Path) : Files.Place := (Path.pieces p.text).foldl Files.descend []

namespace Files.Tree

variable {t t' : Tree} {p q : Path} {place place' : Place} {names : List (List Char)}

/-! ## Following -/

@[simp] lemma at?_nil (t : Tree) : t.at? [] = some .directory := rfl

@[simp] lemma follow_nil (t : Tree) (place : Place) : t.follow place [] = .ok place := rfl

/-- A name is followed in a directory. -/
lemma follow_cons_of_directory (h : t.at? place = some .directory) (name : List Char)
    (names : List (List Char)) :
    t.follow place (name :: names) = t.follow (descend place name) names := by
  rw [follow, h]
  unfold descend
  split_ifs <;> rfl

/-- No name is followed in a file. -/
lemma follow_cons_of_file {c : ByteArray} (h : t.at? place = some (.file c)) (name : List Char)
    (names : List (List Char)) : t.follow place (name :: names) = .error .notDirectory := by
  rw [follow, h]

/-- No name is followed where nothing is. -/
lemma follow_cons_of_none (h : t.at? place = none) (name : List Char)
    (names : List (List Char)) : t.follow place (name :: names) = .error .missing := by
  rw [follow, h]

/-- Where there is a name to follow, there is a directory to follow it in. -/
lemma directory_of_follow_cons {name : List Char}
    (h : t.follow place (name :: names) = .ok place') : t.at? place = some .directory := by
  cases he : t.at? place with
  | none => rw [follow_cons_of_none he] at h; cases h
  | some e =>
    cases e with
    | file c => rw [follow_cons_of_file he] at h; cases h
    | directory => rfl

/-- Names that can be followed lead where they lead one by one. -/
lemma eq_foldl_of_follow (h : t.follow place names = .ok place') :
    place' = names.foldl descend place := by
  induction names generalizing place with
  | nil => rw [follow_nil] at h; exact (Except.ok.inj h).symm
  | cons name names ih =>
    rw [follow_cons_of_directory (directory_of_follow_cons h)] at h
    rw [List.foldl_cons]
    exact ih h

/-- Names are followed in two parts as they are followed in one. -/
lemma follow_append {more : List (List Char)} (h : t.follow place (names ++ more) = .ok place') :
    ∃ middle, t.follow place names = .ok middle ∧ t.follow middle more = .ok place' := by
  induction names generalizing place with
  | nil => exact ⟨place, rfl, h⟩
  | cons name names ih =>
    rw [List.cons_append] at h
    have hd := directory_of_follow_cons h
    rw [follow_cons_of_directory hd] at h ⊢
    exact ih h

/-- A path is located by following its parts from the root, unless it is empty. -/
lemma locate_eq_ok_iff :
    t.locate p = .ok place ↔ p.text ≠ [] ∧ t.follow [] (Path.pieces p.text) = .ok place := by
  unfold locate
  cases p.text with
  | nil => simp
  | cons c cs => simp

/-- A path that leads somewhere leads to its target. -/
lemma eq_target_of_locate (h : t.locate p = .ok place) : place = p.target :=
  eq_foldl_of_follow (locate_eq_ok_iff.1 h).2

/-- A path is read if it leads to a file at its target. -/
lemma read_eq_ok_iff {c : ByteArray} :
    t.read p = .ok c ↔ t.locate p = .ok p.target ∧ t.at? p.target = some (.file c) := by
  constructor
  · intro h
    unfold read entry at h
    cases hl : t.locate p with
    | error e => rw [hl] at h; cases h
    | ok place =>
      rw [← eq_target_of_locate hl]
      refine ⟨rfl, ?_⟩
      rw [hl] at h
      simp only [bind, Except.bind] at h
      cases he : t.at? place with
      | none => rw [he] at h; cases h
      | some e =>
        rw [he] at h
        cases e with
        | directory => cases h
        | file c' => cases h; rfl
  · rintro ⟨hl, he⟩
    simp only [read, entry, hl, he, bind, Except.bind]

/-- There is a file where one can be read. -/
lemma isFile_iff : t.isFile p = true ↔ ∃ c, t.read p = .ok c := by
  unfold isFile read
  cases he : t.entry p with
  | error e => simp [bind, Except.bind]
  | ok e => cases e <;> simp [bind, Except.bind]

/-! ## Trees that keep what they have -/

/-- Directories stay directories, and files stay files. -/
def Keeps (t t' : Tree) : Prop := ∀ place,
  (t.at? place = some .directory → t'.at? place = some .directory) ∧
    ∀ c, t.at? place = some (.file c) → ∃ c', t'.at? place = some (.file c')

/-- If there is a file at a place, it stays as it is. -/
def KeepsFile (t t' : Tree) (place : Place) : Prop :=
  ∀ c, t.at? place = some (.file c) → t'.at? place = some (.file c)

lemma Keeps.refl (t : Tree) : Keeps t t := fun _ => ⟨id, fun c h => ⟨c, h⟩⟩

lemma Keeps.trans {t'' : Tree} (h : Keeps t t') (h' : Keeps t' t'') : Keeps t t'' := by
  intro place
  refine ⟨fun hd => (h' place).1 ((h place).1 hd), fun c hc => ?_⟩
  obtain ⟨c', hc'⟩ := (h place).2 c hc
  exact (h' place).2 c' hc'

/-- Nothing can be there only before: a directory is one in both trees, and so is a file. -/
lemma Keeps.cases (hk : Keeps t t') (place : Place) : t.at? place = none ∨
    t.at? place = some .directory ∧ t'.at? place = some .directory ∨
    ∃ c c', t.at? place = some (.file c) ∧ t'.at? place = some (.file c') := by
  cases he : t.at? place with
  | none => exact .inl rfl
  | some e =>
    cases e with
    | directory => exact .inr (.inl ⟨rfl, (hk place).1 he⟩)
    | file c =>
      obtain ⟨c', hc'⟩ := (hk place).2 c he
      exact .inr (.inr ⟨c, c', rfl, hc'⟩)

lemma KeepsFile.trans {t'' : Tree} (h : KeepsFile t t' place) (h' : KeepsFile t' t'' place) :
    KeepsFile t t'' place := fun c hc => h' c (h c hc)

/-- Names that could be followed still can be, and lead to the same place. -/
lemma follow_of_keeps (hk : Keeps t t') (h : t.follow place names = .ok place') :
    t'.follow place names = .ok place' := by
  induction names generalizing place with
  | nil => exact h
  | cons name names ih =>
    have hd := directory_of_follow_cons h
    rw [follow_cons_of_directory hd] at h
    rw [follow_cons_of_directory ((hk place).1 hd)]
    exact ih h

/-- A path still leads where it has led. -/
lemma locate_of_keeps (hk : Keeps t t') (h : t.locate p = .ok place) :
    t'.locate p = .ok place := by
  rw [locate_eq_ok_iff] at h ⊢
  exact ⟨h.1, follow_of_keeps hk h.2⟩

/-- What a path reads is still read where directories stay and the file itself stays. -/
theorem read_of_keeps {c : ByteArray} (hk : Keeps t t') (hf : KeepsFile t t' p.target)
    (h : t.read p = .ok c) : t'.read p = .ok c := by
  rw [read_eq_ok_iff] at h ⊢
  exact ⟨locate_of_keeps hk h.1, hf c h.2⟩

/-! ## Paths that are not blocked -/

/-- A path is open if it reads a file or if nothing is there: no directory is at its end, and no
file on its way. -/
def IsOpen (t : Tree) (p : Path) : Prop := (∃ c, t.read p = .ok c) ∨ t.read p = .error .missing

/-- Names that can be followed led to the same place before, or to nothing. -/
lemma follow_of_keeps_back (hk : Keeps t t') (h : t'.follow place names = .ok place') :
    t.follow place names = .ok place' ∨ t.follow place names = .error .missing := by
  -- where the earlier tree has a directory too the way goes on, and else it ends
  induction names generalizing place with
  | nil => exact .inl h
  | cons name names ih =>
    have hd := directory_of_follow_cons h
    rcases hk.cases place with he | ⟨he, -⟩ | ⟨c, c', -, he'⟩
    · exact .inr (follow_cons_of_none he name names)
    · rw [follow_cons_of_directory hd] at h
      rw [follow_cons_of_directory he]
      exact ih h
    · rw [hd] at he'
      cases he'

/-- A path that leads to anything but a directory in a later tree was open before. -/
lemma isOpen_of_keeps (hk : Keeps t t') (hl : t'.locate p = .ok place)
    (hd : t'.at? place ≠ some .directory) : IsOpen t p := by
  obtain ⟨hp, hf⟩ := locate_eq_ok_iff.1 hl
  rcases follow_of_keeps_back hk hf with hb | hb
  · -- the path led to the same place before, where a directory would have stayed
    have hlt : t.locate p = .ok place := locate_eq_ok_iff.2 ⟨hp, hb⟩
    rcases hk.cases place with he | ⟨-, he'⟩ | ⟨c, -, he, -⟩
    · right
      simp only [read, entry, hlt, he, bind, Except.bind]
    · exact absurd he' hd
    · left
      have ht := eq_target_of_locate hlt
      subst ht
      exact ⟨c, read_eq_ok_iff.2 ⟨hlt, he⟩⟩
  · right
    have hlt : t.locate p = .error .missing := by
      unfold locate
      rw [hb, if_neg (by simpa using hp)]
    simp only [read, entry, hlt, bind, Except.bind]

end Files.Tree

end StoreBindings
