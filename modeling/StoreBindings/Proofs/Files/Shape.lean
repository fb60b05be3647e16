import StoreBindings.Proofs.Files.Putting

/-!
# The shape of a tree

Two trees have the same shape if they have the same entries, the contents of files aside: `SameShape`. What
a path leads to and what a directory holds is a matter of the shape alone.
-/

namespace StoreBindings.Files

/-- An entry without its content. -/
def Entry.blank : Entry → Entry
  | .file _ => .file .empty
  | .directory => .directory

namespace Tree

variable {t t' : Tree} {p : Path} {place : Place}

/-- The same entries, the contents of files aside. -/
structure SameShape (t t' : Tree) : Prop where
  keys : t'.entries.keys = t.entries.keys
  blank : ∀ place, (t'.at? place).map Entry.blank = (t.at? place).map Entry.blank

lemma SameShape.refl (t : Tree) : SameShape t t := ⟨rfl, fun _ => rfl⟩

lemma SameShape.trans {t'' : Tree} (h : SameShape t t') (h' : SameShape t' t'') :
    SameShape t t'' := ⟨h'.keys.trans h.keys, fun place => (h'.blank place).trans (h.blank place)⟩

/-- A file is given another content without a change of shape. -/
lemma sameShape_insert {c d : ByteArray} (h : t.at? place = some (.file c)) :
    SameShape t ⟨t.entries.insert place (.file d)⟩ := by
  have hne : place ≠ [] := ne_nil_of_at?_ne_directory (t := t) (by rw [h]; simp)
  constructor
  · have hmem : place ∈ t.entries.keys := by
      unfold at? at h
      rw [if_neg (by simpa using hne)] at h
      exact List.mem_map.2 ⟨_, OrderedMap.mem_of_lookup h, rfl⟩
    rw [OrderedMap.keys_insert, if_pos hmem]
  · intro place'
    by_cases hp : place' = place
    · subst hp
      rw [at?_insert_self t hne, h]
      rfl
    · rw [at?_insert_of_ne t hp]

/-- The shape of a tree tells for each place whether there is nothing, a file or a directory. -/
lemma SameShape.cases (h : SameShape t t') (place : Place) :
    t.at? place = none ∧ t'.at? place = none ∨
      ∃ e e', t.at? place = some e ∧ t'.at? place = some e' ∧ e'.blank = e.blank := by
  have hb := h.blank place
  cases he : t.at? place with
  | none =>
    rw [he] at hb
    exact .inl ⟨rfl, Option.map_eq_none_iff.1 hb⟩
  | some e =>
    rw [he] at hb
    obtain ⟨e', he', hblank⟩ := Option.map_eq_some_iff.1 hb
    exact .inr ⟨e, e', rfl, he', hblank⟩

/-- Names lead to the same place in trees of one shape. -/
lemma follow_congr (h : SameShape t t') (place : Place) (names : List (List Char)) :
    t'.follow place names = t.follow place names := by
  induction names generalizing place with
  | nil => rfl
  | cons name names ih =>
    -- what is followed further only depends on whether there is a directory
    rw [follow, follow, ih, ih, ih]
    rcases h.cases place with ⟨he, he'⟩ | ⟨e, e', he, he', hblank⟩
    · rw [he, he']
    · rw [he, he']
      cases e <;> cases e' <;> first | rfl | cases hblank

/-- So does a path. -/
lemma locate_congr (h : SameShape t t') (p : Path) : t'.locate p = t.locate p := by
  unfold locate
  rw [follow_congr h]

/-- A path leads to a file in both trees, to a directory in both, or fails in the same way. -/
lemma entry_congr (h : SameShape t t') (p : Path) :
    (t'.entry p).map Entry.blank = (t.entry p).map Entry.blank := by
  unfold entry
  rw [locate_congr h]
  cases t.locate p with
  | error e => rfl
  | ok place =>
    simp only [bind, Except.bind]
    rcases h.cases place with ⟨he, he'⟩ | ⟨e, e', he, he', hblank⟩
    · rw [he, he']
    · rw [he, he']
      simp only [Except.map, hblank]

/-- Whether a path leads to a file is told without the content of the file. -/
lemma isFile_eq (t : Tree) (p : Path) : t.isFile p =
    match (t.entry p).map Entry.blank with
    | .ok (.file _) => true
    | _ => false := by
  unfold isFile
  cases t.entry p with
  | error e => rfl
  | ok e => cases e <;> rfl

/-- So is whether it leads to a directory. -/
lemma isDirectory_eq (t : Tree) (p : Path) : t.isDirectory p =
    match (t.entry p).map Entry.blank with
    | .ok .directory => true
    | _ => false := by
  unfold isDirectory
  cases t.entry p with
  | error e => rfl
  | ok e => cases e <;> rfl

/-- So is whether it leads to anything. -/
lemma reaches_eq (t : Tree) (p : Path) : t.reaches p = ((t.entry p).map Entry.blank).isOk := by
  unfold reaches
  cases t.entry p <;> rfl

/-- The same paths lead to files in trees of one shape. -/
lemma isFile_congr (h : SameShape t t') : t'.isFile = t.isFile :=
  funext fun p => by rw [isFile_eq, isFile_eq, entry_congr h]

/-- The same paths lead to directories. -/
lemma isDirectory_congr (h : SameShape t t') : t'.isDirectory = t.isDirectory :=
  funext fun p => by rw [isDirectory_eq, isDirectory_eq, entry_congr h]

/-- The same paths lead to anything at all. -/
lemma reaches_congr (h : SameShape t t') : t'.reaches = t.reaches :=
  funext fun p => by rw [reaches_eq, reaches_eq, entry_congr h]

/-- A file that has not changed is read in both trees. -/
lemma read_congr (h : SameShape t t') (hp : t'.at? p.target = t.at? p.target) :
    t'.read p = t.read p := by
  unfold read entry
  rw [locate_congr h]
  cases hl : t.locate p with
  | error e => rfl
  | ok place =>
    have hplace := eq_target_of_locate hl
    subst hplace
    simp only [bind, Except.bind]
    rw [hp]

/-- Directories have the same names in trees of one shape. -/
lemma namesIn_congr (h : SameShape t t') (place : Place) : t'.namesIn place = t.namesIn place := by
  unfold namesIn
  rw [h.keys]

end Tree

end StoreBindings.Files
