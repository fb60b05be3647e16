import StoreBindings.Proofs.Files.Proper

/-!
# Trees that are added to

Making directories and writing files only adds to a tree: `Extends`. What was there is still there, in
the same order, and a proper tree stays proper.

* `extends_put` — putting a file adds to a tree.
* `Keeps.reaches_join` — one more name leads to what was there before, or to something new.
* `namesIn_of_extends` — a directory has the names that it had, in the same order, and new ones between.
-/

namespace StoreBindings.Files.Tree

variable {t t' : Tree} {p q dir : Path} {place place' : Place} {name : List Char}
  {names : List (List Char)}

/-- A tree comes from another by putting files and making directories. -/
structure Extends (t t' : Tree) : Prop where
  keeps : Keeps t t'
  keys : t.entries.keys <+: t'.entries.keys
  proper : t.Proper → t'.Proper

lemma Extends.refl (t : Tree) : Extends t t := ⟨.refl t, List.prefix_refl _, id⟩

/-- What is added to twice is added to. -/
lemma Extends.trans {t'' : Tree} (h : Extends t t') (h' : Extends t' t'') : Extends t t'' :=
  ⟨h.keeps.trans h'.keeps, h.keys.trans h'.keys, h'.proper ∘ h.proper⟩

/-- A new entry comes behind all others, and an entry that is there keeps its place. -/
lemma keys_insert_prefix (t : Tree) (place : Place) (e : Entry) :
    t.entries.keys <+: (t.entries.insert place e).keys := by
  rw [OrderedMap.keys_insert]
  split
  · exact List.prefix_refl _
  · exact List.prefix_append ..

/-- A tree stays proper if something is put in a directory, and a directory is no longer one. -/
lemma Proper.insert (h : t.Proper) {front : Place} (hname : IsName name)
    (hfront : t.at? front = some .directory)
    (hnot : t.at? (front ++ [name]) ≠ some .directory) (e : Entry) :
    Proper ⟨t.entries.insert (front ++ [name]) e⟩ := by
  have hkeep : ∀ {dir : Place}, t.at? dir = some .directory →
      (⟨t.entries.insert (front ++ [name]) e⟩ : Tree).at? dir = some .directory := by
    intro dir hd
    rw [at?_insert_of_ne t (by rintro rfl; exact hnot hd), hd]
  intro key hkey last hlast
  rcases (OrderedMap.mem_keys_insert ..).1 hkey with hold | rfl
  · obtain ⟨hl, hd⟩ := h key hold last hlast
    exact ⟨hl, hkeep hd⟩
  · rw [List.getLast?_concat, Option.mem_some_iff] at hlast
    rw [List.dropLast_concat, ← hlast]
    exact ⟨hname, hkeep hfront⟩

/-- An entry in a directory that is there adds to a tree, unless a directory is lost. -/
lemma extends_insert (hf : t.follow [] names = .ok place) (hslash : ∀ n ∈ names, '/' ∉ n)
    (hnot : t.at? place ≠ some .directory) {e : Entry}
    (hkeeps : Keeps t ⟨t.entries.insert place e⟩) :
    Extends t ⟨t.entries.insert place e⟩ := by
  refine ⟨hkeeps, keys_insert_prefix t place e, fun hproper => ?_⟩
  obtain ⟨front, name, rfl, hname, hfront⟩ :=
    hproper.exists_parent hf hslash (at?_nil t) hnot
  exact hproper.insert hname hfront hnot e

/-- Making a directory adds to a tree. -/
lemma extends_makeDirectory (h : t.makeDirectory p = .ok t') : Extends t t' := by
  have hkeeps := (grows_makeDirectory h).keeps
  obtain ⟨place, hl, he, rfl⟩ := makeDirectory_eq_ok_iff.1 h
  unfold locateDirectory at hl
  split at hl
  · cases hl
  · refine extends_insert hl ?_ (by rw [he]; simp) hkeeps
    -- the names are parts of the path, so there is no slash in them
    intro n hn
    have hmem := List.mem_reverse.1 ((List.dropWhile_sublist _).mem (List.mem_reverse.1 hn))
    exact Path.slash_not_mem_of_mem_pieces hmem

/-- Writing a file adds to a tree. -/
lemma extends_write {c : ByteArray} (h : t.write p c = .ok t') : Extends t t' := by
  have hkeeps := keeps_write h
  obtain ⟨hl, hnot, rfl⟩ := write_eq_ok_iff.1 h
  exact extends_insert (locate_eq_ok_iff.1 hl).2 (fun _ => Path.slash_not_mem_of_mem_pieces) hnot
    hkeeps

/-- Putting a file adds to a tree, even if it fails. -/
theorem extends_put (t : Tree) (p : Path) (c : ByteArray) : Extends t (t.put p c).2 := by
  have hparents : Extends t (t.withParents p).2 := by
    unfold withParents
    split
    · exact makeDirectoriesWithin_induction Extends.refl Extends.trans extends_makeDirectory _ t _
    · exact .refl t
  rcases put_cases t p c with ⟨-, h⟩ | ⟨-, -, h⟩
  · rw [h]
    exact hparents
  · exact hparents.trans (extends_write h)

/-! ## What is reached -/

/-- Whether something is at the place that a path leads to, however the path gets there. -/
def isThere (t : Tree) (p : Path) : Bool := (t.at? p.target).isSome

/-- What is reached is there. -/
lemma isThere_of_reaches (h : t.reaches p = true) : t.isThere p = true := (reaches_iff.1 h).2

/-- Whether something is there depends on where a path leads only. -/
lemma isThere_eq_of_target {q : Path} (h : p.target = q.target) : t.isThere p = t.isThere q := by
  unfold isThere
  rw [h]

/-- What is there is still there afterwards. -/
lemma Keeps.isSome (h : Keeps t t') {place : Place} (hsome : (t.at? place).isSome = true) :
    (t'.at? place).isSome = true := by
  rcases h.cases place with he | ⟨-, he'⟩ | ⟨c, c', -, he'⟩
  · rw [he] at hsome
    cases hsome
  · rw [he']
    rfl
  · rw [he']
    rfl

/-- What is reached is still reached afterwards. -/
lemma Keeps.reaches (h : Keeps t t') (hp : t.reaches p = true) : t'.reaches p = true := by
  obtain ⟨hl, hsome⟩ := reaches_iff.1 hp
  exact reaches_iff.2 ⟨locate_of_keeps h hl, h.isSome hsome⟩

/-- What a path reaches stays a directory, or stays none. -/
lemma Keeps.isDirectory (h : Keeps t t') (hp : t.reaches p = true) :
    t'.isDirectory p = t.isDirectory p := by
  obtain ⟨hl, hsome⟩ := reaches_iff.1 hp
  rw [Bool.eq_iff_iff, isDirectory_iff, isDirectory_iff]
  rcases h.cases p.target with he | ⟨he, he'⟩ | ⟨c, c', he, he'⟩
  · rw [he] at hsome
    cases hsome
  · exact iff_of_true ⟨locate_of_keeps h hl, he'⟩ ⟨hl, he⟩
  · simp [he, he']

/-- What a path reaches stays a file, or stays none. -/
lemma Keeps.isFile (h : Keeps t t') (hp : t.reaches p = true) : t'.isFile p = t.isFile p := by
  obtain ⟨hl, hsome⟩ := reaches_iff.1 hp
  rw [Bool.eq_iff_iff, isFile_iff, isFile_iff]
  simp only [read_eq_ok_iff]
  rcases h.cases p.target with he | ⟨he, he'⟩ | ⟨c, c', he, he'⟩
  · rw [he] at hsome
    cases hsome
  · simp [he, he']
  · exact iff_of_true ⟨c', locate_of_keeps h hl, he'⟩ ⟨c, hl, he⟩

/-- A file is there. -/
lemma isThere_of_isFile (h : t.isFile p = true) : t.isThere p = true := by
  obtain ⟨c, hc⟩ := isFile_iff.1 h
  unfold isThere
  rw [(read_eq_ok_iff.1 hc).2]
  rfl

/-- Of what was there before, a normal path finds the files that it found. -/
lemma Extends.isFile_of_isThere (h : Extends t t') (hproper : t.Proper)
    (hnormal : p.normalize = p) (hthere : t.isThere p = true) : t'.isFile p = t.isFile p := by
  by_cases hroot : p.target = []
  · -- the root is a directory in every tree
    have hnone : ∀ u : Tree, u.isFile p = false := by
      intro u
      rw [← Bool.not_eq_true, isFile_iff]
      rintro ⟨c, hc⟩
      have hat := (read_eq_ok_iff.1 hc).2
      rw [hroot, at?_nil] at hat
      cases hat
    rw [hnone, hnone]
  · have hl := hproper.locate_normalize hroot hthere
    rw [hnormal] at hl
    exact h.keeps.isFile (reaches_iff.2 ⟨hl, hthere⟩)

/-- The normal spelling of a path to a file leads to that file. -/
lemma Proper.isFile_normalize (h : t.Proper) (hp : t.isFile p = true) :
    t.isFile p.normalize = true := by
  obtain ⟨c, hc⟩ := isFile_iff.1 hp
  obtain ⟨-, hat⟩ := read_eq_ok_iff.1 hc
  have hne : p.target ≠ [] := ne_nil_of_at?_ne_directory (by rw [hat]; simp)
  refine isFile_iff.2 ⟨c, read_eq_ok_iff.2 ?_⟩
  rw [Path.target_normalize]
  exact ⟨h.locate_normalize hne (by rw [hat]; rfl), hat⟩

/-- A path that is reached is one to a file exactly if its normal spelling is. -/
lemma Proper.isFile_normalize_of_reaches (h : t.Proper) (hp : t.reaches p = true) :
    t.isFile p.normalize = t.isFile p := by
  obtain ⟨hl, -⟩ := reaches_iff.1 hp
  rw [Bool.eq_iff_iff]
  constructor
  · intro hfile
    obtain ⟨content, hread⟩ := isFile_iff.1 hfile
    have hat := (read_eq_ok_iff.1 hread).2
    rw [Path.target_normalize] at hat
    exact isFile_iff.2 ⟨content, read_eq_ok_iff.2 ⟨hl, hat⟩⟩
  · exact h.isFile_normalize

/-- One more name leads from a directory to what is there. -/
lemma reaches_join_iff (hdir : dir.text ≠ []) (hname : '/' ∉ name) :
    t.reaches (dir.join ⟨name⟩) = true ↔
      t.isDirectory dir = true ∧ t.isThere (dir.join ⟨name⟩) = true := by
  unfold isThere
  rw [reaches_iff, locate_join_iff hdir hname, Path.target_join hdir hname]
  exact ⟨fun h => ⟨h.1.1, h.2⟩, fun h => ⟨⟨h.1, rfl⟩, h.2⟩⟩

/-- What is reached with one more name in a tree that has been added to was reached before, if it was
there. -/
theorem Keeps.reaches_join (hk : Keeps t t') (h : t.reaches dir = true) (hname : '/' ∉ name)
    (hp : t'.reaches (dir.join ⟨name⟩) = true) :
    t.reaches (dir.join ⟨name⟩) = t.isThere (dir.join ⟨name⟩) := by
  have hdir := text_ne_nil_of_reaches h
  rw [Bool.eq_iff_iff, reaches_join_iff hdir hname, and_iff_right_iff_imp]
  intro _
  rw [← hk.isDirectory h]
  exact ((reaches_join_iff hdir hname).1 hp).1

/-! ## The names in a directory -/

/-- The order in which the names in a directory are taken. -/
def nameLe (a b : List Char) : Bool := !List.lex (b.map Char.toNat) (a.map Char.toNat)

/-- Names are ordered by their characters, as these are numbered. -/
lemma nameLe_iff (a b : List Char) :
    nameLe a b = true ↔ List.le (a.map Char.toNat) (b.map Char.toNat) := by
  rw [nameLe, Bool.not_eq_true', ← Bool.not_eq_true, List.lex_eq_true_iff_lt]

/-- No two names stand at one place in the order. -/
lemma eq_of_nameLe {a b : List Char} (hab : nameLe a b = true) (hba : nameLe b a = true) :
    a = b := by
  rw [nameLe_iff] at hab hba
  have hinj : Function.Injective Char.toNat := fun c d h => Char.toNat_inj.1 h
  exact hinj.list_map (List.le_antisymm hab hba)

/-- Sorted names are in order. -/
lemma pairwise_mergeSort_nameLe (l : List (List Char)) :
    (l.mergeSort nameLe).Pairwise fun a b => nameLe a b = true := by
  refine List.pairwise_mergeSort ?_ ?_ l
  · intro a b c hab hbc
    rw [nameLe_iff] at hab hbc ⊢
    exact List.le_trans hab hbc
  · intro a b
    rw [Bool.or_eq_true, nameLe_iff, nameLe_iff]
    exact List.le_total _ _

/-- Sorting names and leaving some of them out can be done in either order. -/
lemma filter_mergeSort_nameLe (p : List Char → Bool) (l : List (List Char)) :
    (l.mergeSort nameLe).filter p = (l.filter p).mergeSort nameLe := by
  have hperm := ((List.mergeSort_perm l nameLe).filter p).trans
    (List.mergeSort_perm (l.filter p) nameLe).symm
  exact hperm.eq_of_pairwise (fun _ _ _ _ => eq_of_nameLe) ((pairwise_mergeSort_nameLe l).filter p)
    (pairwise_mergeSort_nameLe _)

/-- The name of an entry in a directory. -/
def nameIn? (place key : Place) : Option (List Char) :=
  match key.getLast? with
  | some name => if key.dropLast = place then some name else none
  | none => none

/-- The name of an entry is what its place has beyond that of the directory. -/
lemma nameIn?_eq_some_iff {key : Place} :
    nameIn? place key = some name ↔ key = place ++ [name] := by
  unfold nameIn?
  constructor
  · intro h
    split at h
    · next last hlast =>
      obtain ⟨front, rfl⟩ := List.getLast?_eq_some_iff.1 hlast
      rw [List.dropLast_concat] at h
      split at h
      · next hfront => rw [hfront, Option.some.inj h]
      · cases h
    · cases h
  · rintro rfl
    simp

/-- The names in a directory are those of the entries in it, sorted. -/
lemma namesIn_eq (t : Tree) (place : Place) :
    t.namesIn place = (t.entries.keys.filterMap (nameIn? place)).mergeSort nameLe := rfl

/-- A name is in a directory if there is an entry at its place. -/
lemma mem_namesIn_iff : name ∈ t.namesIn place ↔ place ++ [name] ∈ t.entries.keys := by
  rw [namesIn_eq, List.mem_mergeSort, List.mem_filterMap]
  constructor
  · rintro ⟨key, hkey, hname⟩
    rwa [← nameIn?_eq_some_iff.1 hname]
  · intro h
    exact ⟨_, h, nameIn?_eq_some_iff.2 rfl⟩

/-- The names in a directory are names, and something is there by each of them. -/
lemma Proper.mem_namesIn (h : t.Proper) (hname : name ∈ t.namesIn place) :
    IsName name ∧ (t.at? (place ++ [name])).isSome = true := by
  have hsome := (mem_keys_iff (by simp)).1 (mem_namesIn_iff.1 hname)
  exact ⟨(h.entry hsome).1, hsome⟩

/-- The names in a directory are those that were there before, new ones aside. -/
theorem namesIn_of_extends (h : Extends t t') (place : Place) :
    (t'.namesIn place).filter (fun name => (t.at? (place ++ [name])).isSome) = t.namesIn place := by
  obtain ⟨new, hnew⟩ := h.keys
  rw [namesIn_eq, namesIn_eq, filter_mergeSort_nameLe, ← hnew, List.filterMap_append,
    List.filter_append]
  have hold : (t.entries.keys.filterMap (nameIn? place)).filter
      (fun name => (t.at? (place ++ [name])).isSome) = t.entries.keys.filterMap (nameIn? place) := by
    refine List.filter_eq_self.2 ?_
    intro name hname
    obtain ⟨key, hkey, hname⟩ := List.mem_filterMap.1 hname
    rw [nameIn?_eq_some_iff.1 hname] at hkey
    exact (mem_keys_iff (by simp)).1 hkey
  have hadded : (new.filterMap (nameIn? place)).filter
      (fun name => (t.at? (place ++ [name])).isSome) = [] := by
    refine List.filter_eq_nil_iff.2 ?_
    intro name hname hthere
    obtain ⟨key, hkey, hname⟩ := List.mem_filterMap.1 hname
    rw [nameIn?_eq_some_iff.1 hname] at hkey
    -- no key is there twice
    have hdistinct : (t.entries.keys ++ new).Nodup := hnew ▸ t'.entries.distinct
    exact List.disjoint_of_nodup_append hdistinct ((mem_keys_iff (by simp)).2 hthere) hkey
  rw [hold, hadded, List.append_nil]

end StoreBindings.Files.Tree
