import StoreBindings.Proofs.Files.Reading
import StoreBindings.Proofs.Path.Pieces

/-!
# Putting a file into a tree

`put` is how a generated file gets where it belongs: the directories above it are made, and then its
content is written. Everything else in a tree survives it, whether it succeeds or not:

* `keeps_put`, `keepsFile_put` — no directory is lost, and no file but the one that is put.
* `read_put` — what has been put is read.
* `put_of_read` — putting what is there already changes nothing at all.
* `put_put` — of two contents for one file the later one counts.
-/

namespace StoreBindings.Files.Tree

variable {t t' : Tree} {p : Path} {place : Place} {c : ByteArray}

/-- The tree in which the directories above a file have been made. -/
def withParents (t : Tree) (p : Path) : Except Trouble Unit × Tree :=
  match p.parent? with
  | some above => t.makeDirectories above
  | none => (.ok (), t)

/-- Put a content into a file and make the directories above it. The directories stay if the file
cannot be written. -/
def put (t : Tree) (p : Path) (content : ByteArray) : Except Trouble Unit × Tree :=
  match t.withParents p with
  | (.error e, t) => (.error e, t)
  | (.ok _, t) =>
    match t.write p content with
    | .error e => (.error e, t)
    | .ok t => (.ok (), t)

/-! ## Trees that only gain entries -/

/-- Whatever is somewhere stays as it is, and what is new is a directory. -/
def Grows (t t' : Tree) : Prop := ∀ place,
  t'.at? place = t.at? place ∨ t.at? place = none ∧ t'.at? place = some .directory

lemma Grows.refl (t : Tree) : Grows t t := fun _ => .inl rfl

lemma Grows.trans {t'' : Tree} (h : Grows t t') (h' : Grows t' t'') : Grows t t'' := by
  intro place
  rcases h' place with he' | ⟨hn, hd⟩
  · -- the second tree leaves the place alone, so the first decides
    rw [he']
    exact h place
  · rcases h place with he | ⟨-, hd'⟩
    · exact .inr ⟨he ▸ hn, hd⟩
    · rw [hn] at hd'
      cases hd'

/-- What is there stays as the tree grows. -/
lemma Grows.at?_eq {e : Entry} (h : Grows t t') (he : t.at? place = some e) :
    t'.at? place = some e := by
  rcases h place with heq | ⟨hn, -⟩
  · rw [heq, he]
  · rw [he] at hn
    cases hn

/-- In a tree that has grown directories are still directories and files still files. -/
lemma Grows.keeps (h : Grows t t') : Keeps t t' :=
  fun _ => ⟨h.at?_eq, fun c hc => ⟨c, h.at?_eq hc⟩⟩

/-- The files have the contents that they had. -/
lemma Grows.keepsFile (h : Grows t t') (place : Place) : KeepsFile t t' place :=
  fun _ => h.at?_eq

/-- No file is new in a tree that has grown. -/
lemma Grows.keepsFile_back (h : Grows t t') (place : Place) : KeepsFile t' t place := by
  intro c hc
  rcases h place with heq | ⟨-, hd⟩
  · rw [← heq, hc]
  · rw [hc] at hd
    cases hd

/-- What has been inserted is at its place. -/
lemma at?_insert_self (t : Tree) (h : place ≠ []) (e : Entry) :
    (⟨t.entries.insert place e⟩ : Tree).at? place = some e := by
  unfold at?
  rw [if_neg (by simpa using h)]
  exact OrderedMap.get?_insert_self t.entries place e

/-- What is at another place has not changed. -/
lemma at?_insert_of_ne (t : Tree) {place' : Place} (h : place' ≠ place) (e : Entry) :
    (⟨t.entries.insert place e⟩ : Tree).at? place' = t.at? place' := by
  unfold at?
  split
  · rfl
  · exact OrderedMap.get?_insert_of_ne t.entries h e

/-- Only the root is a directory in every tree. -/
lemma ne_nil_of_at?_ne_directory (h : t.at? place ≠ some .directory) : place ≠ [] := by
  rintro rfl
  exact h (at?_nil t)

/-! ## Directories -/

/-- A directory can be made where nothing is, in a directory that is there. -/
lemma makeDirectory_eq_ok_iff : t.makeDirectory p = .ok t' ↔ ∃ place,
    t.locateDirectory p = .ok place ∧ t.at? place = none ∧
      t' = ⟨t.entries.insert place .directory⟩ := by
  unfold makeDirectory
  cases hl : t.locateDirectory p with
  | error e => simp [bind, Except.bind]
  | ok place =>
    cases he : t.at? place with
    | some e => simp [he, bind, Except.bind]
    | none => simp [he, bind, Except.bind, eq_comm]

/-- A tree grows by a directory. -/
lemma grows_makeDirectory (h : t.makeDirectory p = .ok t') : Grows t t' := by
  obtain ⟨place, -, he, rfl⟩ := makeDirectory_eq_ok_iff.1 h
  have hne : place ≠ [] := ne_nil_of_at?_ne_directory (t := t) (by rw [he]; simp)
  intro place'
  by_cases hp : place' = place
  · rw [hp]
    exact .inr ⟨he, at?_insert_self t hne _⟩
  · exact .inl (at?_insert_of_ne t hp _)

/-- What making one directory does is done by making several of them, as often as it takes. -/
lemma makeDirectoriesWithin_induction {R : Tree → Tree → Prop} (refl : ∀ t, R t t)
    (trans : ∀ {t t' t''}, R t t' → R t' t'' → R t t'')
    (step : ∀ {t t' p}, t.makeDirectory p = .ok t' → R t t') (depth : Nat) (t : Tree) (p : Path) :
    R t (makeDirectoriesWithin depth t p).2 := by
  have hensure : ∀ {t t' p}, t.ensureDirectory p = .ok t' → R t t' := by
    intro t t' p h
    unfold ensureDirectory at h
    split at h
    · next hm =>
      cases h
      exact step hm
    · split at h
      · cases h
        exact refl t
      · cases h
  -- the directories above are made on the tree as it is, so the tree varies with the path
  induction depth generalizing t p with
  | zero => exact refl t
  | succ depth ih =>
    unfold makeDirectoriesWithin
    split
    · exact refl t
    · split
      · next he => exact hensure he
      · split
        · exact refl t
        · next above _ =>
          have hup := ih t above
          split
          · next hm => rw [hm] at hup; exact hup
          · next hm =>
            rw [hm] at hup
            split
            · next he => exact trans hup (hensure he)
            · exact hup
      · exact refl t

/-- A tree grows by several directories, even if one of them cannot be made. -/
lemma grows_makeDirectories (t : Tree) (p : Path) : Grows t (t.makeDirectories p).2 :=
  makeDirectoriesWithin_induction Grows.refl Grows.trans grows_makeDirectory _ t p

/-! ## Files -/

/-- A file can be written where its path leads, unless a directory is there. -/
lemma write_eq_ok_iff : t.write p c = .ok t' ↔
    t.locate p = .ok p.target ∧ t.at? p.target ≠ some .directory ∧
      t' = ⟨t.entries.insert p.target (.file c)⟩ := by
  constructor
  · intro h
    unfold write at h
    cases hl : t.locate p with
    | error e => rw [hl] at h; cases h
    | ok place =>
      have ht := eq_target_of_locate hl
      subst ht
      rw [hl] at h
      simp only [bind, Except.bind] at h
      split at h
      · cases h
      · next hd => exact ⟨rfl, hd, (Except.ok.inj h).symm⟩
  · rintro ⟨hl, hd, rfl⟩
    simp only [write, hl, bind, Except.bind]

/-- Writing a file leaves directories and files what they are. -/
lemma keeps_write (h : t.write p c = .ok t') : Keeps t t' := by
  obtain ⟨-, hd, rfl⟩ := write_eq_ok_iff.1 h
  intro place
  by_cases hp : place = p.target
  · subst hp
    exact ⟨fun he => absurd he hd,
      fun _ _ => ⟨c, at?_insert_self t (ne_nil_of_at?_ne_directory hd) _⟩⟩
  · rw [at?_insert_of_ne t hp]
    exact ⟨id, fun c' hc => ⟨c', hc⟩⟩

/-- The contents of all other files stay. -/
lemma keepsFile_write (h : t.write p c = .ok t') (hp : place ≠ p.target) :
    KeepsFile t t' place := by
  obtain ⟨-, -, rfl⟩ := write_eq_ok_iff.1 h
  intro c' hc
  rw [at?_insert_of_ne t hp]
  exact hc

/-- What has been written is read. -/
lemma read_write (h : t.write p c = .ok t') : t'.read p = .ok c := by
  have hk := keeps_write h
  obtain ⟨hl, hd, rfl⟩ := write_eq_ok_iff.1 h
  exact read_eq_ok_iff.2
    ⟨locate_of_keeps hk hl, at?_insert_self t (ne_nil_of_at?_ne_directory hd) _⟩

/-! ## A file and the directories above it -/

/-- Making the directories above a file only adds directories. -/
lemma grows_withParents (t : Tree) (p : Path) : Grows t (t.withParents p).2 := by
  unfold withParents
  split
  · exact grows_makeDirectories t _
  · exact Grows.refl t

/-- Putting a file either writes it, once the directories above it are made, or leaves these. -/
lemma put_cases (t : Tree) (p : Path) (c : ByteArray) :
    ((∃ e, (t.put p c).1 = .error e) ∧ (t.put p c).2 = (t.withParents p).2) ∨
      (t.withParents p).1 = .ok () ∧ (t.put p c).1 = .ok () ∧
        (t.withParents p).2.write p c = .ok (t.put p c).2 := by
  unfold put
  cases t.withParents p with
  | mk made t₁ =>
    cases made with
    | error e => exact .inl ⟨⟨e, rfl⟩, rfl⟩
    | ok u =>
      cases hw : t₁.write p c with
      | error e => exact .inl ⟨⟨e, by simp only [hw]⟩, by simp only [hw]⟩
      | ok t₂ => exact .inr ⟨rfl, by simp only [hw], by simp only [hw]⟩

/-- Putting a file leaves directories and files what they are, even if it fails. -/
theorem keeps_put (t : Tree) (p : Path) (c : ByteArray) : Keeps t (t.put p c).2 := by
  have hg := grows_withParents t p
  rcases put_cases t p c with ⟨-, h⟩ | ⟨-, -, h⟩
  · rw [h]; exact hg.keeps
  · exact hg.keeps.trans (keeps_write h)

/-- The contents of all other files stay, even if it fails. -/
theorem keepsFile_put (t : Tree) (c : ByteArray) (hp : place ≠ p.target) :
    KeepsFile t (t.put p c).2 place := by
  have hg := grows_withParents t p
  rcases put_cases t p c with ⟨-, h⟩ | ⟨-, -, h⟩
  · rw [h]; exact hg.keepsFile place
  · exact (hg.keepsFile place).trans (keepsFile_write h hp)

/-- Putting a file makes no other file. -/
lemma keepsFile_put_back (t : Tree) (c : ByteArray) (hp : place ≠ p.target) :
    KeepsFile (t.put p c).2 t place := by
  have hg := grows_withParents t p
  rcases put_cases t p c with ⟨-, h⟩ | ⟨-, -, h⟩
  · rw [h]; exact hg.keepsFile_back place
  · refine KeepsFile.trans ?_ (hg.keepsFile_back place)
    intro d hd
    obtain ⟨-, -, heq⟩ := write_eq_ok_iff.1 h
    rw [heq, at?_insert_of_ne _ hp] at hd
    exact hd

/-- A file that cannot be put leaves all others, and itself, as they are. -/
lemma keepsFile_put_of_error {e : Trouble} (h : (t.put p c).1 = .error e) (place : Place) :
    KeepsFile t (t.put p c).2 place := by
  rcases put_cases t p c with ⟨-, h'⟩ | ⟨-, h', -⟩
  · rw [h']; exact (grows_withParents t p).keepsFile place
  · rw [h] at h'; cases h'

/-- After that there is no file that was not there before. -/
lemma keepsFile_put_back_of_error {e : Trouble} (h : (t.put p c).1 = .error e)
    (place : Place) : KeepsFile (t.put p c).2 t place := by
  rcases put_cases t p c with ⟨-, h'⟩ | ⟨-, h', -⟩
  · rw [h']; exact (grows_withParents t p).keepsFile_back place
  · rw [h] at h'; cases h'

/-- What has been put is read. -/
theorem read_put (h : (t.put p c).1 = .ok ()) : (t.put p c).2.read p = .ok c := by
  rcases put_cases t p c with ⟨⟨e, he⟩, -⟩ | ⟨-, -, hw⟩
  · rw [h] at he; cases he
  · exact read_write hw

/-- The same of the tree that putting has made. -/
lemma read_of_put (h : t.put p c = (.ok (), t')) : t'.read p = .ok c := by
  have hread := read_put (t := t) (p := p) (c := c) (by rw [h])
  rw [h] at hread
  exact hread

/-- A file can only be put where its path is not blocked, and was not blocked before. -/
lemma isOpen_of_put (hk : Keeps t t') (h : (t'.put p c).1 = .ok ()) : IsOpen t p := by
  rcases put_cases t' p c with ⟨⟨e, he⟩, -⟩ | ⟨-, -, hw⟩
  · rw [h] at he; cases he
  · obtain ⟨hl, hd, -⟩ := write_eq_ok_iff.1 hw
    exact isOpen_of_keeps (hk.trans (grows_withParents t' p).keeps) hl hd

/-! ## Putting what is there -/

/-- A proper beginning of a list of names that lead somewhere leads to a directory. -/
lemma directory_of_follow_append {names rest : List (List Char)} {place' : Place}
    (hrest : rest ≠ []) (h : t.follow place (names ++ rest) = .ok place') :
    ∃ middle, t.follow place names = .ok middle ∧ t.at? middle = some .directory := by
  obtain ⟨middle, hm, hr⟩ := follow_append h
  cases rest with
  | nil => exact absurd rfl hrest
  | cons name rest => exact ⟨middle, hm, directory_of_follow_cons hr⟩

/-- Empty names at the end of a list do not lead further. -/
lemma follow_dropEmpty {names : List (List Char)} {place' : Place}
    (h : t.follow place names = .ok place') :
    t.follow place (names.reverse.dropWhile List.isEmpty).reverse = .ok place' := by
  have hsplit := congrArg List.reverse
    (List.takeWhile_append_dropWhile (p := List.isEmpty) (l := names.reverse))
  rw [List.reverse_reverse, List.reverse_append] at hsplit
  rw [← hsplit] at h
  obtain ⟨middle, hm, hr⟩ := follow_append h
  -- an empty name leads from a directory to itself
  have hstay : ∀ empties : List (List Char), (∀ e ∈ empties, e = []) →
      empties.foldl descend middle = middle := by
    intro empties he
    induction empties with
    | nil => rfl
    | cons e es ih =>
      rw [List.foldl_cons, he e List.mem_cons_self]
      exact ih fun e' h' => he e' (List.mem_cons_of_mem _ h')
  have hend := eq_foldl_of_follow hr
  rw [hstay] at hend
  · rw [hm, hend]
  · intro e he
    have hempty := List.all_eq_true.1 List.all_takeWhile e (List.mem_reverse.1 he)
    exact List.isEmpty_iff.1 hempty

lemma follow_root_nil (t : Tree) (names : List (List Char)) :
    t.follow [] ([] :: names) = t.follow [] names := follow_cons_of_directory (at?_nil t) [] names

/-- Above a file that is read there is a directory, unless the path of the file is a bare name. -/
lemma follow_parent_of_read {above : Path} (h : t.read p = .ok c)
    (hp : p.parent? = some above) :
    above.text = [] ∨ ∃ place, t.follow [] (Path.pieces above.text) = .ok place ∧
      t.at? place = some .directory := by
  have hf := (locate_eq_ok_iff.1 (read_eq_ok_iff.1 h).1).2
  rcases Path.parent?_cases hp with hnil | hroot | ⟨rest, hrest, happ⟩
  · exact .inl hnil
  · refine .inr ⟨[], ?_, at?_nil t⟩
    rw [hroot]
    exact (follow_root_nil t [[]]).trans (follow_root_nil t [])
  · rw [happ] at hf
    exact .inr (directory_of_follow_append hrest hf)

/-- Directories that are there already are made without effect. -/
lemma makeDirectories_of_follow (hf : t.follow [] (Path.pieces p.text) = .ok place)
    (hd : t.at? place = some .directory) : t.makeDirectories p = (.ok (), t) := by
  unfold makeDirectories makeDirectoriesWithin
  split
  · rfl
  · next hne =>
    have hdir : t.locateDirectory p = .ok place := by
      unfold locateDirectory
      rw [if_neg hne]
      exact follow_dropEmpty hf
    -- the directory is there already, which is the one refusal that counts as success
    have hmake : t.makeDirectory p = .error .occupied := by
      simp only [makeDirectory, hdir, hd, bind, Except.bind]
    have hloc : t.locate p = .ok place := by
      unfold locate
      rw [if_neg hne]
      exact hf
    have his : t.isDirectory p = true := by
      simp only [isDirectory, entry, hloc, hd, bind, Except.bind]
    have hensure : t.ensureDirectory p = .ok t := by
      simp only [ensureDirectory, hmake, his, if_true]
    rw [hensure]

/-- Above a file that is there no directory is made. -/
lemma withParents_of_read (h : t.read p = .ok c) : t.withParents p = (.ok (), t) := by
  unfold withParents
  split
  · next above hp =>
    rcases follow_parent_of_read h hp with hnil | ⟨place, hf, hd⟩
    · unfold makeDirectories makeDirectoriesWithin
      rw [if_pos (by rw [hnil]; rfl)]
    · exact makeDirectories_of_follow hf hd
  · rfl

/-- A file that is there is put by writing it alone. -/
lemma put_of_isFile {d : ByteArray} (h : t.read p = .ok d) (c : ByteArray) :
    t.put p c = (.ok (), ⟨t.entries.insert p.target (.file c)⟩) := by
  have hw : t.write p c = .ok ⟨t.entries.insert p.target (.file c)⟩ := by
    obtain ⟨hl, he⟩ := read_eq_ok_iff.1 h
    exact write_eq_ok_iff.2 ⟨hl, by rw [he]; simp, rfl⟩
  simp only [put, withParents_of_read h, hw]

/-- Putting what is there already changes nothing. -/
theorem put_of_read (h : t.read p = .ok c) : t.put p c = (.ok (), t) := by
  obtain ⟨-, he⟩ := read_eq_ok_iff.1 h
  unfold at? at he
  split at he
  · cases he
  · rw [put_of_isFile h, OrderedMap.insert_of_get? he]

/-- Of two contents that are put into one file the later one counts. -/
theorem put_put (h : (t.put p c).1 = .ok ()) (d : ByteArray) :
    (t.put p c).2.put p d = t.put p d := by
  rcases put_cases t p c with ⟨⟨e, he⟩, -⟩ | ⟨hm, -, hw⟩
  · rw [h] at he; cases he
  · rw [put_of_isFile (read_write hw)]
    obtain ⟨hl, hd, heq⟩ := write_eq_ok_iff.1 hw
    have hw' : (t.withParents p).2.write p d =
        .ok ⟨(t.withParents p).2.entries.insert p.target (.file d)⟩ :=
      write_eq_ok_iff.2 ⟨hl, hd, rfl⟩
    rw [heq, OrderedMap.insert_insert]
    unfold put
    -- the second write fails or succeeds as the first did: the directories are made by then
    generalize t.withParents p = parents at hm hw' ⊢
    obtain ⟨made, t₁⟩ := parents
    cases hm
    simp only [hw']

end StoreBindings.Files.Tree
