import Mathlib.Data.List.Induction
import Mathlib.Data.List.Nodup
import Mathlib.Data.List.Perm.Subperm
import StoreBindings.Proofs.Files.Putting
import StoreBindings.Proofs.Path.Target

/-!
# Proper trees

In a proper tree everything has a name and lies in a directory: `Proper`. On the way to what is there
are directories, so there is no place deeper than there are entries, and a normal path leads to
whatever is at its target, however the path was spelled before: `Proper.locate_normalize`.
-/

namespace StoreBindings.Files.Tree

variable {t t' : Tree} {p q dir : Path} {place place' : Place} {name : List Char}
  {names more : List (List Char)}

/-! ## Following in two parts -/

lemma follow_append_of (h : t.follow place names = .ok place') (more : List (List Char)) :
    t.follow place (names ++ more) = t.follow place' more := by
  induction names generalizing place with
  | nil =>
    rw [follow_nil] at h
    rw [List.nil_append, Except.ok.inj h]
  | cons name names ih =>
    have hd := directory_of_follow_cons h
    rw [follow_cons_of_directory hd] at h
    rw [List.cons_append, follow_cons_of_directory hd]
    exact ih h

lemma follow_singleton (h : t.at? place = some .directory) (name : List Char) :
    t.follow place [name] = .ok (descend place name) := by
  rw [follow_cons_of_directory h, follow_nil]

lemma isDirectory_iff : t.isDirectory p = true ↔
    t.locate p = .ok p.target ∧ t.at? p.target = some .directory := by
  unfold isDirectory entry
  cases hl : t.locate p with
  | error e => simp [bind, Except.bind]
  | ok place =>
    have hplace := eq_target_of_locate hl
    subst hplace
    simp only [bind, Except.bind, true_and]
    cases he : t.at? p.target with
    | none => simp
    | some e => cases e <;> simp

lemma reaches_iff : t.reaches p = true ↔
    t.locate p = .ok p.target ∧ (t.at? p.target).isSome = true := by
  unfold reaches entry
  cases hl : t.locate p with
  | error e => simp [bind, Except.bind, Except.isOk, Except.toBool]
  | ok place =>
    have hplace := eq_target_of_locate hl
    subst hplace
    simp only [bind, Except.bind, true_and]
    cases he : t.at? p.target with
    | none => simp [Except.isOk, Except.toBool]
    | some e => simp [Except.isOk, Except.toBool]

lemma reaches_of_isDirectory (h : t.isDirectory p = true) : t.reaches p = true := by
  obtain ⟨hl, hd⟩ := isDirectory_iff.1 h
  exact reaches_iff.2 ⟨hl, by rw [hd]; rfl⟩

/-- What a path reaches is a file if it is no directory. -/
lemma isFile_eq_reaches (t : Tree) (p : Path) : t.isFile p = (t.reaches p && !t.isDirectory p) := by
  unfold isFile reaches isDirectory
  cases t.entry p with
  | error e => rfl
  | ok e => cases e <;> rfl

lemma isFile_of_isDirectory (h : t.isDirectory p = true) : t.isFile p = false := by
  rw [isFile_eq_reaches, h, Bool.not_true, Bool.and_false]

lemma text_ne_nil_of_reaches (h : t.reaches p = true) : p.text ≠ [] :=
  (locate_eq_ok_iff.1 (reaches_iff.1 h).1).1

/-- A path with one more name leads somewhere from a directory only, and then one step further. -/
lemma locate_join_iff (hdir : dir.text ≠ []) (hname : '/' ∉ name) :
    t.locate (dir.join ⟨name⟩) = .ok place ↔
      t.isDirectory dir = true ∧ place = descend dir.target name := by
  obtain ⟨ps, hps, hjoin⟩ := Path.exists_pieces_join hdir hname
  have htext : (dir.join ⟨name⟩).text ≠ [] := by
    intro hnil
    rw [hnil, Path.pieces] at hjoin
    have hempty : ps = [] := by
      cases ps with
      | nil => rfl
      | cons p ps => simp at hjoin
    rcases hps with h | h
    · exact Path.pieces_ne_nil _ (h.trans hempty)
    · -- a text that is one empty part is empty
      have hdir' := Path.joined_pieces dir.text
      rw [h, hempty] at hdir'
      exact hdir hdir'.symm
  rw [isDirectory_iff, locate_eq_ok_iff, locate_eq_ok_iff, hjoin]
  constructor
  · rintro ⟨-, hf⟩
    obtain ⟨middle, hm, hlast⟩ := follow_append hf
    have hd := directory_of_follow_cons hlast
    have hwhole : t.follow [] (Path.pieces dir.text) = .ok middle := by
      rcases hps with h | h
      · rw [h, hm]
      · rw [h, follow_append_of hm, follow_singleton hd]
        rfl
    have hmiddle : middle = dir.target := eq_foldl_of_follow hwhole
    subst hmiddle
    rw [follow_singleton hd] at hlast
    exact ⟨⟨⟨hdir, hwhole⟩, hd⟩, (Except.ok.inj hlast).symm⟩
  · rintro ⟨⟨⟨-, hf⟩, hd⟩, rfl⟩
    refine ⟨htext, ?_⟩
    rcases hps with h | h
    · rw [h] at hf
      rw [follow_append_of hf, follow_singleton hd]
    · rw [h] at hf
      obtain ⟨middle, hm, hlast⟩ := follow_append hf
      rw [follow_singleton (directory_of_follow_cons hlast)] at hlast
      have hmiddle : middle = dir.target := Except.ok.inj hlast
      rw [follow_append_of hm, hmiddle, follow_singleton hd]

/-! ## Proper trees -/

/-- Whatever a tree has, it has under a name in a directory. -/
def Proper (t : Tree) : Prop := ∀ key ∈ t.entries.keys, ∀ name ∈ key.getLast?,
  IsName name ∧ t.at? key.dropLast = some .directory

instance (name : List Char) : Decidable (IsName name) :=
  inferInstanceAs (Decidable (_ ∧ _ ∧ _ ∧ _))

instance (t : Tree) (place : Place) : Decidable (t.at? place = some .directory) :=
  match t.at? place with
  | some .directory => .isTrue rfl
  | some (.file _) => .isFalse (by simp)
  | none => .isFalse (by simp)

instance (t : Tree) : Decidable t.Proper := inferInstanceAs (Decidable (∀ key ∈ _, _))

lemma mem_keys_iff (hne : place ≠ []) :
    place ∈ t.entries.keys ↔ (t.at? place).isSome = true := by
  have hat : t.at? place = t.entries.get? place := by
    unfold at?
    rw [if_neg (by simpa using hne)]
  rw [hat]
  constructor
  · intro hmem
    obtain ⟨⟨key, e⟩, he, rfl⟩ := List.mem_map.1 hmem
    exact OrderedMap.isSome_lookup_of_mem he
  · intro hsome
    obtain ⟨e, he⟩ := Option.isSome_iff_exists.1 hsome
    exact List.mem_map.2 ⟨_, OrderedMap.mem_of_lookup he, rfl⟩

lemma Proper.entry (h : t.Proper) (hsome : (t.at? (place ++ [name])).isSome = true) :
    IsName name ∧ t.at? place = some .directory := by
  have hkey := h _ ((mem_keys_iff (by simp)).2 hsome) name (by simp)
  rwa [List.dropLast_concat] at hkey

/-- On the way to what a tree has there are directories. -/
lemma Proper.directory (h : t.Proper) {rest : Place} (hrest : rest ≠ [])
    (hsome : (t.at? (place ++ rest)).isSome = true) : t.at? place = some .directory := by
  induction rest using List.reverseRecOn with
  | nil => exact absurd rfl hrest
  | append_singleton rest name ih =>
    rw [← List.append_assoc] at hsome
    have hd := (h.entry hsome).2
    by_cases hnil : rest = []
    · rw [hnil, List.append_nil] at hd
      exact hd
    · exact ih hnil (by rw [hd]; rfl)

/-- What is in a proper tree is below names. -/
lemma Proper.isName (h : t.Proper) (hsome : (t.at? place).isSome = true) : ∀ n ∈ place, IsName n := by
  induction place using List.reverseRecOn with
  | nil => simp
  | append_singleton place name ih =>
    obtain ⟨hname, hd⟩ := h.entry hsome
    exact List.forall_mem_append.2 ⟨ih (by rw [hd]; rfl), by simpa using hname⟩

lemma Proper.isSome_of_prefix (h : t.Proper) (hp : place <+: place')
    (hsome : (t.at? place').isSome = true) : (t.at? place).isSome = true := by
  obtain ⟨rest, rfl⟩ := hp
  by_cases hnil : rest = []
  · rwa [hnil, List.append_nil] at hsome
  · rw [h.directory hnil hsome]
    rfl

/-- No place is deeper than there are entries: there is one for each step on the way. -/
lemma Proper.length_le (h : t.Proper) (hsome : (t.at? place).isSome = true) :
    place.length ≤ t.entries.size := by
  -- every place on the way is an entry of its own, and the tree has no more of them than it has
  -- entries
  let ways := (List.range place.length).map fun n => place.take (n + 1)
  have hways : ways.Nodup := by
    refine List.nodup_range.map_on ?_
    intro n hn m hm heq
    have hlength := congrArg List.length heq
    rw [List.mem_range] at hn hm
    rw [List.length_take, List.length_take] at hlength
    omega
  have hsub : ways ⊆ t.entries.keys := by
    intro way hway
    obtain ⟨n, hn, rfl⟩ := List.mem_map.1 hway
    rw [List.mem_range] at hn
    have hne : place.take (n + 1) ≠ [] := by
      rw [← List.length_pos_iff, List.length_take]
      omega
    exact (mem_keys_iff hne).2 (h.isSome_of_prefix (List.take_prefix _ _) hsome)
  have hle := (hways.subperm hsub).length_le
  rw [List.length_map, List.length_range] at hle
  simpa [OrderedMap.keys, OrderedMap.size] using hle

/-- Going up from what is there leads to a directory, unless it is the root. -/
lemma Proper.dropLast (h : t.Proper) (hd : t.at? place = some .directory) :
    t.at? place.dropLast = some .directory := by
  cases place using List.reverseRecOn with
  | nil => rfl
  | append_singleton place name =>
    rw [List.dropLast_concat]
    exact (h.entry (by rw [hd]; rfl)).2

/-- Where a name leads to from a directory there is a directory, or the name is that of an entry. -/
lemma Proper.descend_cases (h : t.Proper) (hd : t.at? place = some .directory)
    (name : List Char) : t.at? (descend place name) = some .directory ∨
      descend place name = place ++ [name] ∧ name ≠ [] ∧ name ≠ ['.'] ∧ name ≠ ['.', '.'] := by
  unfold descend
  split
  · exact .inl hd
  · next hstay =>
    rw [not_or] at hstay
    split
    · exact .inl (h.dropLast hd)
    · next hup => exact .inr ⟨rfl, hstay.1, hstay.2, hup⟩

/-- A path that leads to anything but a directory leads to a name in a directory. -/
lemma Proper.exists_parent (h : t.Proper) (hf : t.follow place names = .ok place')
    (hslash : ∀ n ∈ names, '/' ∉ n) (hd : t.at? place = some .directory)
    (hnot : t.at? place' ≠ some .directory) :
    ∃ front name, place' = front ++ [name] ∧ IsName name ∧ t.at? front = some .directory := by
  induction names generalizing place with
  | nil =>
    rw [follow_nil] at hf
    rw [← Except.ok.inj hf] at hnot
    exact absurd hd hnot
  | cons name names ih =>
    rw [follow_cons_of_directory hd] at hf
    have hslash' : ∀ n ∈ names, '/' ∉ n := fun n hn => hslash n (List.mem_cons_of_mem _ hn)
    -- a step that leads to no directory goes down by a name, and nothing can be followed from there
    rcases h.descend_cases hd name with hd' | ⟨hdown, hnil, hdot, hup⟩
    · exact ih hf hslash' hd'
    · cases names with
      | nil =>
        rw [follow_nil, hdown] at hf
        exact ⟨place, name, (Except.ok.inj hf).symm,
          ⟨hnil, hdot, hup, hslash name List.mem_cons_self⟩, hd⟩
      | cons next names => exact ih hf hslash' (directory_of_follow_cons hf)

/-- Names lead to what is there. -/
lemma Proper.follow (h : t.Proper) (hsome : (t.at? (place ++ names)).isSome = true)
    (hnames : ∀ n ∈ names, IsName n) : t.follow place names = .ok (place ++ names) := by
  induction names generalizing place with
  | nil => simp
  | cons name names ih =>
    have hd : t.at? place = some .directory := h.directory (by simp) hsome
    have hassoc : place ++ name :: names = (place ++ [name]) ++ names := by simp
    rw [follow_cons_of_directory hd, Path.descend_of_isName (hnames name List.mem_cons_self), hassoc]
    exact ih (hassoc ▸ hsome) fun n hn => hnames n (List.mem_cons_of_mem _ hn)

/-- A normal path leads to what is at its target. -/
theorem Proper.locate_normalize (h : t.Proper) (hne : p.target ≠ [])
    (hsome : (t.at? p.target).isSome = true) : t.locate p.normalize = .ok p.target := by
  obtain ⟨ups, hups, hnames, hpieces⟩ := Path.exists_pieces_normalize p
  have hstay : t.follow [] ups = .ok [] := by
    clear hpieces
    induction ups with
    | nil => rfl
    | cons q ups ih =>
      have hq : descend [] q = [] := by
        rcases hups q List.mem_cons_self with rfl | rfl <;> rfl
      rw [follow_cons_of_directory (at?_nil t), hq]
      exact ih fun r hr => hups r (List.mem_cons_of_mem _ hr)
  refine locate_eq_ok_iff.2 ⟨?_, ?_⟩
  · intro hnil
    -- a path without a text has one part, which is empty and so no name
    rw [hnil, Path.pieces] at hpieces
    obtain ⟨front, name, hfront⟩ := (List.eq_nil_or_concat' p.target).resolve_left hne
    rw [hfront, ← List.append_assoc] at hpieces
    have hempty : name = [] := by
      have hlast := congrArg List.getLast? hpieces
      simpa using hlast.symm
    exact (hnames name (by rw [hfront]; simp)).1 hempty
  · have hdown : t.follow [] p.target = .ok ([] ++ p.target) := h.follow hsome hnames
    rw [hpieces, follow_append_of hstay, hdown, List.nil_append]

/-- The normal spelling of a place at which there is something leads there. -/
lemma Proper.locate_ofPlace (h : t.Proper) (hnames : ∀ n ∈ place, IsName n)
    (hsome : (t.at? place).isSome = true) : t.locate (Path.ofPlace place) = .ok place := by
  by_cases hne : place = []
  · rw [hne]
    rfl
  · have hf : t.follow [] place = .ok ([] ++ place) :=
      h.follow (by rw [List.nil_append, hsome]) hnames
    refine locate_eq_ok_iff.2 ⟨Path.text_ofPlace_ne_nil place, ?_⟩
    rw [Path.pieces_ofPlace hne hnames, follow_cons_of_directory (at?_nil t)]
    exact hf

/-- The normal spelling of the place of a directory is a path to it. -/
lemma Proper.isDirectory_ofPlace (h : t.Proper) (hnames : ∀ n ∈ place, IsName n)
    (hd : t.at? place = some .directory) : t.isDirectory (Path.ofPlace place) = true := by
  rw [isDirectory_iff, Path.target_ofPlace hnames]
  exact ⟨h.locate_ofPlace hnames (by rw [hd]; rfl), hd⟩

lemma Proper.reaches_ofPlace (h : t.Proper) (hnames : ∀ n ∈ place, IsName n)
    (hsome : (t.at? place).isSome = true) : t.reaches (Path.ofPlace place) = true := by
  rw [reaches_iff, Path.target_ofPlace hnames]
  exact ⟨h.locate_ofPlace hnames hsome, hsome⟩

end StoreBindings.Files.Tree
