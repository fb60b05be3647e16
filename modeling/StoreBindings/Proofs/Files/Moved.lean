import StoreBindings.Proofs.Files.Extending
import StoreBindings.Proofs.Files.Shape
import StoreBindings.Proofs.OrderedMap
import StoreBindings.Proofs.Path.Inside
import StoreBindings.Proofs.Steps

/-!
# The same files in two directories

Below two directories there are the same entries, the contents of files aside: `SameBelow`. The
directories can be in different trees and have different names. A relative path that stays inside leads to
a file in both of them or in none (`isFile_join`), to a directory in both or in none (`isDirectory_join`),
and the names in a directory come in the same order (`namesIn`).
-/

namespace StoreBindings.Files.Tree

open StoreBindings.Path (ofPlace insideStep? inside?)

variable {t t' : Tree} {base base' place place' : Place} {names : List (List Char)} {p : Path}

/-- The same entries below a directory of each of two trees, the contents of files aside. -/
structure SameBelow (t : Tree) (base : Place) (t' : Tree) (base' : Place) : Prop where
  proper : t.Proper
  proper' : t'.Proper
  directory : t.at? base = some .directory
  directory' : t'.at? base' = some .directory
  blank : ∀ place,
    (t'.at? (base' ++ place)).map Entry.blank = (t.at? (base ++ place)).map Entry.blank

/-- A path that is joined to a directory is followed from there. -/
lemma Proper.locate_join (h : t.Proper) (hbase : t.at? base = some .directory)
    (hp : p.isAbsolute = false) :
    t.locate ((ofPlace base).join p) = t.follow base (Path.pieces p.text) := by
  have hsome : (t.at? base).isSome = true := by rw [hbase]; rfl
  have hnames := h.isName hsome
  have hdown : t.follow [] base = .ok ([] ++ base) := h.follow hsome hnames
  have hfront : t.follow [] ([] :: base) = .ok base := by
    rw [follow_cons_of_directory (at?_nil t)]
    exact hdown
  have htext : ((ofPlace base).join p).text.isEmpty = false := by
    rw [List.isEmpty_eq_false_iff]
    exact Path.text_ne_nil_of_isAbsolute (Path.isAbsolute_ofPlace_join base p)
  rw [locate, htext, if_neg Bool.false_ne_true, Path.pieces_join_ofPlace hnames hp,
    ← List.cons_append, follow_append_of hfront]

/-- A directory stays one behind a slash at its end. -/
lemma Proper.isDirectory_join_empty (h : t.Proper) (hbase : t.at? base = some .directory) :
    t.isDirectory ((ofPlace base).join ⟨[]⟩) = true := by
  have hnames : ∀ n ∈ base, IsName n := h.isName (by rw [hbase]; rfl)
  have hin : (⟨[]⟩ : Path).inside? = some [] := rfl
  rw [isDirectory_iff, Path.target_join_ofPlace hnames hin, List.append_nil, h.locate_join hbase rfl]
  exact ⟨follow_singleton hbase [], hbase⟩

namespace SameBelow

lemma symm (h : SameBelow t base t' base') : SameBelow t' base' t base :=
  ⟨h.proper', h.proper, h.directory', h.directory, fun place => (h.blank place).symm⟩

/-- Something is at a place in both directories, or in none. -/
lemma isSome_at? (h : SameBelow t base t' base') (place : Place) :
    (t'.at? (base' ++ place)).isSome = (t.at? (base ++ place)).isSome := by
  have hb := congrArg Option.isSome (h.blank place)
  rwa [Option.isSome_map, Option.isSome_map] at hb

/-- A directory that is there is reached by names. -/
lemma isName (h : SameBelow t base t' base') : ∀ n ∈ base, IsName n :=
  h.proper.isName (by rw [h.directory]; rfl)

/-- What is asked of the names of both directories. -/
lemma isName_and (h : SameBelow t base t' base') {P : List Char → Prop}
    (hnames : ∀ n ∈ base ++ base', P n) :
    (∀ n ∈ base, IsName n ∧ P n) ∧ ∀ n ∈ base', IsName n ∧ P n :=
  ⟨fun n hn => ⟨h.isName n hn, hnames n (List.mem_append_left _ hn)⟩,
    fun n hn => ⟨h.symm.isName n hn, hnames n (List.mem_append_right _ hn)⟩⟩

/-- A place is a directory in both, or in none. -/
lemma at?_directory_iff (h : SameBelow t base t' base') (place : Place) :
    t'.at? (base' ++ place) = some .directory ↔ t.at? (base ++ place) = some .directory := by
  have hb := h.blank place
  have hblank : ∀ e : Option Entry, e.map Entry.blank = some .directory ↔ e = some .directory := by
    rintro (_ | _ | _) <;> simp [Entry.blank]
  rw [← hblank, hb, hblank]

/-- Names that stay inside are followed in the one directory as in the other. -/
lemma follow (h : SameBelow t base t' base') (hin : names.foldlM insideStep? place = some place')
    (hf : (t.follow (base ++ place) names).isOk = true) :
    t'.follow (base' ++ place) names = .ok (base' ++ place') := by
  induction names generalizing place with
  | nil =>
    rw [follow_nil, Option.some.inj hin]
  | cons name names ih =>
    rw [List.foldlM_cons] at hin
    obtain ⟨next, hnext, hrest⟩ := Option.bind_eq_some_iff.1 hin
    obtain ⟨found, hfound⟩ := exists_of_isOk hf
    have hd := directory_of_follow_cons hfound
    rw [follow_cons_of_directory hd, Path.descend_append hnext] at hf
    rw [follow_cons_of_directory ((h.at?_directory_iff place).2 hd), Path.descend_append hnext]
    exact ih hrest hf

/-- A path that stays inside leads to its target in both directories, or in none. -/
lemma locate_join_iff (h : SameBelow t base t' base') (hp : p.inside? = some place) :
    t'.locate ((ofPlace base').join p) = .ok (base' ++ place) ↔
      t.locate ((ofPlace base).join p) = .ok (base ++ place) := by
  obtain ⟨hrel, hin⟩ := Path.insideFrom?_eq_some_iff.1 hp
  rw [h.proper.locate_join h.directory hrel, h.proper'.locate_join h.directory' hrel]
  constructor
  · intro hf
    have hback := h.symm.follow hin (by rw [List.append_nil, hf]; rfl)
    rwa [List.append_nil] at hback
  · intro hf
    have hback := h.follow hin (by rw [List.append_nil, hf]; rfl)
    rwa [List.append_nil] at hback

/-- A path that stays inside leads to a directory in both, or in none. -/
theorem isDirectory_join (h : SameBelow t base t' base') (hp : p.inside? = some place) :
    t'.isDirectory ((ofPlace base').join p) = t.isDirectory ((ofPlace base).join p) := by
  rw [Bool.eq_iff_iff, isDirectory_iff, isDirectory_iff, Path.target_join_ofPlace h.isName hp,
    Path.target_join_ofPlace h.symm.isName hp, h.locate_join_iff hp, h.at?_directory_iff]

/-- It leads to anything at all in both, or in none. -/
lemma reaches_join (h : SameBelow t base t' base') (hp : p.inside? = some place) :
    t'.reaches ((ofPlace base').join p) = t.reaches ((ofPlace base).join p) := by
  rw [Bool.eq_iff_iff, reaches_iff, reaches_iff, Path.target_join_ofPlace h.isName hp,
    Path.target_join_ofPlace h.symm.isName hp, h.locate_join_iff hp, h.isSome_at?]

/-- It leads to a file in both, or in none. -/
theorem isFile_join (h : SameBelow t base t' base') (hp : p.inside? = some place) :
    t'.isFile ((ofPlace base').join p) = t.isFile ((ofPlace base).join p) := by
  rw [isFile_eq_reaches, isFile_eq_reaches, h.reaches_join hp, h.isDirectory_join hp]

/-- The names in a directory are the same, and they come in the same order. -/
theorem namesIn (h : SameBelow t base t' base') (place : Place) :
    t'.namesIn (base' ++ place) = t.namesIn (base ++ place) := by
  have hnodup : ∀ (u : Tree) (place : Place), (u.entries.keys.filterMap (nameIn? place)).Nodup := by
    intro u place
    refine u.entries.distinct.filterMap fun key key' name hkey hkey' => ?_
    rw [nameIn?_eq_some_iff.1 hkey, nameIn?_eq_some_iff.1 hkey']
  have hmem : ∀ name, name ∈ t'.namesIn (base' ++ place) ↔ name ∈ t.namesIn (base ++ place) := by
    intro name
    rw [mem_namesIn_iff, mem_namesIn_iff, mem_keys_iff (by simp), mem_keys_iff (by simp),
      List.append_assoc, List.append_assoc, h.isSome_at?]
  have hperm : List.Perm (t'.namesIn (base' ++ place)) (t.namesIn (base ++ place)) := by
    refine (List.perm_ext_iff_of_nodup ?_ ?_).2 hmem
    · exact (List.mergeSort_perm _ nameLe).nodup_iff.2 (hnodup t' _)
    · exact (List.mergeSort_perm _ nameLe).nodup_iff.2 (hnodup t _)
  exact hperm.eq_of_pairwise (fun _ _ _ _ => eq_of_nameLe) (pairwise_mergeSort_nameLe _)
    (pairwise_mergeSort_nameLe _)

end SameBelow

/-! ## Moving a tree -/

/-- The directories on the way to a place, and the place as one. -/
def way (base : Place) : List (Place × Entry) :=
  (List.range base.length).map fun n => (base.take (n + 1), .directory)

/-- The entries of a tree as they are below another directory. -/
def below (t : Tree) (base : Place) : List (Place × Entry) :=
  (t.entries.entries.filter fun e => e.1 ≠ []).map fun e => (base ++ e.1, e.2)

/-- On the way to a directory are the places above it, all of them directories. -/
lemma mem_way {key : Place} {e : Entry} :
    (key, e) ∈ way base ↔ key ≠ [] ∧ key <+: base ∧ e = .directory := by
  unfold way
  rw [List.mem_map]
  constructor
  · rintro ⟨n, hn, heq⟩
    obtain ⟨rfl, rfl⟩ := Prod.mk.inj heq
    rw [List.mem_range] at hn
    refine ⟨?_, List.take_prefix _ _, rfl⟩
    rw [← List.length_pos_iff, List.length_take]
    omega
  · rintro ⟨hne, hway, rfl⟩
    have hpos := List.length_pos_iff.2 hne
    have hle := hway.length_le
    refine ⟨key.length - 1, List.mem_range.2 (by omega), ?_⟩
    rw [Nat.sub_add_cancel hpos, ← List.prefix_iff_eq_take.1 hway]

/-- Below a directory are the entries of the tree, behind its name. -/
lemma mem_below {key : Place} {e : Entry} :
    (key, e) ∈ t.below base ↔ ∃ place, place ≠ [] ∧ key = base ++ place ∧ (place, e) ∈ t.entries.entries := by
  unfold below
  rw [List.mem_map]
  constructor
  · rintro ⟨⟨place, e'⟩, hmem, heq⟩
    obtain ⟨rfl, rfl⟩ := Prod.mk.inj heq
    rw [List.mem_filter, decide_eq_true_eq] at hmem
    exact ⟨place, hmem.2, rfl, hmem.1⟩
  · rintro ⟨place, hne, rfl, hmem⟩
    exact ⟨(place, e), List.mem_filter.2 ⟨hmem, decide_eq_true hne⟩, rfl⟩

/-- No entry of the tree is on the way to the directory. -/
lemma nodup_way_below (t : Tree) (base : Place) : ((way base ++ t.below base).map Prod.fst).Nodup := by
  rw [List.map_append, List.nodup_append]
  refine ⟨?_, ?_, ?_⟩
  · rw [way, List.map_map]
    refine List.nodup_range.map_on fun n hn m hm heq => ?_
    have hlength := congrArg List.length heq
    rw [List.mem_range] at hn hm
    simp only [Function.comp_apply, List.length_take] at hlength
    omega
  · have hkeys : (t.below base).map Prod.fst =
        ((t.entries.entries.filter fun e => e.1 ≠ []).map Prod.fst).map (base ++ ·) := by
      rw [below, List.map_map, List.map_map]
      rfl
    rw [hkeys]
    refine ((List.filter_sublist.map Prod.fst).nodup t.entries.distinct).map fun place place' heq => ?_
    exact List.append_cancel_left heq
  · intro key hkey key' hkey' heq
    obtain ⟨⟨key, e⟩, hmem, rfl⟩ := List.mem_map.1 hkey
    obtain ⟨⟨key', e'⟩, hmem', rfl⟩ := List.mem_map.1 hkey'
    obtain ⟨-, hway, -⟩ := mem_way.1 hmem
    obtain ⟨place, hne, rfl, -⟩ := mem_below.1 hmem'
    -- nothing below is on the way
    have hle := hway.length_le
    dsimp only at heq
    rw [heq, List.length_append] at hle
    have hpos := List.length_pos_iff.2 hne
    omega

/-- The files and directories of a tree in a directory, which is the only one there. -/
def movedInto (t : Tree) (base : Place) : Tree := ⟨⟨way base ++ t.below base, nodup_way_below t base⟩⟩

/-- What is at a place, the root apart, is its entry. -/
lemma at?_eq_some_iff {e : Entry} (hne : place ≠ []) :
    t.at? place = some e ↔ (place, e) ∈ t.entries.entries := by
  unfold at?
  rw [if_neg (by simpa using hne), OrderedMap.get?_eq_some_iff]

/-- The directory that a tree has been moved into is there. -/
lemma at?_movedInto_of_prefix (h : place <+: base) :
    (t.movedInto base).at? place = some .directory := by
  by_cases hne : place = []
  · rw [hne]
    rfl
  · exact (at?_eq_some_iff hne).2 (List.mem_append_left _ (mem_way.2 ⟨hne, h, rfl⟩))

/-- A tree that is moved has the same below the directory. -/
lemma at?_movedInto (t : Tree) (base place : Place) :
    (t.movedInto base).at? (base ++ place) = t.at? place := by
  by_cases hne : place = []
  · rw [hne, List.append_nil, at?_movedInto_of_prefix (List.prefix_refl base), at?_nil]
  · refine Option.ext fun e => ?_
    rw [at?_eq_some_iff (by simp [hne]), at?_eq_some_iff hne]
    show (base ++ place, e) ∈ way base ++ t.below base ↔ _
    rw [List.mem_append, mem_way, mem_below]
    constructor
    · rintro (⟨-, hway, -⟩ | ⟨place', -, heq, hmem⟩)
      · have hle := hway.length_le
        have hpos := List.length_pos_iff.2 hne
        rw [List.length_append] at hle
        omega
      · rwa [List.append_cancel_left heq]
    · exact fun hmem => .inr ⟨place, hne, rfl, hmem⟩

/-- A proper tree is proper in any directory. -/
lemma Proper.movedInto (h : t.Proper) (hbase : ∀ n ∈ base, IsName n) : (t.movedInto base).Proper := by
  intro key hkey name hname
  obtain ⟨⟨key, e⟩, hmem, rfl⟩ := List.mem_map.1 hkey
  rcases List.mem_append.1 hmem with hmem | hmem
  · obtain ⟨-, hway, -⟩ := mem_way.1 hmem
    refine ⟨hbase name (hway.subset (List.mem_of_getLast? hname)), ?_⟩
    exact at?_movedInto_of_prefix ((List.dropLast_prefix key).trans hway)
  · obtain ⟨place, hne, rfl, hentry⟩ := mem_below.1 hmem
    dsimp only at hname ⊢
    rw [List.getLast?_append_of_ne_nil _ hne] at hname
    rw [List.dropLast_append_of_ne_nil hne, at?_movedInto]
    exact h place (List.mem_map_of_mem hentry) name hname

/-- A tree is the same in any directory. -/
lemma sameBelow_movedInto (h : t.Proper) (hbase : ∀ n ∈ base, IsName n)
    (hbase' : ∀ n ∈ base', IsName n) : (t.movedInto base).SameBelow base (t.movedInto base') base' := by
  have hdir : ∀ base : Place, (t.movedInto base).at? base = some .directory := fun base =>
    at?_movedInto_of_prefix (List.prefix_refl base)
  refine ⟨h.movedInto hbase, h.movedInto hbase', hdir base, hdir base', fun place => ?_⟩
  rw [at?_movedInto, at?_movedInto]

end StoreBindings.Files.Tree
