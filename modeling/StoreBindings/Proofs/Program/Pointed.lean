import StoreBindings.Proofs.Glob.Points
import StoreBindings.Proofs.Program.Listing

/-!
# Entries with a point in front

An entry of the compiler configuration can be written with `./` in front. Where it names a file, the path
is brought to its normal form, and where it includes files, they are looked for part by part: the point
makes no difference in both. But an entry for what is left out is compared with the text of normal paths,
and with the point it leaves out nothing. So the files that are listed are the same exactly if no file is
left out by an entry that is written with a point: `listed_pointed_iff`.
-/

namespace StoreBindings

/-! ## A point behind a directory -/

namespace Files.Tree

variable {t : Tree}

/-- Only in a directory it makes a difference which names are followed. -/
lemma follow_cons_congr {place : Place} {name name' : List Char} {names names' : List (List Char)}
    (h : t.at? place = some .directory →
      t.follow (descend place name) names = t.follow (descend place name') names') :
    t.follow place (name :: names) = t.follow place (name' :: names') := by
  cases he : t.at? place with
  | none => rw [follow_cons_of_none he, follow_cons_of_none he]
  | some e =>
    cases e with
    | file c => rw [follow_cons_of_file he, follow_cons_of_file he]
    | directory => rw [follow_cons_of_directory he, follow_cons_of_directory he, h he]

lemma follow_pointed {more : List (List Char)} (hmore : more ≠ []) (place : Place)
    (names : List (List Char)) :
    t.follow place (names ++ ['.'] :: more) = t.follow place (names ++ more) := by
  induction names generalizing place with
  | nil =>
    -- the point leads to the directory itself
    obtain ⟨name, rest, rfl⟩ := List.exists_cons_of_ne_nil hmore
    exact follow_cons_congr fun hd => follow_cons_of_directory hd name rest
  | cons name names ih => exact follow_cons_congr fun _ => ih _

/-- A point behind a slash leads where the path leads without it. -/
lemma isDirectory_pointed (t : Tree) (cs ds : List Char) :
    t.isDirectory ⟨cs ++ '/' :: '.' :: '/' :: ds⟩ = t.isDirectory ⟨cs ++ '/' :: ds⟩ := by
  have hpoint : Path.pieces ('.' :: '/' :: ds) = ['.'] :: Path.pieces ds :=
    Path.pieces_append_slash ['.'] ds
  have hlocate : t.locate ⟨cs ++ '/' :: '.' :: '/' :: ds⟩ = t.locate ⟨cs ++ '/' :: ds⟩ := by
    unfold locate
    rw [if_neg (by simp), if_neg (by simp)]
    dsimp only
    rw [Path.pieces_append_slash, Path.pieces_append_slash, hpoint,
      follow_pointed (Path.pieces_ne_nil ds)]
  unfold isDirectory entry
  rw [hlocate]

end Files.Tree

namespace Path

variable {dir : Path} {cs : List Char}

/-- The text in front of all that is in a directory, up to its last slash. -/
structure Leads (dir : Path) (cs : List Char) : Prop where
  lead : dir.lead = cs ++ ['/']
  start : cs = [] ∨ cs.head? = some '/'
  last : (pieces cs).getLast? ≠ some ['*', '*']

/-- What is in a directory that is in another one has the text of the latter in front. -/
lemma lead_slash (cs ds : List Char) :
    (⟨cs ++ '/' :: ds⟩ : Path).lead = cs ++ '/' :: (⟨ds⟩ : Path).lead := by
  rw [lead_eq, lead_eq]
  cases ds with
  | nil => simp
  | cons d ds =>
    have hlast : (cs ++ '/' :: d :: ds).getLast? = (d :: ds).getLast? := by
      rw [List.getLast?_append_of_ne_nil _ (by simp), List.getLast?_cons_cons]
    dsimp only
    rw [hlast]
    simp only [List.append_eq_nil_iff, reduceCtorEq, and_false, false_or]
    split <;> simp

lemma exists_leads (habs : dir.isAbsolute = true) (hname : dir.fileName? ≠ some ['*', '*']) :
    ∃ cs, Leads dir cs := by
  have htext := text_ne_nil_of_isAbsolute habs
  obtain ⟨cs, hcs⟩ := List.getLast?_eq_some_iff.1 (getLast?_lead htext)
  have hlead : (dir.join ⟨[]⟩).isAbsolute = true := isAbsolute_join_of_isAbsolute habs _
  have hjoin : dir.join ⟨[]⟩ = ⟨cs ++ ['/']⟩ := congrArg Path.mk hcs
  refine ⟨cs, hcs, ?_, fun hlast => hname ?_⟩
  · cases cs with
    | nil => exact .inl rfl
    | cons c cs =>
      rw [hjoin, isAbsolute, List.cons_append, List.head?_cons, beq_iff_eq] at hlead
      exact .inr hlead
  · -- the last part before the slash is the name of the directory
    obtain ⟨front, hfront⟩ := List.getLast?_eq_some_iff.1 hlast
    have hsteps : (⟨[]⟩ : Path).steps = [] := rfl
    have hcomponents := components_join habs (p := ⟨[]⟩) rfl
    have hparts : (pieces (cs ++ ['/'])).filterMap Component.ofPiece? =
        front.filterMap Component.ofPiece? ++ [.name ['*', '*']] := by
      rw [pieces_append_slash, hfront]
      simp [pieces, Component.ofPiece?]
    rw [hsteps, List.append_nil, components_of_isAbsolute hlead, hjoin, steps, hparts,
      ← List.cons_append] at hcomponents
    unfold fileName?
    rw [← hcomponents, List.getLast?_concat]

end Path

namespace Config

open Files (Tree)
open Glob (describesText)

variable {t : Tree} {dir p : Path} {cs : List Char} {entry : String}

namespace Compiler

/-- The pattern of an entry, and the one that it has with a point in front. -/
lemma exists_expand_pointed (t : Tree) (hdir : dir.Leads cs)
    (hrel : (Path.ofString entry).isAbsolute = false) :
    ∃ ds, (cs = [] → ds ≠ []) ∧ expand t dir entry = cs ++ '/' :: ds ∧
      expand t dir ("./" ++ entry) = cs ++ '/' :: '.' :: '/' :: ds := by
  have hpointed : ("./" ++ entry).toList = '.' :: '/' :: entry.toList := String.toList_append
  have hwhole : dir.joinText entry = ⟨cs ++ '/' :: entry.toList⟩ := by
    have htext := Path.text_join dir hrel
    rw [hdir.lead, List.append_assoc] at htext
    exact congrArg Path.mk htext
  have hwhole' : dir.joinText ("./" ++ entry) = ⟨cs ++ '/' :: '.' :: '/' :: entry.toList⟩ := by
    have htext := Path.text_join (p := ⟨'.' :: '/' :: entry.toList⟩) dir rfl
    rw [hdir.lead, List.append_assoc] at htext
    rw [Path.joinText, Path.ofString, hpointed]
    exact congrArg Path.mk htext
  have hplain : (("./" ++ entry).toList.any fun c => c == '*' || c == '?' || c == '[') =
      entry.toList.any fun c => c == '*' || c == '?' || c == '[' := by
    rw [hpointed]
    rfl
  unfold expand
  dsimp only
  rw [hplain, hwhole, hwhole', Tree.isDirectory_pointed]
  split
  · refine ⟨(⟨entry.toList⟩ : Path).lead ++ "**/*".toList, by simp, ?_, ?_⟩
    · rw [text_everything, Path.lead_slash, List.append_assoc, List.cons_append]
    · have hlead := Path.lead_slash (cs ++ ['/', '.']) entry.toList
      rw [List.append_assoc, List.append_assoc] at hlead
      rw [text_everything]
      exact (congrArg (· ++ "**/*".toList) hlead).trans (by simp)
  · next hnot =>
    refine ⟨entry.toList, ?_, rfl, rfl⟩
    -- the root is a directory
    rintro rfl hempty
    rw [hempty] at hnot
    exact hnot rfl

lemma finds?_pointed (hu : t.Proper) (hdir : dir.Leads cs)
    (hrel : (Path.ofString entry).isAbsolute = false) :
    finds? t dir ("./" ++ entry) = finds? t dir entry := by
  obtain ⟨ds, hne, hplain, hpointed⟩ := exists_expand_pointed t hdir hrel
  unfold finds?
  rw [hplain, hpointed, Glob.find?_pointed hu hdir.start hdir.last hne]

lemma isSome_compile?_expand_pointed (t : Tree) (hdir : dir.Leads cs)
    (hrel : (Path.ofString entry).isAbsolute = false) :
    (Glob.compile? (expand t dir ("./" ++ entry))).isSome =
      (Glob.compile? (expand t dir entry)).isSome := by
  obtain ⟨ds, -, hplain, hpointed⟩ := exists_expand_pointed t hdir hrel
  rw [hplain, hpointed, Glob.isSome_compile?_pointed]

lemma exists_forall₂_of_finds? (hdir : dir.Leads cs)
    (hrel : (Path.ofString entry).isAbsolute = false) (h : (finds? t dir entry).isSome = true) :
    ∃ ps, List.Forall₂ Glob.SpellsPart (Path.pieces cs) ps := by
  obtain ⟨ds, hne, hplain, -⟩ := exists_expand_pointed t hdir hrel
  rw [finds?, Option.isSome_map, hplain] at h
  exact Glob.exists_forall₂_of_find? hdir.start hne h

/-- With a point in front an entry describes no normal path, if the directory is read as a pattern. -/
lemma describesText_pointed (t : Tree) (hdir : dir.Leads cs) {ps : List Glob.Pattern}
    (hps : List.Forall₂ Glob.SpellsPart (Path.pieces cs) ps)
    (hrel : (Path.ofString entry).isAbsolute = false) (hp : p.normalize = p) :
    describesText (expand t dir ("./" ++ entry)) p = false := by
  obtain ⟨ds, -, -, hpointed⟩ := exists_expand_pointed t hdir hrel
  rw [hpointed, describesText]
  cases hx : Glob.compile? (cs ++ '/' :: '.' :: '/' :: ds) with
  | none => rfl
  | some x =>
    rw [Option.any_some, ← hp]
    exact Glob.not_matchesText_pointed hps hdir.last hx p

lemma normalize_pointed (habs : dir.isAbsolute = true)
    (hrel : (Path.ofString entry).isAbsolute = false) :
    (dir.joinText ("./" ++ entry)).normalize = (dir.joinText entry).normalize := by
  have hof : Path.ofString ("./" ++ entry) = ⟨'.' :: '/' :: entry.toList⟩ :=
    congrArg Path.mk String.toList_append
  have hsteps : (⟨'.' :: '/' :: entry.toList⟩ : Path).steps = (Path.ofString entry).steps := by
    have hpieces : Path.pieces ('.' :: '/' :: entry.toList) = ['.'] :: Path.pieces entry.toList :=
      Path.pieces_append_slash ['.'] entry.toList
    rw [Path.steps, hpieces]
    rfl
  refine Path.normalize_congr_components ?_
  unfold Path.joinText
  rw [hof, Path.components_join habs rfl, hsteps, Path.components_join habs hrel]

end Compiler

/-! ## Entries that are written with a point -/

/-- An entry of a list, and whether it is written with a point in front. -/
structure Entry where
  text : String
  pointed : Bool

/-- How an entry is written. -/
def Entry.written (e : Entry) : String := if e.pointed then "./" ++ e.text else e.text

/-- The entries of a compiler configuration. -/
structure Entries where
  files : Option (List Entry)
  includes : Option (List Entry)
  excludes : Option (List Entry)

namespace Entries

/-- The entries that are included: everything, if nothing is said. -/
def included (es : Entries) : List Entry := es.includes.getD [⟨"**/*", false⟩]

/-- The configuration in which the entries are spelled in one way or another. -/
def spelled (es : Entries) (file : Path) (spell : Entry → String) : Compiler :=
  ⟨file, es.files.map (List.map spell), es.includes.map (List.map spell),
    es.excludes.map (List.map spell)⟩

/-- The configuration without the points. -/
def plain (es : Entries) (file : Path) : Compiler := es.spelled file Entry.text

/-- The configuration as it is written. -/
def written (es : Entries) (file : Path) : Compiler := es.spelled file Entry.written

/-- No entry is a path from the root on. -/
structure AreRelative (es : Entries) : Prop where
  files : ∀ e ∈ es.files.getD [], (Path.ofString e.text).isAbsolute = false
  includes : ∀ e ∈ es.includes.getD [], (Path.ofString e.text).isAbsolute = false
  excludes : ∀ e ∈ es.excludes.getD [], (Path.ofString e.text).isAbsolute = false

/-- An entry that is written with a point describes a path as a whole without that point. -/
def LeavesOut (es : Entries) (t : Tree) (dir p : Path) : Prop :=
  ∃ e ∈ es.excludes.getD [], e.pointed = true ∧
    describesText (Compiler.expand t dir e.text) p = true

variable {es : Entries} {file : Path}

lemma getD_map (o : Option (List Entry)) (spell : Entry → String) (d : List Entry) :
    (o.map (List.map spell)).getD (d.map spell) = (o.getD d).map spell := by
  cases o <;> rfl

lemma files_spelled (es : Entries) (file : Path) (spell : Entry → String) :
    (es.spelled file spell).files.getD [] = (es.files.getD []).map spell := getD_map _ spell []

lemma excludes_spelled (es : Entries) (file : Path) (spell : Entry → String) :
    (es.spelled file spell).excludes.getD [] = (es.excludes.getD []).map spell := getD_map _ spell []

lemma includes_spelled (es : Entries) (file : Path) {spell : Entry → String}
    (h : spell ⟨"**/*", false⟩ = "**/*") :
    (es.spelled file spell).includes.getD ["**/*"] = es.included.map spell := by
  have hmap := getD_map es.includes spell [⟨"**/*", false⟩]
  rw [List.map_singleton, h] at hmap
  exact hmap

lemma looksAtPatterns_written_iff :
    (es.written file).LooksAtPatterns ↔ (es.plain file).LooksAtPatterns := by
  simp [Compiler.LooksAtPatterns, written, plain, spelled]

lemma AreRelative.included (h : es.AreRelative) :
    ∀ e ∈ es.included, (Path.ofString e.text).isAbsolute = false := by
  intro e he
  unfold Entries.included at he
  cases hes : es.includes with
  | none =>
    rw [hes, Option.getD_none, List.mem_singleton] at he
    rw [he]
    decide
  | some includes =>
    rw [hes] at he
    exact h.includes e (by rw [hes]; exact he)

/-- An entry finds what it finds without the point, and is a pattern if it is one without the point. -/
lemma finds?_written (hu : t.Proper) (hdir : dir.Leads cs) {e : Entry}
    (hrel : (Path.ofString e.text).isAbsolute = false) :
    Compiler.finds? t dir e.written = Compiler.finds? t dir e.text := by
  unfold Entry.written
  split
  · exact Compiler.finds?_pointed hu hdir hrel
  · rfl

lemma isSome_compile?_written (t : Tree) (hdir : dir.Leads cs) {e : Entry}
    (hrel : (Path.ofString e.text).isAbsolute = false) :
    (Glob.compile? (Compiler.expand t dir e.written)).isSome =
      (Glob.compile? (Compiler.expand t dir e.text)).isSome := by
  unfold Entry.written
  split
  · exact Compiler.isSome_compile?_expand_pointed t hdir hrel
  · rfl

/-- An entry leaves out what it leaves out without the point, if it is written without. -/
lemma describesText_written_iff (hdir : dir.Leads cs) {ps : List Glob.Pattern}
    (hps : List.Forall₂ Glob.SpellsPart (Path.pieces cs) ps) {e : Entry}
    (hrel : (Path.ofString e.text).isAbsolute = false) (hp : p.normalize = p) :
    describesText (Compiler.expand t dir e.written) p = true ↔
      e.pointed = false ∧ describesText (Compiler.expand t dir e.text) p = true := by
  unfold Entry.written
  cases e.pointed with
  | true => simp [Compiler.describesText_pointed t hdir hps hrel hp]
  | false => simp

lemma isNamed_written_iff (hdir : (es.plain file).directory.isAbsolute = true)
    (hrel : es.AreRelative) :
    Compiler.IsNamed t (es.written file) p ↔ Compiler.IsNamed t (es.plain file) p := by
  have hnormal : ∀ e ∈ es.files.getD [], ((es.plain file).directory.joinText e.written).normalize =
      ((es.plain file).directory.joinText e.text).normalize := by
    intro e he
    unfold Entry.written
    split
    · exact Compiler.normalize_pointed hdir (hrel.files e he)
    · rfl
  refine and_congr_right fun _ => ?_
  rw [written, plain, files_spelled, files_spelled]
  simp only [List.mem_map, exists_exists_and_eq_and]
  exact exists_congr fun e => and_congr_right fun he => Eq.congr_left (hnormal e he)

lemma exists_exclusions_written_iff (hdir : (es.plain file).directory.Leads cs)
    (hrel : es.AreRelative) : (∃ xs, Compiler.exclusions t (es.written file) = .ok xs) ↔
      ∃ xs, Compiler.exclusions t (es.plain file) = .ok xs := by
  rw [Compiler.exists_exclusions_iff, Compiler.exists_exclusions_iff, written, plain,
    excludes_spelled, excludes_spelled, List.forall_mem_map, List.forall_mem_map]
  refine forall₂_congr fun e he => ?_
  exact iff_of_eq (congrArg (· = true) (isSome_compile?_written t hdir (hrel.excludes e he)))

/-- The entries that are included find the same with the points as without them. -/
lemma map_finds?_written (hu : t.Proper) (hdir : dir.Leads cs) (hrel : es.AreRelative) :
    ((es.written file).includes.getD ["**/*"]).map (Compiler.finds? t dir) =
      ((es.plain file).includes.getD ["**/*"]).map (Compiler.finds? t dir) := by
  rw [written, plain, includes_spelled es file (by rfl), includes_spelled es file (by rfl),
    List.map_map, List.map_map]
  exact List.map_congr_left fun e he => finds?_written hu hdir (hrel.included e he)

/-- A path that an entry finds is normal, and the directory has been read as a pattern for it. -/
lemma exists_forall₂_of_mem (hdir : (es.plain file).directory.Leads cs) (hrel : es.AreRelative)
    {entry : String} (hentry : entry ∈ (es.plain file).includes.getD ["**/*"]) {found : List Path}
    (h : Compiler.finds? t (es.plain file).directory entry = some found) (hp : p ∈ found) :
    p.normalize = p ∧ ∃ ps, List.Forall₂ Glob.SpellsPart (Path.pieces cs) ps := by
  constructor
  · obtain ⟨all, -, rfl⟩ := Option.map_eq_some_iff.1 h
    obtain ⟨r, -, rfl⟩ := List.mem_map.1 hp
    exact Path.normalize_normalize r
  · rw [plain, includes_spelled es file (by rfl)] at hentry
    obtain ⟨e, he, rfl⟩ := List.mem_map.1 hentry
    exact Compiler.exists_forall₂_of_finds? hdir (hrel.included e he) (by rw [h]; rfl)

/-- What is found without the points is what is found with them and left out by none of the entries. -/
lemma isFound_plain_iff (hu : t.Proper) (hdir : (es.plain file).directory.Leads cs)
    (hrel : es.AreRelative) : Compiler.IsFound t (es.plain file) p ↔
      Compiler.IsFound t (es.written file) p ∧ ¬es.LeavesOut t (es.plain file).directory p := by
  have hdirs : (es.written file).directory = (es.plain file).directory := rfl
  -- an include finds the same with a point as without it
  have hfinds : (∃ entry ∈ (es.written file).includes.getD ["**/*"], ∃ found,
        Compiler.finds? t (es.plain file).directory entry = some found ∧ p ∈ found) ↔
      ∃ entry ∈ (es.plain file).includes.getD ["**/*"], ∃ found,
        Compiler.finds? t (es.plain file).directory entry = some found ∧ p ∈ found := by
    have hmem : ∀ l : List String, (∃ entry ∈ l, ∃ found,
          Compiler.finds? t (es.plain file).directory entry = some found ∧ p ∈ found) ↔
        ∃ o ∈ l.map (Compiler.finds? t (es.plain file).directory), ∃ found, o = some found ∧
          p ∈ found := fun l => by simp only [List.mem_map, exists_exists_and_eq_and]
    rw [hmem, hmem, map_finds?_written hu hdir hrel]
  rw [Compiler.isFound_iff, Compiler.isFound_iff, hdirs, looksAtPatterns_written_iff,
    exists_exclusions_written_iff hdir hrel, hfinds, written, plain, excludes_spelled,
    excludes_spelled, List.forall_mem_map, List.forall_mem_map, ← plain]
  constructor
  · rintro ⟨hlooked, hxs, ⟨entry, hentry, found, hfound, hp⟩, hcandidate, hkept⟩
    obtain ⟨hnormal, ps, hps⟩ := exists_forall₂_of_mem hdir hrel hentry hfound hp
    refine ⟨⟨hlooked, hxs, ⟨entry, hentry, found, hfound, hp⟩, hcandidate, fun e he => ?_⟩, ?_⟩
    · rw [← Bool.not_eq_true, describesText_written_iff hdir hps (hrel.excludes e he) hnormal,
        hkept e he]
      simp
    · rintro ⟨e, he, -, hdescribed⟩
      rw [hkept e he] at hdescribed
      cases hdescribed
  · rintro ⟨⟨hlooked, hxs, ⟨entry, hentry, found, hfound, hp⟩, hcandidate, hkept⟩, hnot⟩
    obtain ⟨hnormal, ps, hps⟩ := exists_forall₂_of_mem hdir hrel hentry hfound hp
    refine ⟨hlooked, hxs, ⟨entry, hentry, found, hfound, hp⟩, hcandidate, fun e he => ?_⟩
    rw [← Bool.not_eq_true]
    intro hdescribed
    cases hpointed : e.pointed with
    | true => exact hnot ⟨e, he, hpointed, hdescribed⟩
    | false =>
      have hwritten := (describesText_written_iff hdir hps (hrel.excludes e he) hnormal).2
        ⟨hpointed, hdescribed⟩
      rw [hkept e he] at hwritten
      cases hwritten

/-- Whether there is a point in front of some entries makes no difference to whether files can be listed.
Those that are listed without the points are listed with them, and the others are those that only entries
with a point would leave out: so the same files are listed if and only if there are none of these. -/
theorem listed_pointed_iff (hu : t.Proper) (hdir : (es.plain file).directory.isAbsolute = true)
    (hname : (es.plain file).directory.fileName? ≠ some "**".toList) (hrel : es.AreRelative) :
    ((∃ listed, (es.written file).fileList t = .ok listed) ↔
      ∃ listed, (es.plain file).fileList t = .ok listed) ∧
    ∀ listed listed', (es.plain file).fileList t = .ok listed →
      (es.written file).fileList t = .ok listed' →
      (∀ p, p ∈ listed ↔ p ∈ listed' ∧ (Compiler.IsNamed t (es.plain file) p ∨
        ¬es.LeavesOut t (es.plain file).directory p)) ∧
      ((∀ p, p ∈ listed' ↔ p ∈ listed) ↔ ∀ p ∈ listed', Compiler.IsNamed t (es.plain file) p ∨
        ¬es.LeavesOut t (es.plain file).directory p) := by
  obtain ⟨cs, hleads⟩ := Path.exists_leads hdir hname
  refine ⟨?_, fun listed listed' hlisted hlisted' => ?_⟩
  · have hfinds : (∀ entry ∈ (es.written file).includes.getD ["**/*"],
          (Compiler.finds? t (es.plain file).directory entry).isSome = true) ↔
        ∀ entry ∈ (es.plain file).includes.getD ["**/*"],
          (Compiler.finds? t (es.plain file).directory entry).isSome = true := by
      rw [← List.forall_mem_map (P := fun o : Option (List Path) => o.isSome = true),
        map_finds?_written hu hleads hrel, List.forall_mem_map]
    rw [Compiler.exists_fileList_iff, Compiler.exists_fileList_iff, looksAtPatterns_written_iff,
      exists_exclusions_written_iff hleads hrel]
    exact imp_congr_right fun _ => and_congr_right fun _ => hfinds
  · -- a file that is named is listed in any case, and a found one unless the plain entries leave it
    -- out
    have hmem : ∀ p, p ∈ listed ↔ p ∈ listed' ∧ (Compiler.IsNamed t (es.plain file) p ∨
        ¬es.LeavesOut t (es.plain file).directory p) := by
      intro p
      rw [Compiler.mem_fileList_iff hlisted, Compiler.mem_fileList_iff hlisted',
        isNamed_written_iff hdir hrel, isFound_plain_iff hu hleads hrel]
      tauto
    refine ⟨hmem, fun h p hp => ((hmem p).1 ((h p).1 hp)).2, fun h p => ?_⟩
    rw [hmem p]
    exact ⟨fun hp => ⟨hp, h p hp⟩, And.left⟩

end Entries

end Config

namespace Sample

open Config (Entries)

/-- The entries of the project, with a point in front of each of them. -/
def pointedEntries (excluded : String) : Entries :=
  ⟨none, some [⟨"src", true⟩], some [⟨excluded, true⟩]⟩

/-- The configuration is in a directory that is no wildcard, and its entries are relative. -/
lemma pointedEntries_spec : ∀ excluded ∈ ["lib", "src/deep"],
    ((pointedEntries excluded).plain configuration).directory.isAbsolute = true ∧
    ((pointedEntries excluded).plain configuration).directory.fileName? ≠ some "**".toList ∧
    (∀ e ∈ (pointedEntries excluded).includes.getD [], (Path.ofString e.text).isAbsolute = false) ∧
    ∀ e ∈ (pointedEntries excluded).excludes.getD [], (Path.ofString e.text).isAbsolute = false := by
  decide +kernel

end Sample

namespace Config.Entries

open Glob (describesText)

/-- A source is listed with points and without, if what is left out is somewhere else. -/
theorem listed_pointed_of_included : ∃ listed listed', Sample.nested.Proper ∧
    (Sample.pointedEntries "lib").AreRelative ∧
    ((Sample.pointedEntries "lib").plain Sample.configuration).fileList Sample.nested = .ok listed ∧
    ((Sample.pointedEntries "lib").written Sample.configuration).fileList Sample.nested =
      .ok listed' ∧
    listed'.length = 1 ∧ ∀ p, p ∈ listed' ↔ p ∈ listed := by
  have hplain : (((Sample.pointedEntries "lib").plain Sample.configuration).fileList
      Sample.nested).toOption.isSome = true := by decide +kernel
  have heval : ((((Sample.pointedEntries "lib").written Sample.configuration).fileList
      Sample.nested).toOption.any fun listed => listed.length == 1 && listed.all fun p =>
        !describesText (Compiler.expand Sample.nested
          ((Sample.pointedEntries "lib").plain Sample.configuration).directory "lib") p) = true := by
    decide +kernel
  have hproper : Sample.nested.Proper := by decide +kernel
  obtain ⟨habs, hname, hincludes, hexcludes⟩ := Sample.pointedEntries_spec "lib" (by simp)
  have hrel : (Sample.pointedEntries "lib").AreRelative :=
    ⟨by simp [Sample.pointedEntries], hincludes, hexcludes⟩
  obtain ⟨listed, hlisted, -⟩ := exists_of_toOption_any (p := fun _ => true) (by simpa using hplain)
  obtain ⟨listed', hlisted', h⟩ := exists_of_toOption_any heval
  simp only [Bool.and_eq_true, beq_iff_eq, List.all_eq_true, Bool.not_eq_true'] at h
  obtain ⟨hlength, hkept⟩ := h
  refine ⟨listed, listed', hproper, hrel, hlisted, hlisted', hlength, ?_⟩
  refine ((listed_pointed_iff hproper habs hname hrel).2 listed listed' hlisted hlisted').2.2 ?_
  intro p hp
  right
  rintro ⟨e, he, -, hdescribed⟩
  rw [List.mem_singleton.1 he, hkept p hp] at hdescribed
  cases hdescribed

/-- A source in a directory that is left out is listed if there is a point in front. -/
theorem listed_pointed_ne : ∃ listed listed',
    ((Sample.pointedEntries "src/deep").plain Sample.configuration).fileList Sample.nested =
      .ok listed ∧
    ((Sample.pointedEntries "src/deep").written Sample.configuration).fileList Sample.nested =
      .ok listed' ∧
    (Sample.pointedEntries "src/deep").AreRelative ∧ ¬∀ p, p ∈ listed' ↔ p ∈ listed := by
  have hplain : ((((Sample.pointedEntries "src/deep").plain Sample.configuration).fileList
      Sample.nested).toOption.any fun listed => listed.isEmpty) = true := by decide +kernel
  have hwritten : ((((Sample.pointedEntries "src/deep").written Sample.configuration).fileList
      Sample.nested).toOption.any fun listed => !listed.isEmpty) = true := by decide +kernel
  obtain ⟨listed, hlisted, hnil⟩ := exists_of_toOption_any hplain
  obtain ⟨listed', hlisted', hne⟩ := exists_of_toOption_any hwritten
  obtain ⟨-, -, hincludes, hexcludes⟩ := Sample.pointedEntries_spec "src/deep" (by simp)
  have hrel : (Sample.pointedEntries "src/deep").AreRelative :=
    ⟨by simp [Sample.pointedEntries], hincludes, hexcludes⟩
  refine ⟨listed, listed', hlisted, hlisted', hrel, fun hsame => ?_⟩
  rw [List.isEmpty_iff.1 hnil] at hsame
  rw [List.eq_nil_iff_forall_not_mem.2 fun p hp => List.not_mem_nil ((hsame p).1 hp)] at hne
  cases hne

end Config.Entries

end StoreBindings
