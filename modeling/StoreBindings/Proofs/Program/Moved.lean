import StoreBindings.Proofs.Glob.Moved
import StoreBindings.Proofs.Program.Growth

/-!
# A project in two directories

Which sources a project has does not depend on where the project is: in two directories with the same
files it has the same sources, in the same order, or fails in the same way (`sameOutcome_sources`). The
paths of both directories are read as a part of the patterns, so this holds only of directories the names
of which are plain; and none may be that of installed packages, which are looked for on the whole way.
What the options of the project and its configuration name and look for has to be in the project
(`Options.staysInside`, `Compiler.staysInside`).

The steps are those of the program: patterns for stores (`sameOutcome_storeFiles`), entries of the
configuration (`sameOutcome_exclusions`, `sameOutcome_included`, `sameIn_named`), and the list of all that
(`sameOutcome_fileList`).
-/

namespace StoreBindings

/-! ## Outcomes -/

/-- Both come to the same failure, or to results that are related. -/
inductive SameOutcome {α β : Type} (R : α → β → Prop) : Except Failure α → Except Failure β → Prop
  | ok {a : α} {b : β} (h : R a b) : SameOutcome R (.ok a) (.ok b)
  | error (e : Failure) : SameOutcome R (.error e) (.error e)

namespace SameOutcome

variable {α β γ δ : Type} {R : α → β → Prop} {Q : γ → δ → Prop}

/-- Two steps that come to the same and go on to the same come to the same together. -/
lemma bind {x : Except Failure α} {y : Except Failure β} {f : α → Except Failure γ}
    {g : β → Except Failure δ} (h : SameOutcome R x y) (hnext : ∀ a b, R a b → SameOutcome Q (f a) (g b)) :
    SameOutcome Q (x >>= f) (y >>= g) := by
  cases h with
  | ok h => exact hnext _ _ h
  | error e => exact .error e

/-- What comes to the same for each element comes to the same for a list. -/
lemma mapM {ι : Type} {l : List ι} {f : ι → Except Failure α} {g : ι → Except Failure β}
    (h : ∀ i ∈ l, SameOutcome R (f i) (g i)) : SameOutcome (List.Forall₂ R) (l.mapM f) (l.mapM g) := by
  induction l with
  | nil => exact .ok .nil
  | cons i l ih =>
    rw [List.mapM_cons, List.mapM_cons]
    refine (h i List.mem_cons_self).bind fun a b hab => ?_
    refine (ih fun j hj => h j (List.mem_cons_of_mem _ hj)).bind fun as bs hall => ?_
    exact .ok (.cons hab hall)

end SameOutcome

/-- Repetitions are left out of a list before or after a map that tells its elements apart. -/
lemma eraseDups_map_of_injective {α β : Type} [BEq α] [LawfulBEq α] [BEq β] [LawfulBEq β] {f : α → β}
    {l : List α} (h : ∀ a ∈ l, ∀ b ∈ l, f a = f b → a = b) : (l.map f).eraseDups = l.eraseDups.map f := by
  induction l using eraseDups_induction with
  | nil => rfl
  | cons a l ih =>
    have hsame : (l.map f).filter (fun b => !b == f a) = (l.filter fun b => !b == a).map f := by
      rw [List.filter_map]
      congr 1
      refine List.filter_congr fun b hb => ?_
      rw [Function.comp_apply, Bool.not_inj_iff, Bool.eq_iff_iff, beq_iff_eq, beq_iff_eq]
      exact ⟨h b (List.mem_cons_of_mem _ hb) a List.mem_cons_self, congrArg f⟩
    have hmem : ∀ b ∈ l.filter (fun b => !b == a), b ∈ a :: l := fun b hb =>
      List.mem_cons_of_mem _ (List.mem_filter.1 hb).1
    rw [List.map_cons, List.eraseDups_cons, List.eraseDups_cons, List.map_cons, hsame,
      ih fun b hb c hc => h b (hmem b hb) c (hmem c hc)]

namespace Config

open Files (Tree Place IsName)
open StoreBindings.Path (ofPlace inside?)
open Glob (FindsAlike partsOf? staysWithin IsPlain)

variable {t t' : Tree} {base base' place : Place} {listed listed' : List Path}

/-- Places in a directory, spelled from the root. -/
def placed (base : Place) (places : List Place) : List Path :=
  places.map fun place => ofPlace (base ++ place)

/-- Names that lead down from a directory. -/
def IsBelow (place : Place) : Prop := place ≠ [] ∧ ∀ n ∈ place, IsName n

/-- The same places, in the same order, each in a directory of its own. -/
def SameIn (base base' : Place) (listed listed' : List Path) : Prop :=
  ∃ places : List Place, (∀ place ∈ places, IsBelow place) ∧ listed = placed base places ∧
    listed' = placed base' places

namespace SameIn

/-- Lists of the same places are appended. -/
lemma append {more more' : List Path} (h : SameIn base base' listed listed')
    (hmore : SameIn base base' more more') : SameIn base base' (listed ++ more) (listed' ++ more') := by
  obtain ⟨places, hplaces, rfl, rfl⟩ := h
  obtain ⟨others, hothers, rfl, rfl⟩ := hmore
  refine ⟨places ++ others, List.forall_mem_append.2 ⟨hplaces, hothers⟩, ?_, ?_⟩
  · exact List.map_append.symm
  · exact List.map_append.symm

/-- Lists of lists of the same places are flattened. -/
lemma flatten {all all' : List (List Path)} (h : List.Forall₂ (SameIn base base') all all') :
    SameIn base base' all.flatten all'.flatten := by
  induction h with
  | nil => exact ⟨[], by simp, rfl, rfl⟩
  | cons hfirst _ ih => exact hfirst.append ih

/-- The same places are left if the paths to them pass or fail together. -/
lemma filter (h : SameIn base base' listed listed') {q q' : Path → Bool}
    (hq : ∀ place, IsBelow place → q' (ofPlace (base' ++ place)) = q (ofPlace (base ++ place))) :
    SameIn base base' (listed.filter q) (listed'.filter q') := by
  obtain ⟨places, hplaces, rfl, rfl⟩ := h
  refine ⟨places.filter fun place => q (ofPlace (base ++ place)),
    fun place hplace => hplaces place (List.mem_filter.1 hplace).1, ?_, ?_⟩
  · unfold placed
    rw [List.filter_map]
    rfl
  · unfold placed
    rw [List.filter_map]
    congr 1
    exact List.filter_congr fun place hplace => hq place (hplaces place hplace)

/-- Repeated places are left out in both directories, since a path tells its place. -/
lemma eraseDups (hbase : ∀ n ∈ base, IsName n) (hbase' : ∀ n ∈ base', IsName n)
    (h : SameIn base base' listed listed') :
    SameIn base base' listed.eraseDups listed'.eraseDups := by
  obtain ⟨places, hplaces, rfl, rfl⟩ := h
  have herase : ∀ {base : Place}, (∀ n ∈ base, IsName n) →
      (placed base places).eraseDups = placed base places.eraseDups := by
    intro base hbase
    refine eraseDups_map_of_injective fun place hplace place' hplace' heq => ?_
    have htarget := congrArg Path.target heq
    rw [Path.target_ofPlace (List.forall_mem_append.2 ⟨hbase, (hplaces place hplace).2⟩),
      Path.target_ofPlace (List.forall_mem_append.2 ⟨hbase, (hplaces place' hplace').2⟩)] at htarget
    exact List.append_cancel_left htarget
  exact ⟨places.eraseDups, fun place hplace => hplaces place (List.mem_eraseDups.1 hplace),
    herase hbase, herase hbase'⟩

end SameIn

/-! ## Files that are found -/

/-- Where paths that stay inside a directory lead. -/
def places (rs : List Path) : List Place := rs.map fun r => r.inside?.getD []

/-- Paths that stay inside lead down by names. -/
lemma isName_of_mem_places {rs : List Path} (hrs : ∀ r ∈ rs, r.inside?.isSome = true) :
    ∀ place ∈ places rs, ∀ n ∈ place, IsName n := by
  intro place hplace
  obtain ⟨r, hr, rfl⟩ := List.mem_map.1 hplace
  obtain ⟨place, hin⟩ := Option.isSome_iff_exists.1 (hrs r hr)
  rw [hin, Option.getD_some]
  exact Path.isName_of_inside? hin

/-- The normal form of a path inside a directory is that of its place. -/
lemma map_normalize_join (hbase : ∀ n ∈ base, IsName n) {rs : List Path}
    (hrs : ∀ r ∈ rs, r.inside?.isSome = true) :
    (rs.map (ofPlace base).join).map Path.normalize = placed base (places rs) := by
  rw [placed, places, List.map_map, List.map_map]
  refine List.map_congr_left fun r hr => ?_
  obtain ⟨place, hplace⟩ := Option.isSome_iff_exists.1 (hrs r hr)
  simp only [Function.comp_apply, hplace, Option.getD_some]
  exact Path.normalize_join_ofPlace hbase hplace

/-- The directory itself is no file. -/
lemma isFile_ofPlace_of_directory (hu : t.Proper) (hd : t.at? base = some .directory) :
    t.isFile (ofPlace base) = false :=
  Tree.isFile_of_isDirectory (hu.isDirectory_ofPlace (hu.isName (by rw [hd]; rfl)) hd)

/-- Of the same places there are files at the same ones. -/
lemma sameIn_files (h : t.SameBelow base t' base') {places : List Place}
    (hplaces : ∀ place ∈ places, ∀ n ∈ place, IsName n) :
    SameIn base base' ((placed base places).filter t.isFile)
      ((placed base' places).filter t'.isFile) := by
  have hfile : ∀ place ∈ places,
      t'.isFile (ofPlace (base' ++ place)) = t.isFile (ofPlace (base ++ place)) := by
    intro place hplace
    -- the base itself is a directory in both trees
    by_cases hne : place = []
    · rw [hne, List.append_nil, List.append_nil, isFile_ofPlace_of_directory h.proper h.directory,
        isFile_ofPlace_of_directory h.proper' h.directory']
    · have hnames := hplaces place hplace
      rw [Path.ofPlace_append (List.forall_mem_append.2 ⟨h.isName, hnames⟩) hne,
        Path.ofPlace_append (List.forall_mem_append.2 ⟨h.symm.isName, hnames⟩) hne]
      exact h.isFile_join (Path.inside?_joined hnames)
  refine ⟨places.filter fun place => t.isFile (ofPlace (base ++ place)), ?_, ?_, ?_⟩
  · intro place hplace
    obtain ⟨hmem, hisfile⟩ := List.mem_filter.1 hplace
    refine ⟨?_, hplaces place hmem⟩
    rintro rfl
    rw [List.append_nil, isFile_ofPlace_of_directory h.proper h.directory] at hisfile
    cases hisfile
  · rw [placed, List.filter_map]
    rfl
  · rw [placed, List.filter_map]
    congr 1
    exact List.filter_congr hfile

/-- The files that two walks find alike have the same places. -/
lemma sameIn_of_findsAlike (h : t.SameBelow base t' base')
    (hfound : FindsAlike t base t' base' listed listed') :
    SameIn base base' ((listed.filter t.isFile).map Path.normalize)
      ((listed'.filter t'.isFile).map Path.normalize) := by
  obtain ⟨rs, hrs, hfiles, hfiles'⟩ := hfound.files
  -- in their normal spelling they are files still
  have hstill : ∀ {u : Tree} {found : List Path}, u.Proper → (∀ p ∈ found, u.reaches p = true) →
      (found.filter u.isFile).map Path.normalize =
        ((found.filter u.isFile).map Path.normalize).filter u.isFile := by
    intro u found hu hreach
    rw [Project.map_filter_isFile hu hreach, List.filter_filter]
    simp only [Bool.and_true, Bool.and_self]
  rw [hstill h.proper hfound.reached, hstill h.proper' hfound.reached', hfiles, hfiles',
    map_normalize_join h.isName hrs, map_normalize_join h.symm.isName hrs]
  exact sameIn_files h (isName_of_mem_places hrs)

/-! ## What the entries of a configuration stand for -/

/-- A path that is given in a file of a directory, from the root of the project on. -/
def given (dir : Place) (entry : String) : Path := (⟨Path.joined dir⟩ : Path).joinText entry

/-- A pattern that does not lead above the root of the project. -/
def staysInside (r : Path) : Bool := !r.isAbsolute && (partsOf? r.text).all (staysWithin 0)

/-- Everything in a directory. -/
def everything (r : Path) : Path := (r.joinText "**").joinText "*"

/-- An entry without wildcards, which may name a directory, names one in the project. -/
def namesInside (dir : Place) (entry : String) : Bool :=
  !(given dir entry).isAbsolute &&
    (!decide (IsPlain entry.toList) || (given dir entry).inside?.isSome)

/-- An entry that is looked for in the project only. -/
def looksInside (dir : Place) (entry : String) : Bool :=
  namesInside dir entry && staysInside (given dir entry) &&
    (!decide (IsPlain entry.toList) || staysInside (everything (given dir entry)))

variable {dir : Place} {entry : String} {r : Path}

/-- An entry of a file in a directory is joined to the root as it is given from there. -/
lemma joinText_given (h : ∀ n ∈ base ++ dir, IsName n) (hrel : (given dir entry).isAbsolute = false) :
    (ofPlace (base ++ dir)).joinText entry = (ofPlace base).join (given dir entry) :=
  Path.join_ofPlace_append h (Path.isAbsolute_of_join hrel)

/-- Everything in a directory is looked for behind the directory. -/
lemma everything_join (base : Place) (hr : r.isAbsolute = false) :
    everything ((ofPlace base).join r) = (ofPlace base).join (everything r) := by
  have hbase := Path.text_ofPlace_ne_nil base
  have hstars : (Path.ofString "**").isAbsolute = false := by decide
  have hstar : (Path.ofString "*").isAbsolute = false := by decide
  unfold everything Path.joinText
  rw [Path.join_join hbase hr hstars,
    Path.join_join hbase (Path.isAbsolute_join_of_relative hr hstars) hstar]

namespace Compiler

/-- An entry stands for one pattern behind the names of both directories. -/
lemma exists_expand (h : t.SameBelow base t' base') (hdir : ∀ n ∈ dir, IsName n)
    (hentry : namesInside dir entry = true) : ∃ r : Path, r.isAbsolute = false ∧ r.text ≠ [] ∧
      expand t (ofPlace (base ++ dir)) entry = ((ofPlace base).join r).text ∧
      expand t' (ofPlace (base' ++ dir)) entry = ((ofPlace base').join r).text ∧
      (looksInside dir entry = true → staysInside r = true) := by
  simp only [namesInside, Bool.and_eq_true, Bool.not_eq_true', Bool.or_eq_true,
    decide_eq_false_iff_not] at hentry
  obtain ⟨hrel, hplain⟩ := hentry
  have hwhole := joinText_given (List.forall_mem_append.2 ⟨h.isName, hdir⟩) hrel
  have hwhole' := joinText_given (List.forall_mem_append.2 ⟨h.symm.isName, hdir⟩) hrel
  unfold expand
  rw [hwhole, hwhole']
  simp only [looksInside, Bool.and_eq_true, Bool.or_eq_true, Bool.not_eq_true',
    decide_eq_false_iff_not]
  -- an entry without wildcards stands for all that is in the directory it names
  by_cases hwild : IsPlain entry.toList
  · obtain ⟨place, hin⟩ := Option.isSome_iff_exists.1 (hplain.resolve_left (not_not.2 hwild))
    rw [Glob.isPlain_iff.1 hwild, h.isDirectory_join hin]
    cases hbool : t.isDirectory ((ofPlace base).join (given dir entry)) with
    | true =>
      have hall : ∀ base : Place,
          ((((ofPlace base).join (given dir entry)).joinText "**").joinText "*") =
            (ofPlace base).join (everything (given dir entry)) := fun base => everything_join base hrel
      refine ⟨everything (given dir entry), ?_, Path.text_join_ne_nil (.inr (by decide)), ?_, ?_, ?_⟩
      · exact Path.isAbsolute_join_of_relative
          (Path.isAbsolute_join_of_relative hrel (by decide)) (by decide)
      · rw [← hall]
        rfl
      · rw [← hall]
        rfl
      · exact fun hlook => hlook.2.resolve_left (not_not.2 hwild)
    | false =>
      refine ⟨given dir entry, hrel, ?_, rfl, rfl, fun hlook => hlook.1.2⟩
      intro hnil
      have hempty : given dir entry = ⟨[]⟩ := congrArg Path.mk hnil
      rw [hempty, h.proper.isDirectory_join_empty h.directory] at hbool
      cases hbool
  · rw [Glob.isPlain_iff, Bool.not_eq_false] at hwild
    rw [hwild]
    refine ⟨given dir entry, hrel, Path.text_join_ne_nil (.inr ?_), rfl, rfl, fun hlook => hlook.1.2⟩
    intro hnil
    change entry.toList = [] at hnil
    rw [hnil] at hwild
    cases hwild

/-- Two patterns match the same places, each in a directory of its own. -/
def MatchAlike (base base' : Place) (x x' : Glob.Pattern) : Prop :=
  ∀ place, IsBelow place → Glob.matchesText x' (ofPlace (base' ++ place)).text =
    Glob.matchesText x (ofPlace (base ++ place)).text

/-- Behind the name of its directory a place matches as it does alone. -/
lemma matchesText_lead (hbase : ∀ n ∈ base, IsName n) (hplace : IsBelow place) (x : Glob.Pattern) :
    Glob.matchesText ((ofPlace base).lead.map .char ++ x) (ofPlace (base ++ place)).text =
      Glob.matchesText x (Path.joined place) := by
  have hrel := Path.isAbsolute_of_inside? (Path.inside?_joined hplace.2)
  rw [Path.ofPlace_append (List.forall_mem_append.2 ⟨hbase, hplace.2⟩) hplace.1,
    Path.text_join _ hrel, Bool.eq_iff_iff, Glob.matchesText_chars_append_iff]
  constructor
  · rintro ⟨rest, hrest, hmatch⟩
    rwa [← List.append_cancel_left hrest] at hmatch
  · exact fun hmatch => ⟨_, rfl, hmatch⟩

variable {c : Compiler} {xs xs' : List Glob.Pattern}

/-- The same entries in a file of a directory. -/
def inDirectory (c : Compiler) (dir : Place) : Compiler :=
  { c with file := ofPlace (dir ++ [fileName.toList]) }

/-- A configuration is in the directory that it has been placed in. -/
lemma directory_inDirectory (c : Compiler) (hdir : ∀ n ∈ dir, IsName n) :
    (c.inDirectory dir).directory = ofPlace dir := by
  have hnames : ∀ n ∈ dir ++ [fileName.toList], IsName n :=
    List.forall_mem_append.2 ⟨hdir, by decide⟩
  unfold directory inDirectory
  rw [Path.parent?_ofPlace hnames, if_neg (by simp), List.dropLast_concat, Option.getD_some]

variable (h : t.SameBelow base t' base') (hplain : ∀ n ∈ base ++ base', IsPlain n)
  (hdir : ∀ n ∈ dir, IsName n)

include h hplain hdir in
/-- The entries that leave files out stand for patterns that match the same places. -/
theorem sameOutcome_exclusions (hexcludes : ∀ entry ∈ c.excludes.getD [], namesInside dir entry = true) :
    SameOutcome (List.Forall₂ (MatchAlike base base'))
      (exclusions t (c.inDirectory (base ++ dir))) (exclusions t' (c.inDirectory (base' ++ dir))) := by
  obtain ⟨hbase, hbase'⟩ := h.isName_and hplain
  refine .mapM fun entry hentry => ?_
  obtain ⟨r, hrel, -, hexpand, hexpand', -⟩ := exists_expand h hdir (hexcludes entry hentry)
  rw [directory_inDirectory c (List.forall_mem_append.2 ⟨h.isName, hdir⟩),
    directory_inDirectory c (List.forall_mem_append.2 ⟨h.symm.isName, hdir⟩), hexpand, hexpand',
    Glob.compile?_join hbase hrel, Glob.compile?_join hbase' hrel]
  cases Glob.compile? r.text with
  | none => exact .error _
  | some x =>
    refine .ok fun place hplace => ?_
    rw [matchesText_lead h.isName hplace, matchesText_lead h.symm.isName hplace]

/-- Patterns that match alike leave out the same places. -/
lemma any_matchesText (hxs : List.Forall₂ (MatchAlike base base') xs xs') (hplace : IsBelow place) :
    (xs'.any fun x => Glob.matchesText x (ofPlace (base' ++ place)).text) =
      xs.any fun x => Glob.matchesText x (ofPlace (base ++ place)).text := by
  induction hxs with
  | nil => rfl
  | cons hfirst _ ih => rw [List.any_cons, List.any_cons, ih, hfirst place hplace]

/-- Whether a file is a source is told by its last name. -/
lemma isSourceFile_ofPlace (hbase : ∀ n ∈ base, IsName n) (hbase' : ∀ n ∈ base', IsName n)
    (hplace : IsBelow place) :
    Syntax.isSourceFile (ofPlace (base' ++ place)) = Syntax.isSourceFile (ofPlace (base ++ place)) := by
  obtain ⟨hne, hnames⟩ := hplace
  obtain ⟨front, last, rfl⟩ := (List.eq_nil_or_concat' place).resolve_left hne
  have hfile : ∀ {base : Place}, (∀ n ∈ base, IsName n) →
      (ofPlace (base ++ (front ++ [last]))).fileName? = some last := by
    intro base hbase
    have hall := List.forall_mem_append.2 ⟨hbase, hnames⟩
    rw [← List.append_assoc] at hall ⊢
    exact Path.fileName?_ofPlace hall
  unfold Syntax.isSourceFile
  rw [hfile hbase, hfile hbase']

/-- A file is in installed packages by the names below the directory only. -/
lemma isInPackages_ofPlace (hbase : ∀ n ∈ base, IsName n ∧ n ≠ "node_modules".toList)
    (hnames : ∀ n ∈ place, IsName n) :
    isInPackages (ofPlace (base ++ place)) = place.contains "node_modules".toList := by
  have hall := List.forall_mem_append.2 ⟨fun n hn => (hbase n hn).1, hnames⟩
  unfold isInPackages
  rw [Path.components_ofPlace hall, Bool.eq_iff_iff, List.contains_iff_mem, List.contains_iff_mem]
  simp only [List.mem_cons, reduceCtorEq, false_or, List.mem_map, Component.name.injEq,
    exists_eq_right, List.mem_append]
  refine ⟨fun hmem => hmem.resolve_left fun hin => (hbase _ hin).2 rfl, .inr⟩

/-- Of what is found, files can be looked for first, and then what else is asked of a source. -/
lemma filter_found_eq (hu : t.Proper) {found : List Path} (hreach : ∀ p ∈ found, t.reaches p = true) :
    ((found.map Path.normalize).filter fun p => t.isFile p && Syntax.isSourceFile p &&
        !isInPackages p && !xs.any fun x => Glob.matchesText x p.text) =
      ((found.filter t.isFile).map Path.normalize).filter fun p => Syntax.isSourceFile p &&
        !isInPackages p && !xs.any fun x => Glob.matchesText x p.text := by
  rw [Project.map_filter_isFile hu hreach, List.filter_filter]
  refine List.filter_congr fun p _ => ?_
  cases t.isFile p <;> simp

include h hplain hdir in
/-- An entry adds the same places. -/
theorem sameOutcome_included (hpackages : ∀ n ∈ base ++ base', n ≠ "node_modules".toList)
    (hxs : List.Forall₂ (MatchAlike base base') xs xs') (hentry : looksInside dir entry = true) :
    SameOutcome (SameIn base base') (included t (c.inDirectory (base ++ dir)) xs entry)
      (included t' (c.inDirectory (base' ++ dir)) xs' entry) := by
  have hnames : namesInside dir entry = true := by
    simp only [looksInside, Bool.and_eq_true] at hentry
    exact hentry.1.1
  obtain ⟨r, hrel, hne, hexpand, hexpand', hstays⟩ := exists_expand h hdir hnames
  have hstays := hstays hentry
  simp only [staysInside, Bool.and_eq_true] at hstays
  have hfind := Glob.find?_alike h hplain hrel hne hstays.2
  unfold included
  rw [directory_inDirectory c (List.forall_mem_append.2 ⟨h.isName, hdir⟩),
    directory_inDirectory c (List.forall_mem_append.2 ⟨h.symm.isName, hdir⟩), hexpand, hexpand']
  generalize Glob.find? t ((ofPlace base).join r).text = found at hfind ⊢
  generalize Glob.find? t' ((ofPlace base').join r).text = found' at hfind ⊢
  cases hfind with
  | none => exact .error _
  | @some found found' hfound =>
    refine .ok ?_
    -- what was found is normalised and filtered by names only, which the move keeps
    rw [filter_found_eq h.proper hfound.reached, filter_found_eq h.proper' hfound.reached']
    refine (sameIn_of_findsAlike h hfound).filter fun place hplace => ?_
    obtain ⟨hbase, hbase'⟩ := h.isName_and hpackages
    rw [isSourceFile_ofPlace h.isName h.symm.isName hplace, isInPackages_ofPlace hbase hplace.2,
      isInPackages_ofPlace hbase' hplace.2, any_matchesText hxs hplace]

include h hdir in
/-- The same places are named one by one. -/
theorem sameIn_named (hfiles : ∀ file ∈ c.files.getD [], (given dir file).inside?.isSome = true) :
    SameIn base base' (named t (c.inDirectory (base ++ dir))) (named t' (c.inDirectory (base' ++ dir))) := by
  have hrs : ∀ r ∈ (c.files.getD []).map (given dir), r.inside?.isSome = true := by
    simpa using hfiles
  have hnormal : ∀ {base : Place}, (∀ n ∈ base, IsName n) →
      (c.files.getD []).map (fun file => ((ofPlace (base ++ dir)).joinText file).normalize) =
        placed base (places ((c.files.getD []).map (given dir))) := by
    intro base hbase
    rw [← map_normalize_join hbase hrs, List.map_map, List.map_map]
    refine List.map_congr_left fun file hfile => ?_
    obtain ⟨place, hplace⟩ := Option.isSome_iff_exists.1 (hfiles file hfile)
    rw [joinText_given (List.forall_mem_append.2 ⟨hbase, hdir⟩) (Path.isAbsolute_of_inside? hplace)]
    rfl
  unfold named
  rw [directory_inDirectory c (List.forall_mem_append.2 ⟨h.isName, hdir⟩),
    directory_inDirectory c (List.forall_mem_append.2 ⟨h.symm.isName, hdir⟩)]
  show SameIn base base' (List.filter t.isFile ((c.files.getD []).map _))
    (List.filter t'.isFile ((c.files.getD []).map _))
  rw [hnormal h.isName, hnormal h.symm.isName]
  exact sameIn_files h (isName_of_mem_places hrs)

/-- What a configuration names and what it looks for is in the project. -/
def staysInside (c : Compiler) (dir : Place) : Bool :=
  (c.files.getD []).all (fun file => (given dir file).inside?.isSome) &&
    (c.includes.getD ["**/*"]).all (looksInside dir) && (c.excludes.getD []).all (namesInside dir)

/-- If patterns are looked at, what they find follows what is named. -/
lemma fileList_of_looksAtPatterns (hlooked : c.LooksAtPatterns) : fileList t c = do
    let excluded ← exclusions t c
    let found ← (c.includes.getD ["**/*"]).mapM (included t c excluded)
    return (named t c ++ found.flatten).eraseDups := by
  unfold fileList
  split
  · next hincludes hfiles => exact absurd ⟨hincludes, by simp [hfiles]⟩ hlooked
  · rfl

/-- If they are not, a configuration lists what it names. -/
lemma fileList_of_not_looksAtPatterns (hnot : ¬c.LooksAtPatterns) :
    fileList t c = .ok (named t c).eraseDups := by
  rw [LooksAtPatterns, not_not] at hnot
  obtain ⟨files, hfiles⟩ := Option.ne_none_iff_exists'.1 hnot.2
  unfold fileList
  rw [hnot.1, hfiles]

include h hplain hdir in
/-- A configuration lists the same places. -/
theorem sameOutcome_fileList (hpackages : ∀ n ∈ base ++ base', n ≠ "node_modules".toList)
    (hc : c.staysInside dir = true) :
    SameOutcome (SameIn base base') (fileList t (c.inDirectory (base ++ dir)))
      (fileList t' (c.inDirectory (base' ++ dir))) := by
  simp only [staysInside, Bool.and_eq_true, List.all_eq_true] at hc
  obtain ⟨⟨hfiles, hincludes⟩, hexcludes⟩ := hc
  have hnamed := sameIn_named h hdir hfiles
  by_cases hlooked : c.LooksAtPatterns
  · have hlooked' : ∀ place, (c.inDirectory place).LooksAtPatterns := fun _ => hlooked
    rw [fileList_of_looksAtPatterns (hlooked' _), fileList_of_looksAtPatterns (hlooked' _)]
    refine (sameOutcome_exclusions h hplain hdir hexcludes).bind fun xs xs' hxs => ?_
    refine (SameOutcome.mapM fun entry hentry =>
      sameOutcome_included h hplain hdir hpackages hxs (hincludes entry hentry)).bind ?_
    exact fun found found' hfound =>
      .ok ((hnamed.append (.flatten hfound)).eraseDups h.isName h.symm.isName)
  · have hnot : ∀ place, ¬(c.inDirectory place).LooksAtPatterns := fun _ => hlooked
    rw [fileList_of_not_looksAtPatterns (hnot _), fileList_of_not_looksAtPatterns (hnot _)]
    exact .ok (hnamed.eraseDups h.isName h.symm.isName)

end Compiler

/-! ## The sources of a project -/

namespace Options

/-- Where the options of a project place the directory of its stores, unless that is not inside. -/
def storesPlace? (o : Options) : Option Place := do
  let root ← (o.projectRoot.getD ⟨[]⟩).inside?
  (o.storesPath.getD defaultStoresPath).insideFrom? root

end Options

/-- A pattern for stores, in the directory of the stores. -/
def storesPattern (stores : Place) (pattern : String) : Path :=
  ((⟨Path.joined stores⟩ : Path).joinText "**").joinText pattern

/-- What the options of a project name and what they look for is in the project. -/
def Options.staysInside (o : Options) : Bool :=
  o.storesPlace?.any fun stores => !(Path.ofString o.generatedName).isAbsolute &&
    o.filePatterns.all fun pattern => Config.staysInside (storesPattern stores pattern)

/-- The directory of the stores is reached by names. -/
lemma Options.isName_storesPlace {o : Options} {stores : Place} (ho : o.storesPlace? = some stores) :
    ∀ n ∈ stores, IsName n := by
  obtain ⟨root, hroot, hstores⟩ := Option.bind_eq_some_iff.1 ho
  exact Path.isName_of_insideFrom? hstores (Path.isName_of_inside? hroot)

/-- The directory of the stores is at the same place wherever the project is. -/
lemma Options.storesDirectory_resolve_ofPlace {o : Options} {stores : Place}
    (hbase : ∀ n ∈ base, IsName n) (ho : o.storesPlace? = some stores) :
    (o.resolve (ofPlace base)).storesDirectory = ofPlace (base ++ stores) := by
  unfold storesPlace? at ho
  obtain ⟨root, hroot, hstores⟩ := Option.bind_eq_some_iff.1 ho
  -- the root is inside the base, and the directory of the stores is looked for from there
  have hprojectRoot : (o.resolve (ofPlace base)).root = ofPlace (base ++ root) := by
    unfold resolve
    dsimp only
    cases hr : o.projectRoot with
    | none =>
      rw [hr] at hroot
      obtain rfl : [] = root := Option.some.inj hroot
      rw [List.append_nil]
      exact Path.normalize_ofPlace hbase
    | some p =>
      rw [hr] at hroot
      exact Path.normalize_join_ofPlace hbase hroot
  have hnames := Path.isName_of_inside? hroot
  have hrel := (Path.insideFrom?_eq_some_iff.1 hstores).1
  have hin : ((⟨Path.joined root⟩ : Path).join (o.storesPath.getD defaultStoresPath)).inside? =
      some stores := by
    rw [Path.inside?_join (Path.inside?_joined hnames) hrel, hstores]
  show ((o.resolve (ofPlace base)).root.join (o.storesPath.getD defaultStoresPath)).normalize = _
  rw [hprojectRoot, Path.join_ofPlace_append (List.forall_mem_append.2 ⟨hbase, hnames⟩) hrel,
    Path.normalize_join_ofPlace hbase hin]

namespace Project

variable {project : Project} {stores : Place}

/-- A file is generated or not by the names that lead to it. -/
lemma isGenerated_ofPlace (hbase : ∀ n ∈ base, IsName n) (hstores : ∀ n ∈ stores, IsName n)
    (hplace : ∀ n ∈ place, IsName n) {generated : Path} (hrel : generated.isAbsolute = false)
    (hdir : project.generatedDirectory = (ofPlace (base ++ stores)).join generated) :
    project.isGenerated (ofPlace (base ++ place)) =
      (stores.map Component.name ++ generated.steps).isPrefixOf (place.map Component.name) := by
  have hall := List.forall_mem_append.2 ⟨hbase, hplace⟩
  unfold isGenerated Path.startsWith
  rw [Path.normalize_ofPlace hall, hdir,
    Path.components_join (Path.isAbsolute_ofPlace _) hrel, Path.components_ofPlace hall,
    Path.components_ofPlace (List.forall_mem_append.2 ⟨hbase, hstores⟩), List.map_append,
    List.map_append, Bool.eq_iff_iff, List.isPrefixOf_iff_prefix, List.isPrefixOf_iff_prefix,
    List.cons_append, List.cons_prefix_cons, List.append_assoc, List.prefix_append_right_inj]
  simp

/-- A pattern for stores finds the same places. -/
theorem sameOutcome_storeFiles (h : t.SameBelow base t' base') (hplain : ∀ n ∈ base ++ base', IsPlain n)
    (hstores : ∀ n ∈ stores, IsName n) {project project' : Project}
    (hdir : project.storesDirectory = ofPlace (base ++ stores))
    (hdir' : project'.storesDirectory = ofPlace (base' ++ stores)) {pattern : String}
    (hpattern : staysInside (storesPattern stores pattern) = true) :
    SameOutcome (SameIn base base') (project.storeFiles t pattern) (project'.storeFiles t' pattern) := by
  simp only [staysInside, Bool.and_eq_true, Bool.not_eq_true'] at hpattern
  obtain ⟨hrel, hstays⟩ := hpattern
  have hlast := Path.isAbsolute_of_join hrel
  have hstars : (given stores "**").isAbsolute = false :=
    Path.isAbsolute_join_of_relative (Path.isAbsolute_of_inside? (Path.inside?_joined hstores)) (by decide)
  have htext : ∀ {base : Place}, (∀ n ∈ base, IsName n) →
      ((ofPlace (base ++ stores)).joinText "**").joinText pattern =
        (ofPlace base).join (storesPattern stores pattern) := by
    intro base hbase
    rw [joinText_given (List.forall_mem_append.2 ⟨hbase, hstores⟩) hstars]
    exact Path.join_join (Path.text_ofPlace_ne_nil base) hstars hlast
  have hne : (storesPattern stores pattern).text ≠ [] :=
    Path.text_join_ne_nil (.inl (Path.text_join_ne_nil (.inr (by decide))))
  have hfind := Glob.find?_alike h hplain hrel hne hstays
  unfold storeFiles
  rw [hdir, hdir', htext h.isName, htext h.symm.isName]
  generalize Glob.find? t ((ofPlace base).join (storesPattern stores pattern)).text = found at hfind ⊢
  generalize Glob.find? t' ((ofPlace base').join (storesPattern stores pattern)).text = found' at hfind ⊢
  cases hfind with
  | none => exact .error _
  | some hfound => exact .ok (sameIn_of_findsAlike h hfound)

/-- A project has the same sources in two directories with the same files, if the names that lead to the
directories are plain and none is that of installed packages. -/
theorem sameOutcome_sources (h : t.SameBelow base t' base') (hplain : ∀ n ∈ base ++ base', IsPlain n)
    (hpackages : ∀ n ∈ base ++ base', n ≠ "node_modules".toList) {o : Options}
    (ho : o.staysInside = true) {c : Compiler} {dir : Place} (hdir : ∀ n ∈ dir, IsName n)
    (hc : c.staysInside dir = true) :
    SameOutcome (SameIn base base')
      ((o.resolve (ofPlace base)).sources t (c.inDirectory (base ++ dir)))
      ((o.resolve (ofPlace base')).sources t' (c.inDirectory (base' ++ dir))) := by
  obtain ⟨stores, hplace, hinside⟩ := Option.any_eq_true _ _ |>.1 ho
  simp only [Bool.and_eq_true, Bool.not_eq_true', List.all_eq_true] at hinside
  obtain ⟨hgenerated, hpatterns⟩ := hinside
  have hstores := Options.isName_storesPlace hplace
  have hdirectory := Options.storesDirectory_resolve_ofPlace h.isName hplace
  have hdirectory' := Options.storesDirectory_resolve_ofPlace h.symm.isName hplace
  have hfiltered : ∀ place, IsBelow place →
      (o.resolve (ofPlace base')).isGenerated (ofPlace (base' ++ place)) =
        (o.resolve (ofPlace base)).isGenerated (ofPlace (base ++ place)) := by
    intro place hbelow
    rw [isGenerated_ofPlace h.isName hstores hbelow.2 hgenerated (congrArg (Path.joinText · _) hdirectory),
      isGenerated_ofPlace h.symm.isName hstores hbelow.2 hgenerated
        (congrArg (Path.joinText · _) hdirectory')]
  unfold sources
  refine (SameOutcome.mapM fun pattern hpattern => sameOutcome_storeFiles h hplain hstores hdirectory
    hdirectory' (hpatterns pattern hpattern)).bind fun found found' hfound => ?_
  refine (Compiler.sameOutcome_fileList h hplain hdir hpackages hc).bind fun listed listed' hlisted => ?_
  refine .ok (SameIn.filter ?_ fun place hbelow => by rw [hfiltered place hbelow])
  exact ((SameIn.flatten hfound).append hlisted).eraseDups h.isName h.symm.isName

end Project

end Config

namespace Sample

open Files (Tree Place)
open Config (Compiler Options)

/-- The files of a project with one store, from its root on. -/
def storeTree : Tree :=
  ⟨.ofList [
    (["src".toList], .directory),
    (["src", "Stores"].map String.toList, .directory),
    (["src", "Stores", "UserStore.ts"].map String.toList, .file "".toUTF8)]⟩

/-- The files of a project with one source that is no store. -/
def moduleTree : Tree :=
  ⟨.ofList [
    (["src".toList], .directory),
    (["src", "util.ts"].map String.toList, .file "".toUTF8)]⟩

/-- Directories that a project can be in. -/
def app : Place := ["app".toList]

def home : Place := ["home", "me"].map String.toList

def bracketed : Place := ["app[1]".toList]

def packages : Place := ["node_modules".toList]

/-- A configuration that says nothing. -/
def noEntries : Compiler := ⟨⟨[]⟩, none, none, none⟩

/-- The sources of a project that has been moved into a directory. -/
def sourcesIn (t : Tree) (base : Place) : Except Failure (List Path) :=
  (Options.default.resolve (Path.ofPlace base)).sources (t.movedInto base) (noEntries.inDirectory base)

lemma proper_storeTree : storeTree.Proper := by decide +kernel

lemma staysInside_default : Options.default.staysInside = true := by decide +kernel

lemma staysInside_noEntries : noEntries.staysInside [] = true := by decide +kernel

end Sample

namespace Config.Project

open Files (IsName)
open Glob (IsPlain)

/-- Two outcomes with the same places have equally many. -/
lemma length_of_sameOutcome {base base' : Files.Place} {x y : Except Failure (List Path)}
    (h : SameOutcome (SameIn base base') x y) :
    x.toOption.map List.length = y.toOption.map List.length := by
  cases h with
  | error e => rfl
  | ok h =>
    obtain ⟨places, -, rfl, rfl⟩ := h
    simp [placed, Except.toOption]

/-- A project with one store is moved to another place with a plain name. -/
theorem sameOutcome_sources_of_moved :
    (Sample.storeTree.movedInto Sample.app).SameBelow Sample.app
      (Sample.storeTree.movedInto Sample.home) Sample.home ∧
    (∀ n ∈ Sample.app ++ Sample.home, IsPlain n) ∧
    (∀ n ∈ Sample.app ++ Sample.home, n ≠ "node_modules".toList) ∧
    Options.default.staysInside = true ∧ Sample.noEntries.staysInside [] = true ∧
    (Sample.sourcesIn Sample.storeTree Sample.app).toOption.map List.length = some 1 ∧
    SameOutcome (SameIn Sample.app Sample.home) (Sample.sourcesIn Sample.storeTree Sample.app)
      (Sample.sourcesIn Sample.storeTree Sample.home) := by
  have hnames : ∀ n ∈ Sample.app ++ Sample.home, IsName n := by decide
  obtain ⟨happ, hhome⟩ := List.forall_mem_append.1 hnames
  have hsame := Files.Tree.sameBelow_movedInto Sample.proper_storeTree happ hhome
  have hplain : ∀ n ∈ Sample.app ++ Sample.home, IsPlain n := by decide
  have hpackages : ∀ n ∈ Sample.app ++ Sample.home, n ≠ "node_modules".toList := by decide
  have hsources := sameOutcome_sources hsame hplain hpackages Sample.staysInside_default (by simp)
    Sample.staysInside_noEntries
  rw [List.append_nil, List.append_nil] at hsources
  exact ⟨hsame, hplain, hpackages, Sample.staysInside_default, Sample.staysInside_noEntries,
    by decide +kernel, hsources⟩

/-- Brackets in the name of a directory are read as a set of characters, so there the project has no
source. -/
theorem not_sameOutcome_of_brackets :
    (∀ n ∈ Sample.app ++ Sample.bracketed, IsName n) ∧
    (Sample.storeTree.movedInto Sample.app).SameBelow Sample.app
      (Sample.storeTree.movedInto Sample.bracketed) Sample.bracketed ∧
    Options.default.staysInside = true ∧ Sample.noEntries.staysInside [] = true ∧
    (Sample.sourcesIn Sample.storeTree Sample.app).toOption.map List.length = some 1 ∧
    (Sample.sourcesIn Sample.storeTree Sample.bracketed).toOption.map List.length = some 0 ∧
    ¬SameOutcome (SameIn Sample.app Sample.bracketed) (Sample.sourcesIn Sample.storeTree Sample.app)
      (Sample.sourcesIn Sample.storeTree Sample.bracketed) := by
  have hnames : ∀ n ∈ Sample.app ++ Sample.bracketed, IsName n := by decide
  obtain ⟨happ, hbracketed⟩ := List.forall_mem_append.1 hnames
  have hone : (Sample.sourcesIn Sample.storeTree Sample.app).toOption.map List.length = some 1 := by
    decide +kernel
  have hnone : (Sample.sourcesIn Sample.storeTree Sample.bracketed).toOption.map List.length =
      some 0 := by decide +kernel
  refine ⟨hnames, Files.Tree.sameBelow_movedInto Sample.proper_storeTree happ hbracketed,
    Sample.staysInside_default, Sample.staysInside_noEntries, hone, hnone, fun h => ?_⟩
  have hlength := length_of_sameOutcome h
  rw [hone, hnone] at hlength
  cases hlength

/-- In a directory of installed packages the configuration lists nothing. -/
lemma not_sameOutcome_of_packages :
    (∀ n ∈ Sample.app ++ Sample.packages, IsPlain n) ∧
    (Sample.moduleTree.movedInto Sample.app).SameBelow Sample.app
      (Sample.moduleTree.movedInto Sample.packages) Sample.packages ∧
    ¬SameOutcome (SameIn Sample.app Sample.packages) (Sample.sourcesIn Sample.moduleTree Sample.app)
      (Sample.sourcesIn Sample.moduleTree Sample.packages) := by
  have hproper : Sample.moduleTree.Proper := by decide +kernel
  have hlength : (Sample.sourcesIn Sample.moduleTree Sample.app).toOption.map List.length ≠
      (Sample.sourcesIn Sample.moduleTree Sample.packages).toOption.map List.length := by
    decide +kernel
  exact ⟨by decide, Files.Tree.sameBelow_movedInto hproper (by decide) (by decide),
    fun h => hlength (length_of_sameOutcome h)⟩

end Config.Project

end StoreBindings
