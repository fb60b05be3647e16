import StoreBindings.Proofs.Glob.Growth
import StoreBindings.Proofs.Program.Shape

/-!
# Which sources there are in a tree that has been added to

Putting files into a tree does not hide a source, does not move one to another place of the list, and
adds none but files that are new: `sources_of_extends`. Since the patterns of a project are looked at in
the tree that there is, this holds of projects whose patterns are anchored in it: `Anchored`.

An entry of the compiler configuration that names nothing at first can name a directory afterwards. Then
it stands for everything in that directory, which is all new: `expand_cases`.
-/

namespace StoreBindings

/-! ## Lists -/

/-- The repetitions of a first element are left out before those of any other. -/
lemma eraseDups_induction {α : Type} [BEq α] {motive : List α → Prop} (nil : motive [])
    (cons : ∀ a l, motive (l.filter fun b => !b == a) → motive (a :: l)) (l : List α) : motive l := by
  -- the rest of a list is shorter also without the repetitions of its first element
  induction hn : l.length using Nat.strongRecOn generalizing l with
  | ind n ih =>
    cases l with
    | nil => exact nil
    | cons a l =>
      have hle := List.length_filter_le (fun b => !b == a) l
      rw [List.length_cons] at hn
      exact cons a l (ih _ (by omega) _ rfl)

/-- Leaving out elements and leaving out repetitions can be done in either order. -/
lemma filter_eraseDups {α : Type} [BEq α] [LawfulBEq α] (p : α → Bool) (l : List α) :
    l.eraseDups.filter p = (l.filter p).eraseDups := by
  induction l using eraseDups_induction with
  | nil => rfl
  | cons a l hrest =>
    rw [List.filter_filter] at hrest
    rw [List.eraseDups_cons]
    cases hp : p a with
    | true =>
      rw [List.filter_cons_of_pos hp, List.filter_cons_of_pos hp, List.eraseDups_cons,
        List.filter_filter, hrest]
      simp only [Bool.and_comm]
    | false =>
      have hsame : (l.filter fun b => p b && !b == a) = l.filter p := by
        refine List.filter_congr ?_
        intro b _
        cases hb : b == a with
        | false => simp
        | true =>
          rw [eq_of_beq hb, hp]
          rfl
      rw [List.filter_cons_of_neg (by simp [hp]), List.filter_cons_of_neg (by simp [hp]), hrest,
        hsame]

namespace Config

open Files (Tree)

variable {t t' : Tree} {found found' : List Path} {c : Compiler} {project : Project}

/-- What is listed in a tree, and in the tree after it has been added to: the same, and files that are
new, in their normal spelling below the root. -/
structure Lists (t t' : Tree) (found found' : List Path) : Prop where
  old : found'.filter t.isThere = found
  spelled : ∀ p ∈ found', p.IsRooted ∧ p.normalize = p ∧ t'.isFile p = true

namespace Lists

lemma append {more more' : List Path} (h : Lists t t' found found') (hmore : Lists t t' more more') :
    Lists t t' (found ++ more) (found' ++ more') := by
  refine ⟨by rw [List.filter_append, h.old, hmore.old], fun p hp => ?_⟩
  exact (List.mem_append.1 hp).elim (h.spelled p) (hmore.spelled p)

lemma flatten {all all' : List (List Path)} (h : List.Forall₂ (Lists t t') all all') :
    Lists t t' all.flatten all'.flatten := by
  induction h with
  | nil => exact ⟨rfl, by simp⟩
  | cons hfirst _ ih => exact hfirst.append ih

lemma eraseDups (h : Lists t t' found found') : Lists t t' found.eraseDups found'.eraseDups := by
  refine ⟨by rw [filter_eraseDups, h.old], fun p hp => h.spelled p (List.mem_eraseDups.1 hp)⟩

lemma filter (h : Lists t t' found found') (q : Path → Bool) :
    Lists t t' (found.filter q) (found'.filter q) := by
  refine ⟨?_, fun p hp => h.spelled p (List.mem_filter.1 hp).1⟩
  rw [← h.old, List.filter_filter, List.filter_filter]
  simp only [Bool.and_comm]

end Lists

/-- Files of the tree that are found by one search. -/
lemma lists_of_found (hext : t.Extends t') (hproper : t.Proper)
    (hold : found'.filter t.isThere = found) {q q' : Path → Bool}
    (hq : ∀ p, p.normalize = p → t.isFile p = true → q' p = q p)
    (hspelled : ∀ p ∈ found', p.IsRooted) :
    Lists t t' ((found.map Path.normalize).filter fun p => t.isFile p && q p)
      ((found'.map Path.normalize).filter fun p => t'.isFile p && q' p) := by
  -- first the old tree finds what was there of the new list, then all of it is spelled from the
  -- root
  constructor
  · rw [List.filter_filter, ← hold, List.filter_map, List.filter_map, List.filter_filter]
    congr 1
    refine List.filter_congr ?_
    intro p _
    have hthere : t.isThere p = t.isThere p.normalize :=
      Tree.isThere_eq_of_target (Path.target_normalize p).symm
    simp only [Function.comp_apply]
    rw [hthere]
    cases hp : t.isThere p.normalize with
    | false => simp
    | true =>
      rw [hext.isFile_of_isThere hproper (Path.normalize_normalize p) hp]
      cases hfile : t.isFile p.normalize with
      | false => simp
      | true => simp [hq p.normalize (Path.normalize_normalize p) hfile]
  · intro p hp
    obtain ⟨hmem, hkeep⟩ := List.mem_filter.1 hp
    obtain ⟨r, hr, rfl⟩ := List.mem_map.1 hmem
    rw [Bool.and_eq_true] at hkeep
    exact ⟨(hspelled r hr).normalize, Path.normalize_normalize r, hkeep.1⟩

/-! ## Entries of the compiler configuration -/

namespace Compiler

/-- What stands for everything in a path that is a directory. -/
lemma text_everything (dir : Path) :
    ((dir.joinText "**").joinText "*").text = dir.lead ++ "**/*".toList := by
  have hinner : (dir.joinText "**").text = dir.lead ++ "**".toList := Path.text_join dir rfl
  have houter : ((dir.joinText "**").joinText "*").text = (dir.joinText "**").lead ++ "*".toList :=
    Path.text_join _ rfl
  rw [houter, Path.lead_eq, hinner, if_neg (by simp)]
  simp

/-- The spelling of everything in a directory. -/
lemma exists_everythingIn {whole : Path} (h : whole.text ≠ []) : ∃ w,
    (whole.text = w ∧ w.getLast? ≠ some '/' ∨ whole.text = w ++ ['/']) ∧
      ((whole.joinText "**").joinText "*").text = Glob.everythingIn w := by
  rw [text_everything, Path.lead_eq]
  by_cases hlast : whole.text.getLast? = some '/'
  · obtain ⟨w, hw⟩ := List.getLast?_eq_some_iff.1 hlast
    refine ⟨w, .inr hw, ?_⟩
    rw [if_pos (.inr hlast), hw]
    simp [Glob.everythingIn]
  · refine ⟨whole.text, .inl ⟨rfl, hlast⟩, ?_⟩
    rw [if_neg (by simp [h, hlast])]
    simp [Glob.everythingIn]

lemma isPlain_joinText {dir : Path} {pattern : String} (hdir : Glob.IsPlain dir.text)
    (hpattern : Glob.IsPlain pattern.toList) : Glob.IsPlain (dir.joinText pattern).text := by
  cases hrel : (Path.ofString pattern).isAbsolute with
  | true =>
    rw [Path.joinText, Path.join_of_isAbsolute dir hrel]
    exact hpattern
  | false =>
    have hslash : Glob.IsPlain ['/'] := by decide
    rw [Path.joinText, Path.text_join dir hrel, Path.lead_eq]
    split
    · exact hdir.append hpattern
    · exact (hdir.append hslash).append hpattern

/-- An entry whose text stands for everything in a directory that is new. -/
structure Turns (t t' : Tree) (dir : Path) (pattern : String) (w : List Char) : Prop where
  ne_nil : w ≠ []
  plain : Glob.IsPlain w
  whole : (dir.joinText pattern).text = w ∧ w.getLast? ≠ some '/' ∨
    (dir.joinText pattern).text = w ++ ['/']
  before : expand t dir pattern = (dir.joinText pattern).text
  after : expand t' dir pattern = Glob.everythingIn w
  isDirectory : t.isDirectory (dir.joinText pattern) = false
  isDirectory' : t'.isDirectory (dir.joinText pattern) = true

/-- An entry stands for the same as before, or it has come to name a directory. -/
theorem expand_cases (hk : t.Keeps t') {dir : Path} (hdir : Glob.IsPlain dir.text)
    (pattern : String) :
    expand t' dir pattern = expand t dir pattern ∨ ∃ w, Turns t t' dir pattern w := by
  unfold expand
  dsimp only
  cases hwild : pattern.toList.any fun c => c == '*' || c == '?' || c == '[' with
  | true =>
    left
    rw [Bool.not_true, Bool.false_and, Bool.false_and]
  | false =>
    rw [Bool.not_false, Bool.true_and, Bool.true_and]
    cases hbefore : t.isDirectory (dir.joinText pattern) with
    | true =>
      left
      rw [hk.isDirectory (Tree.reaches_of_isDirectory hbefore), hbefore]
    | false =>
      cases hafter : t'.isDirectory (dir.joinText pattern) with
      | false => exact .inl rfl
      | true =>
        right
        have htext := Tree.text_ne_nil_of_reaches (Tree.reaches_of_isDirectory hafter)
        obtain ⟨w, hw, hall⟩ := exists_everythingIn htext
        have hwhole := isPlain_joinText hdir (Glob.isPlain_iff.2 hwild)
        refine ⟨w, ?_, ?_, hw, ?_, ?_, hbefore, hafter⟩
        · -- the root is there from the beginning
          rintro rfl
          rcases hw with ⟨hnil, -⟩ | hroot
          · exact htext hnil
          · have hroot' : dir.joinText pattern = ⟨['/']⟩ := by
              rw [List.nil_append] at hroot
              rw [← hroot]
            rw [hroot', Tree.isDirectory_iff.2 ⟨rfl, rfl⟩] at hbefore
            cases hbefore
        · rcases hw with ⟨heq, -⟩ | heq
          · rw [← heq]
            exact hwhole
          · exact hwhole.of_subset (by rw [heq]; exact List.subset_append_left _ _)
        · unfold expand
          simp only [hbefore, Bool.and_false, Bool.false_eq_true, if_false]
        · unfold expand
          simp only [hwild, hafter, Bool.not_false, Bool.and_self, if_true, hall]

lemma follow_of_empty {place : Files.Place} (hd : t.at? place = some .directory)
    {names : List (List Char)} (h : ∀ e ∈ names, e = []) : t.follow place names = .ok place := by
  induction names with
  | nil => rfl
  | cons e names ih =>
    have hstay : Files.descend place e = place := by
      rw [h e List.mem_cons_self]
      rfl
    rw [Tree.follow_cons_of_directory hd, hstay]
    exact ih fun e' he' => h e' (List.mem_cons_of_mem _ he')

/-- A path that has come to lead to a directory leads nowhere by its names before. -/
lemma isDirectory_of_names (hk : t.Keeps t') {whole : Path} {lead names trail : List (List Char)}
    (hpieces : Path.pieces whole.text = lead ++ names ++ trail)
    (hempty : ∀ e ∈ lead ++ trail, e = []) {place : Files.Place}
    (hf : t.follow [] names = .ok place) (hsome : (t.at? place).isSome = true)
    (hafter : t'.isDirectory whole = true) : t.isDirectory whole = true := by
  obtain ⟨hl, hd⟩ := Tree.isDirectory_iff.1 hafter
  have hlead : ∀ u : Tree, u.follow [] lead = .ok [] := fun u =>
    follow_of_empty (Tree.at?_nil u) fun e he => hempty e (List.mem_append_left _ he)
  -- the names lead to one place in both trees
  have hplace : place = whole.target := by
    obtain ⟨-, hf'⟩ := Tree.locate_eq_ok_iff.1 hl
    rw [hpieces, List.append_assoc, Tree.follow_append_of (hlead t'),
      Tree.follow_append_of (Tree.follow_of_keeps hk hf)] at hf'
    cases trail with
    | nil => exact Except.ok.inj hf'
    | cons e trail =>
      have hdir := Tree.directory_of_follow_cons hf'
      rw [follow_of_empty hdir fun e he => hempty e (List.mem_append_right _ he)] at hf'
      exact Except.ok.inj hf'
  subst hplace
  have hdir : t.at? whole.target = some .directory := by
    cases he : t.at? whole.target with
    | none => rw [he] at hsome; cases hsome
    | some e =>
      cases e with
      | directory => rfl
      | file c =>
        obtain ⟨c', hc'⟩ := (hk whole.target).2 c he
        rw [hd] at hc'
        cases hc'
  refine Tree.isDirectory_iff.2 ⟨Tree.locate_eq_ok_iff.2 ⟨(Tree.locate_eq_ok_iff.1 hl).1, ?_⟩, hdir⟩
  rw [hpieces, List.append_assoc, Tree.follow_append_of (hlead t), Tree.follow_append_of hf]
  exact follow_of_empty hdir fun e he => hempty e (List.mem_append_right _ he)

variable {dir : Path} {pattern : String} {w : List Char}

/-- An entry that has come to name a directory finds nothing in it that was there before. -/
lemma Turns.finds_new (h : Turns t t' dir pattern w) (hext : t.Extends t') (hproper : t.Proper)
    (hanchored : Glob.Search.isAnchoredText t (expand t dir pattern) = true)
    (hfound : Glob.find? t (expand t dir pattern) = some found) : found = [] ∧
      ∃ found', Glob.find? t' (expand t' dir pattern) = some found' ∧
        found'.filter t.isThere = [] ∧ ∀ r ∈ found', r.IsRooted := by
  obtain ⟨lead, names, trail, qs, hpieces, hempty, hslash, hwhole, hall, hqs⟩ :=
    Glob.exists_literals h.ne_nil h.plain h.whole
  -- whatever were found behind the names would be in the directory
  have hnothing : ∀ {cs : List Char} {more : List Glob.Pattern} {found : List Path},
      (Glob.Search.ofText? cs).map Glob.Search.parts = some (Glob.literals names ++ more) →
      Glob.find? t cs = some found → found = [] := by
    intro cs more found hparts hfound
    obtain ⟨s, hs, rfl⟩ := Option.map_eq_some_iff.1 hfound
    rw [hs, Option.map_some, Option.some.injEq] at hparts
    refine List.eq_nil_iff_forall_not_mem.2 fun r hr => ?_
    unfold Glob.Search.paths at hr
    rw [hparts] at hr
    obtain ⟨place, hf, hsome⟩ := Glob.Search.exists_place_of_mem_enter hproper hslash
      (Glob.Search.reaches_root t) hr
    have hdir := isDirectory_of_names hext.keeps hpieces hempty hf hsome h.isDirectory'
    rw [h.isDirectory] at hdir
    cases hdir
  rw [h.before] at hanchored hfound
  rw [h.after]
  refine ⟨hnothing (by rw [hwhole, List.append_nil]) hfound, ?_⟩
  obtain ⟨s, hs, hsparts⟩ := Option.map_eq_some_iff.1 hwhole
  obtain ⟨s', hs', hsparts'⟩ := Option.map_eq_some_iff.1 hall
  have hanchored' : Glob.Search.isAnchoredText t (Glob.everythingIn w) = true := by
    unfold Glob.Search.isAnchoredText at hanchored ⊢
    rw [hs, Option.all_some, hsparts] at hanchored
    rw [hs', Option.all_some, hsparts']
    exact Glob.Search.isAnchored_append (fun q hq => (hqs q hq).2) hanchored
  obtain ⟨found', hfound', hold, hrooted, -⟩ := Glob.find?_of_extends hext hproper hanchored'
    (show Glob.find? t (Glob.everythingIn w) = some (s'.paths t) by rw [Glob.find?, hs']; rfl)
  refine ⟨found', hfound', ?_, fun r hr => (hrooted r hr).1⟩
  rw [hold]
  exact hnothing hall (by rw [Glob.find?, hs']; rfl)

/-- The text of an entry that has come to name a directory is no file's that was there before. -/
lemma Turns.matchesText_before (h : Turns t t' dir pattern w) (hk : t.Keeps t')
    {x : Glob.Pattern} (hx : Glob.compile? (expand t dir pattern) = some x) {p : Path}
    (hp : t.isFile p = true) : Glob.matchesText x p.text = false := by
  have hwhole : Glob.IsPlain (dir.joinText pattern).text := by
    rcases h.whole with ⟨heq, -⟩ | heq
    · rw [heq]
      exact h.plain
    · rw [heq]
      exact h.plain.append (by decide)
  rw [h.before, Glob.compile?_of_isPlain hwhole, Option.some.injEq] at hx
  rw [← Bool.not_eq_true, ← hx]
  intro hmatch
  -- a file does not turn into a directory
  have hpath : p = dir.joinText pattern := congrArg Path.mk (Glob.eq_of_matchesText hmatch)
  rw [hpath] at hp
  have hreach : t.reaches (dir.joinText pattern) = true := by
    obtain ⟨content, hread⟩ := Tree.isFile_iff.1 hp
    obtain ⟨hl, hat⟩ := Tree.read_eq_ok_iff.1 hread
    exact Tree.reaches_iff.2 ⟨hl, by rw [hat]; rfl⟩
  have hdir := hk.isDirectory hreach
  rw [h.isDirectory, h.isDirectory'] at hdir
  cases hdir

/-- No file that was there before is in a directory that is new. -/
lemma Turns.matchesText_after (h : Turns t t' dir pattern w) (hk : t.Keeps t')
    {x : Glob.Pattern} (hx : Glob.compile? (expand t' dir pattern) = some x) {p : Path}
    (hp : t.isFile p = true) : Glob.matchesText x p.text = false := by
  rw [← Bool.not_eq_true]
  intro hmatch
  -- the path of a file leads through all directories on the way
  obtain ⟨ts, hts⟩ := Glob.exists_compile?_everythingIn h.plain
  rw [h.after, hts, Option.some.injEq] at hx
  rw [← hx] at hmatch
  obtain ⟨rest, hrest⟩ := Glob.prefix_of_matchesText hmatch
  obtain ⟨content, hread⟩ := Tree.isFile_iff.1 hp
  have hf := (Tree.locate_eq_ok_iff.1 (Tree.read_eq_ok_iff.1 hread).1).2
  rw [← hrest, List.append_assoc, List.singleton_append, Path.pieces_append_slash] at hf
  obtain ⟨place, hplace, hd⟩ := Tree.directory_of_follow_append (Path.pieces_ne_nil rest) hf
  have hat : (t.at? place).isSome = true := by rw [hd]; rfl
  have hdir : t.isDirectory (dir.joinText pattern) = true := by
    rcases h.whole with ⟨heq, -⟩ | heq
    · have hpieces : Path.pieces (dir.joinText pattern).text = [] ++ Path.pieces w ++ [] := by
        rw [heq, List.nil_append, List.append_nil]
      exact isDirectory_of_names hk hpieces (by simp) hplace hat h.isDirectory'
    · have hpieces : Path.pieces (dir.joinText pattern).text = [] ++ Path.pieces w ++ [[]] := by
        rw [heq, List.nil_append, Path.pieces_append_slash]
        rfl
      exact isDirectory_of_names hk hpieces (by simp) hplace hat h.isDirectory'
  rw [h.isDirectory] at hdir
  cases hdir

/-! ## What the compiler configuration lists -/

/-- An entry finds what it found before, in the same order, and besides only what is new. -/
lemma exists_found (hext : t.Extends t') (hproper : t.Proper) (hdir : Glob.IsPlain dir.text)
    (hanchored : Glob.Search.isAnchoredText t (expand t dir pattern) = true)
    (hfound : Glob.find? t (expand t dir pattern) = some found) :
    ∃ found', Glob.find? t' (expand t' dir pattern) = some found' ∧
      found'.filter t.isThere = found ∧ ∀ r ∈ found', r.IsRooted := by
  rcases expand_cases hext.keeps hdir pattern with heq | ⟨w, hturns⟩
  · rw [heq]
    obtain ⟨found', hfound', hold, hrooted, -⟩ := Glob.find?_of_extends hext hproper hanchored hfound
    exact ⟨found', hfound', hold, fun r hr => (hrooted r hr).1⟩
  · obtain ⟨hnil, hnew⟩ := hturns.finds_new hext hproper hanchored hfound
    rw [hnil]
    exact hnew

/-- The entries that are left out have to be patterns, each of them. -/
lemma exclusions_eq_ok_iff {xs : List Glob.Pattern} : exclusions t c = .ok xs ↔
    List.Forall₂ (fun pattern x => Glob.compile? (expand t c.directory pattern) = some x)
      (c.excludes.getD []) xs := by
  rw [exclusions, mapM_eq_ok_iff]
  constructor
  · refine List.Forall₂.imp fun pattern x hx => ?_
    split at hx
    · next hsome => rw [hsome, Except.ok.inj hx]
    · cases hx
  · refine List.Forall₂.imp fun pattern x hx => ?_
    rw [hx]

/-- A pattern leaves out the same files of a tree as another. -/
def LeavesOutSame (t : Tree) (x x' : Glob.Pattern) : Prop :=
  ∀ p, t.isFile p = true → Glob.matchesText x' p.text = Glob.matchesText x p.text

/-- The entries that are left out are patterns also afterwards, and leave out the same files of those
that were there before. -/
lemma exists_exclusions (hk : t.Keeps t') (hdir : Glob.IsPlain c.directory.text)
    {xs : List Glob.Pattern} (h : exclusions t c = .ok xs) :
    ∃ xs', exclusions t' c = .ok xs' ∧ List.Forall₂ (LeavesOutSame t) xs xs' := by
  have hstep : ∀ pattern x, Glob.compile? (expand t c.directory pattern) = some x →
      ∃ x', Glob.compile? (expand t' c.directory pattern) = some x' ∧ LeavesOutSame t x x' := by
    intro pattern x hcompiled
    rcases expand_cases hk hdir pattern with heq | ⟨w, hturns⟩
    · exact ⟨x, by rw [heq, hcompiled], fun _ _ => rfl⟩
    · obtain ⟨ts, hts⟩ := Glob.exists_compile?_everythingIn hturns.plain
      rw [← hturns.after] at hts
      refine ⟨_, hts, fun p hp => ?_⟩
      rw [hturns.matchesText_before hk hcompiled hp, hturns.matchesText_after hk hts hp]
  rw [exclusions_eq_ok_iff] at h
  simp only [exclusions_eq_ok_iff]
  generalize c.excludes.getD [] = patterns at h ⊢
  -- an entry turns only if a directory appears where nothing was, and then nothing old is left out
  -- by it
  induction h with
  | nil => exact ⟨[], .nil, .nil⟩
  | cons hcompiled _ ih =>
    obtain ⟨x', hcompiled', hsame⟩ := hstep _ _ hcompiled
    obtain ⟨xs', hxs', hall⟩ := ih
    exact ⟨x' :: xs', .cons hcompiled' hxs', .cons hsame hall⟩

lemma any_matchesText_eq {xs xs' : List Glob.Pattern} (h : List.Forall₂ (LeavesOutSame t) xs xs')
    {p : Path} (hp : t.isFile p = true) :
    xs'.any (fun x => Glob.matchesText x p.text) = xs.any fun x => Glob.matchesText x p.text := by
  induction h with
  | nil => rfl
  | cons hfirst _ ih => rw [List.any_cons, List.any_cons, hfirst p hp, ih]

/-- An entry adds what it added before, in the same order, and besides only what is new. -/
lemma exists_included (hext : t.Extends t') (hproper : t.Proper)
    (hdir : Glob.IsPlain c.directory.text)
    (hanchored : Glob.Search.isAnchoredText t (expand t c.directory pattern) = true)
    {xs xs' : List Glob.Pattern} (hxs : List.Forall₂ (LeavesOutSame t) xs xs')
    (h : included t c xs pattern = .ok found) :
    ∃ found', included t' c xs' pattern = .ok found' ∧ Lists t t' found found' := by
  unfold included at h
  split at h
  · cases h
  · next all hall =>
    obtain ⟨all', hall', hold, hrooted⟩ := exists_found hext hproper hdir hanchored hall
    refine ⟨_, by unfold included; rw [hall'], ?_⟩
    rw [← Except.ok.inj h]
    simp only [Bool.and_assoc]
    refine lists_of_found hext hproper hold ?_ hrooted
    intro p _ hp
    rw [any_matchesText_eq hxs hp]

/-- Of the files that are named one by one, those that were there before are listed as before. -/
lemma lists_named (hext : t.Extends t') (hproper : t.Proper)
    (hrooted : ∀ file ∈ c.files.getD [], (c.directory.joinText file).IsRooted) :
    Lists t t' (named t c) (named t' c) := by
  -- what is named and was there before is a file only if it was one
  constructor
  · unfold named
    rw [List.filter_filter]
    refine List.filter_congr ?_
    intro p hp
    obtain ⟨file, -, rfl⟩ := List.mem_map.1 hp
    cases hthere : t.isThere (c.directory.joinText file).normalize with
    | true =>
      rw [hext.isFile_of_isThere hproper (Path.normalize_normalize _) hthere, Bool.true_and]
    | false =>
      cases hfile : t.isFile (c.directory.joinText file).normalize with
      | false => rw [Bool.false_and]
      | true =>
        rw [Tree.isThere_of_isFile hfile] at hthere
        cases hthere
  · intro p hp
    obtain ⟨hmem, hfile⟩ := List.mem_filter.1 hp
    obtain ⟨file, hentry, rfl⟩ := List.mem_map.1 hmem
    exact ⟨(hrooted file hentry).normalize, Path.normalize_normalize _, hfile⟩

end Compiler

/-! ## The sources of a project -/

/-- Whether the patterns of a configuration are looked at: if there are some, or if no file is named. -/
def Compiler.LooksAtPatterns (c : Compiler) : Prop := ¬(c.includes = none ∧ c.files ≠ none)

instance (c : Compiler) : Decidable c.LooksAtPatterns := inferInstanceAs (Decidable (¬(_ ∧ _)))

/-- The patterns of a project and the files that it names stay where they are when the tree is added to:
what leads up does so from a directory that is there, nothing leads above the root, and the directory
that the entries are relative to is spelled without wildcards. -/
structure Anchored (t : Tree) (project : Project) (c : Compiler) : Prop where
  stores : ∀ pattern ∈ project.filePatterns, Glob.Search.isAnchoredText t
    ((project.storesDirectory.joinText "**").joinText pattern).text = true
  includes : c.LooksAtPatterns → ∀ pattern ∈ c.includes.getD ["**/*"],
    Glob.Search.isAnchoredText t (Compiler.expand t c.directory pattern) = true
  files : ∀ file ∈ c.files.getD [], (c.directory.joinText file).IsRooted
  plain : Glob.IsPlain c.directory.text

instance (t : Tree) (project : Project) (c : Compiler) : Decidable (Anchored t project c) :=
  decidable_of_iff (_ ∧ _ ∧ _ ∧ _)
    ⟨fun ⟨hstores, hincludes, hfiles, hplain⟩ => ⟨hstores, hincludes, hfiles, hplain⟩,
      fun h => ⟨h.stores, h.includes, h.files, h.plain⟩⟩

namespace Compiler

lemma fileList_eq_ok_iff : fileList t c = .ok found ↔
    ¬c.LooksAtPatterns ∧ found = (named t c).eraseDups ∨
      c.LooksAtPatterns ∧ ∃ xs all, exclusions t c = .ok xs ∧
        (c.includes.getD ["**/*"]).mapM (included t c xs) = .ok all ∧
        found = (named t c ++ all.flatten).eraseDups := by
  unfold fileList
  split
  · next hincludes hfiles =>
    unfold LooksAtPatterns
    rw [hincludes, hfiles]
    simp [eq_comm]
  · next hnot =>
    have hlooked : c.LooksAtPatterns := by
      rintro ⟨hincludes, hfiles⟩
      obtain ⟨files, hfiles⟩ := Option.ne_none_iff_exists'.1 hfiles
      exact hnot files hincludes hfiles
    simp only [bind_eq_ok_iff, hlooked, not_true_eq_false, false_and, false_or, true_and]
    simp only [pure, Except.pure, Except.ok.injEq, @eq_comm _ _ found, exists_and_left]

lemma exists_fileList (hext : t.Extends t') (hproper : t.Proper)
    (hanchored : Anchored t project c) (h : c.fileList t = .ok found) :
    ∃ found', c.fileList t' = .ok found' ∧ Lists t t' found found' := by
  have hnamed := lists_named hext hproper hanchored.files
  rcases fileList_eq_ok_iff.1 h with ⟨hnot, rfl⟩ | ⟨hlooked, xs, all, hxs, hall, rfl⟩
  · exact ⟨_, fileList_eq_ok_iff.2 (.inl ⟨hnot, rfl⟩), hnamed.eraseDups⟩
  · obtain ⟨xs', hxs', hsame⟩ := exists_exclusions hext.keeps hanchored.plain hxs
    obtain ⟨all', hall', hrelated⟩ := exists_mapM_of_ok (R := Lists t t')
      (g := included t' c xs') hall fun pattern hpattern listed hlisted =>
        exists_included hext hproper hanchored.plain
          (hanchored.includes hlooked pattern hpattern) hsame hlisted
    refine ⟨_, fileList_eq_ok_iff.2 (.inr ⟨hlooked, xs', all', hxs', hall', rfl⟩), ?_⟩
    exact (hnamed.append (.flatten hrelated)).eraseDups

/-! ## The compiler configuration itself -/

section Finding

variable {place : Files.Place}

/-- The place where the compiler configuration of a directory is. -/
def filePlace (place : Files.Place) : Files.Place := place ++ [fileName.toList]

lemma isName_fileName : Files.IsName fileName.toList := by decide

lemma target_candidate (h : ∀ n ∈ place, Files.IsName n) :
    ((Path.ofPlace place).joinText fileName).target = filePlace place := by
  have htext := Path.text_ofPlace_ne_nil place
  have hjoin := Path.target_join_of_isName htext isName_fileName
  rw [Path.target_ofPlace h] at hjoin
  exact hjoin

/-- No compiler configuration appears that is not new. -/
lemma isFile_candidate (hext : t.Extends t') (hproper : t.Proper)
    (h : ∀ n ∈ place, Files.IsName n) (hback : Tree.KeepsFile t' t (filePlace place)) :
    t'.isFile ((Path.ofPlace place).joinText fileName) =
      t.isFile ((Path.ofPlace place).joinText fileName) := by
  have htext := Path.text_ofPlace_ne_nil place
  by_cases hthere : t.isThere ((Path.ofPlace place).joinText fileName) = true
  · -- it is there, so it is in a directory, and the path leads to it
    have hsome : (t.at? (filePlace place)).isSome = true := by
      rw [← target_candidate h]
      exact hthere
    have hd := (hproper.entry hsome).2
    have hdir := hproper.isDirectory_ofPlace h hd
    exact hext.keeps.isFile
      ((Tree.reaches_join_iff htext isName_fileName.2.2.2).2 ⟨hdir, hthere⟩)
  · rw [Bool.eq_iff_iff]
    constructor
    · intro hfile
      obtain ⟨content, hread⟩ := Tree.isFile_iff.1 hfile
      have hat := (Tree.read_eq_ok_iff.1 hread).2
      rw [target_candidate h] at hat
      have hold : t.isThere ((Path.ofPlace place).joinText fileName) = true := by
        unfold Tree.isThere
        rw [target_candidate h, hback content hat]
        rfl
      exact absurd hold hthere
    · intro hfile
      exact absurd (Tree.isThere_of_isFile hfile) hthere

lemma findWithin?_of_extends (hext : t.Extends t') (hproper : t.Proper) (bound : Nat)
    (h : ∀ n ∈ place, Files.IsName n)
    (hback : ∀ dir, dir <+: place → Tree.KeepsFile t' t (filePlace dir)) :
    findWithin? t' bound (Path.ofPlace place) = findWithin? t bound (Path.ofPlace place) := by
  induction bound generalizing place with
  | zero => rfl
  | succ bound ih =>
    have hfile := isFile_candidate hext hproper h (hback place (List.prefix_refl place))
    unfold findWithin?
    dsimp only
    rw [hfile, Path.parent?_ofPlace h]
    by_cases hne : place = []
    · rw [if_pos hne]
      rfl
    · rw [if_neg hne, Option.bind_some, Option.bind_some,
        ih (fun n hn => h n (List.dropLast_subset place hn))
          fun dir hdir => hback dir (hdir.trans (List.dropLast_prefix place))]

/-- What is found is a file in the directory or in one above it. -/
lemma exists_prefix_of_findWithin? {bound : Nat} {file : Path}
    (h : ∀ n ∈ place, Files.IsName n)
    (hfound : findWithin? t bound (Path.ofPlace place) = some file) :
    t.isFile file = true ∧ ∃ dir, dir <+: place ∧ file.target = filePlace dir := by
  -- the search goes up by one directory at a time
  induction bound generalizing place with
  | zero => cases hfound
  | succ bound ih =>
    unfold findWithin? at hfound
    dsimp only at hfound
    split at hfound
    · next hfile =>
      rw [← Option.some.inj hfound]
      exact ⟨hfile, place, List.prefix_refl place, target_candidate h⟩
    · rw [Path.parent?_ofPlace h] at hfound
      by_cases hne : place = []
      · rw [if_pos hne] at hfound
        cases hfound
      · rw [if_neg hne, Option.bind_some] at hfound
        obtain ⟨hfile, dir, hdir, htarget⟩ :=
          ih (fun n hn => h n (List.dropLast_subset place hn)) hfound
        exact ⟨hfile, dir, hdir.trans (List.dropLast_prefix place), htarget⟩

/-- The compiler configuration of a directory stays as it is if no file changes where it is looked
for. -/
lemma load_of_extends (hext : t.Extends t') (hproper : t.Proper) {root : Path}
    (hroot : root.IsRooted) (hnormal : root.normalize = root)
    (hkeep : ∀ dir, dir <+: root.target →
      Tree.KeepsFile t t' (filePlace dir) ∧ Tree.KeepsFile t' t (filePlace dir)) :
    load t' root = load t root := by
  have hnames := Path.isName_of_mem_target root
  have hfind : find t' root = find t root := by
    have hplace : root = Path.ofPlace root.target := by
      rw [← hroot.normalize_eq, hnormal]
    unfold find
    rw [hplace,
      findWithin?_of_extends hext hproper _ hnames fun dir hdir => (hkeep dir hdir).2]
  unfold load
  rw [hfind]
  cases hfound : find t root with
  | error e => rfl
  | ok file =>
    -- the file that is found is in the root or above it, where both trees hold the same
    have hsome : findWithin? t (root.components.length + 1) (Path.ofPlace root.target) = some file := by
      rw [← hroot.normalize_eq, hnormal]
      unfold find at hfound
      split at hfound
      · next hsome => rw [hsome, Except.ok.inj hfound]
      · cases hfound
    obtain ⟨hfile, dir, hdir, htarget⟩ := exists_prefix_of_findWithin? hnames hsome
    obtain ⟨content, hread⟩ := Tree.isFile_iff.1 hfile
    have hread' : t'.read file = .ok content := by
      refine Tree.read_of_keeps hext.keeps ?_ hread
      rw [htarget]
      exact (hkeep dir hdir).1
    have htext : t'.readText file = t.readText file := by
      unfold Tree.readText
      rw [hread, hread']
    simp only [bind, Except.bind, htext]

end Finding

end Compiler

namespace Project

/-- Looking for files before or after paths are given their normal spelling is the same. -/
lemma map_filter_isFile (hproper : t.Proper) (hreach : ∀ r ∈ found, t.reaches r = true) :
    (found.filter t.isFile).map Path.normalize =
      (found.map Path.normalize).filter fun p => t.isFile p && true := by
  rw [List.filter_map]
  congr 1
  refine List.filter_congr ?_
  intro r hr
  simp only [Function.comp_apply, Bool.and_true]
  rw [hproper.isFile_normalize_of_reaches (hreach r hr)]

lemma exists_storeFiles (hext : t.Extends t') (hproper : t.Proper) {pattern : String}
    (hanchored : Glob.Search.isAnchoredText t
      ((project.storesDirectory.joinText "**").joinText pattern).text = true)
    (h : project.storeFiles t pattern = .ok found) :
    ∃ found', project.storeFiles t' pattern = .ok found' ∧ Lists t t' found found' := by
  unfold storeFiles at h
  split at h
  · cases h
  · next all hall =>
    obtain ⟨all', hall', hold, hrooted, hreach⟩ := Glob.find?_of_extends hext hproper hanchored hall
    refine ⟨_, by unfold storeFiles; rw [hall'], ?_⟩
    rw [← Except.ok.inj h, map_filter_isFile hproper hreach,
      map_filter_isFile (hext.proper hproper) fun r hr => (hrooted r hr).2]
    exact lists_of_found hext hproper hold (fun _ _ _ => rfl) fun r hr => (hrooted r hr).1

lemma sources_eq_ok_iff : project.sources t c = .ok found ↔
    ∃ stores listed, project.filePatterns.mapM (project.storeFiles t) = .ok stores ∧
      c.fileList t = .ok listed ∧
      found = (stores.flatten ++ listed).eraseDups.filter fun path => !project.isGenerated path := by
  unfold sources
  simp only [bind_eq_ok_iff, pure, Except.pure, Except.ok.injEq, @eq_comm _ _ found,
    exists_and_left]

/-- In a tree that has been added to, a project whose patterns are anchored has the sources that it
had, in the same order, and besides only such as are new. -/
theorem sources_of_extends (hext : t.Extends t') (hproper : t.Proper)
    (hanchored : Anchored t project c) (h : project.sources t c = .ok found) :
    ∃ found', project.sources t' c = .ok found' ∧ Lists t t' found found' := by
  obtain ⟨stores, listed, hstores, hlisted, rfl⟩ := sources_eq_ok_iff.1 h
  obtain ⟨stores', hstores', hrelated⟩ := exists_mapM_of_ok (R := Lists t t')
    (g := project.storeFiles t') hstores fun pattern hpattern _ hfound =>
      exists_storeFiles hext hproper (hanchored.stores pattern hpattern) hfound
  obtain ⟨listed', hlisted', hlists⟩ := Compiler.exists_fileList hext hproper hanchored hlisted
  refine ⟨_, sources_eq_ok_iff.2 ⟨stores', listed', hstores', hlisted', rfl⟩, ?_⟩
  exact ((Lists.flatten hrelated).append hlists).eraseDups.filter _

end Project

end Config

end StoreBindings
