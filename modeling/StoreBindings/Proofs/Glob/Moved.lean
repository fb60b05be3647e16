import StoreBindings.Proofs.Files.Moved
import StoreBindings.Proofs.Glob.Finding

/-!
# Looking for files in two directories

A pattern behind the name of a directory finds the same files in this directory as behind the name of
another one in that other one, if the same files are in both of them: `find?_alike`. The names of the
directories have to be plain, since they are read as a part of the pattern. And the pattern may not lead
above the directory: `staysWithin`.

The proof goes through the four ways in which a walk goes on, in both directories at once
(`alike_enter` and so on), and `alike_walk` puts them together.
-/

namespace StoreBindings.Glob

open Files (Tree Place IsName)
open StoreBindings.Path (ofPlace inside? insideStep?)

/-! ## Patterns that stay inside -/

/-- Whether a part can match without a step down. -/
def stays (p : Pattern) : Bool :=
  isRecursive p || literal? p = some [] || (p.head? = some (.char '.') && matchesText p ['.'])

/-- How many directories a walk is at least below where it began, behind one more part of the pattern;
`none` if the part can lead above. -/
def depthAfter? (depth : Nat) (p : Pattern) : Option Nat :=
  if leadsUp p then if depth = 0 then none else some (depth - 1)
  else if stays p then some depth
  else some (depth + 1)

/-- No part leads above where a walk begins, but perhaps the last one: behind that there is no file. -/
def staysWithin (depth : Nat) (ps : List Pattern) : Bool :=
  (ps.dropLast.foldlM depthAfter? depth).isSome

/-- The names by which a walk can go on where it meets a part of the pattern. -/
def Leads (p : Pattern) (name : List Char) : Prop :=
  IsName name ∨ literal? p = some name ∨ p.head? = some (.char '.') ∧ matchesText p name = true

variable {p q : Pattern} {ps rest : List Pattern} {name : List Char} {place place' : Place}
  {depth depth' : Nat}

/-- A part by which a walk goes on to `..` leads up. -/
lemma leadsUp_of_leads (h : Leads p ['.', '.']) : leadsUp p = true := by
  rcases h with hname | hlit | ⟨hhead, hmatch⟩
  · exact absurd rfl hname.2.2.1
  · rw [literal?_eq_some_iff.1 hlit]
    decide
  · rw [leadsUp, hmatch, Bool.and_true]
    exact decide_eq_true hhead

/-- A part by which a walk goes on to an empty name or to `.` can match without a step down. -/
lemma stays_of_leads (hidle : name = [] ∨ name = ['.']) (h : Leads p name) : stays p = true := by
  unfold stays
  rcases h with hname | hlit | ⟨hhead, hmatch⟩
  · exact (hidle.elim hname.1 hname.2.1).elim
  · rcases hidle with rfl | rfl
    · simp [hlit]
    · rw [literal?_eq_some_iff.1 hlit]
      decide
  · rcases hidle with rfl | rfl
    · cases p with
      | nil => cases hhead
      | cons token p =>
        obtain rfl : token = .char '.' := by simpa using hhead
        simp [matchesText] at hmatch
    · simp [hhead, hmatch]

/-- One part counts as one step down at most. -/
lemma le_of_depthAfter? (h : depthAfter? depth p = some depth') : depth' ≤ depth + 1 := by
  grind [depthAfter?]

/-- A part that leads up takes one step down back. -/
lemma succ_of_leadsUp (hup : leadsUp p = true) (h : depthAfter? depth p = some depth') :
    depth' + 1 = depth := by
  grind [depthAfter?]

/-- A part that can match without a step down counts as none. -/
lemma le_of_stays (hstays : stays p = true) (h : depthAfter? depth p = some depth') :
    depth' ≤ depth := by
  grind [depthAfter?]

/-- Where no part leads above, a walk goes on inside. -/
lemma exists_insideStep? (hleads : Leads p name) (hdepth : depth ≤ place.length)
    (h : depthAfter? depth p = some depth') :
    ∃ place', insideStep? place name = some place' ∧ depth' ≤ place'.length := by
  -- a step up was counted in the depth, so there is a name to take back
  by_cases hup : name = ['.', '.']
  · have hsucc := succ_of_leadsUp (leadsUp_of_leads (hup ▸ hleads)) h
    have hne : place ≠ [] := by
      rw [← List.length_pos_iff]
      omega
    refine ⟨place.dropLast, ?_, ?_⟩
    · simp [insideStep?, Files.descend, hup, hne]
    · rw [List.length_dropLast]
      omega
  · have hin : insideStep? place name = some (Files.descend place name) := by
      rw [insideStep?, if_neg (by simp [hup])]
    refine ⟨_, hin, ?_⟩
    unfold Files.descend
    split
    · next hidle => exact (le_of_stays (stays_of_leads hidle hleads) h).trans hdepth
    · rw [List.length_append, List.length_singleton]
      exact (le_of_depthAfter? h).trans (Nat.succ_le_succ hdepth)

/-- A part that is not the last one leads to some depth, from which the rest stays inside. -/
lemma exists_depthAfter? (h : staysWithin depth (p :: q :: rest) = true) :
    ∃ depth', depthAfter? depth p = some depth' ∧ staysWithin depth' (q :: rest) = true := by
  unfold staysWithin at h ⊢
  rw [List.dropLast_cons_cons, List.foldlM_cons] at h
  cases hp : depthAfter? depth p with
  | none => rw [hp] at h; cases h
  | some depth' =>
    rw [hp] at h
    exact ⟨depth', rfl, h⟩

/-- A part that goes down to all directories may go down to none of them. -/
lemma staysWithin_recursive_cons (hp : isRecursive p = true) (depth : Nat) (q : Pattern)
    (rest : List Pattern) : staysWithin depth (p :: q :: rest) = staysWithin depth (q :: rest) := by
  have hdepth : depthAfter? depth p = some depth := by
    rw [isRecursive_iff.1 hp]
    rfl
  unfold staysWithin
  rw [List.dropLast_cons_cons, List.foldlM_cons, hdepth]
  rfl

/-- What is left behind parts that go down to all directories stays inside from there. -/
lemma staysWithin_afterRecursive (h : staysWithin depth rest = true) {more : List Pattern}
    (hmore : Search.afterRecursive rest = q :: more) : staysWithin depth (q :: more) = true := by
  induction rest with
  | nil => cases hmore
  | cons p rest ih =>
    rw [Search.afterRecursive] at hmore
    split at hmore
    · next hp =>
      cases rest with
      | nil => cases hmore
      | cons p' rest =>
        rw [staysWithin_recursive_cons hp] at h
        exact ih h hmore
    · rw [← hmore]
      exact h

/-! ## What two walks find -/

variable {t t' : Tree} {base base' : Place} {found found' : List Path} {r : Path}

/-- Two walks find what is there, and the same files, as paths inside of a directory each. -/
structure FindsAlike (t : Tree) (base : Place) (t' : Tree) (base' : Place) (found found' : List Path) :
    Prop where
  reached : ∀ p ∈ found, t.reaches p = true
  reached' : ∀ p ∈ found', t'.reaches p = true
  files : ∃ rs : List Path, (∀ r ∈ rs, r.inside?.isSome = true) ∧
    found.filter t.isFile = rs.map (ofPlace base).join ∧
    found'.filter t'.isFile = rs.map (ofPlace base').join

namespace FindsAlike

/-- Two walks that find nothing find alike. -/
lemma nil : FindsAlike t base t' base' [] [] :=
  ⟨by simp, by simp, [], by simp, rfl, rfl⟩

/-- Walks that find alike twice find alike. -/
lemma append {more more' : List Path} (h : FindsAlike t base t' base' found found')
    (hmore : FindsAlike t base t' base' more more') :
    FindsAlike t base t' base' (found ++ more) (found' ++ more') := by
  obtain ⟨rs, hrs, hfiles, hfiles'⟩ := h.files
  obtain ⟨qs, hqs, hrest, hrest'⟩ := hmore.files
  refine ⟨List.forall_mem_append.2 ⟨h.reached, hmore.reached⟩,
    List.forall_mem_append.2 ⟨h.reached', hmore.reached'⟩, rs ++ qs,
    List.forall_mem_append.2 ⟨hrs, hqs⟩, ?_, ?_⟩
  · rw [List.filter_append, hfiles, hrest, List.map_append]
  · rw [List.filter_append, hfiles', hrest', List.map_append]

/-- Walks that find alike with each name find alike with all of them. -/
lemma flatMap {names : List (List Char)} {f f' : List Char → List Path}
    (h : ∀ name ∈ names, FindsAlike t base t' base' (f name) (f' name)) :
    FindsAlike t base t' base' (names.flatMap f) (names.flatMap f') := by
  induction names with
  | nil => exact nil
  | cons name names ih =>
    rw [List.flatMap_cons, List.flatMap_cons]
    exact (h name List.mem_cons_self).append (ih fun n hn => h n (List.mem_cons_of_mem _ hn))

/-- Walks find alike under the same condition. -/
lemma ite {c c' : Bool} (hc : c' = c) (h : c = true → FindsAlike t base t' base' found found') :
    FindsAlike t base t' base' (if c then found else []) (if c' then found' else []) := by
  rw [hc]
  split
  · next hc => exact h hc
  · exact nil

/-- The same path inside of each directory. -/
lemma singleton (h : t.SameBelow base t' base') (hr : r.inside? = some place)
    (hreach : t.reaches ((ofPlace base).join r) = true) :
    FindsAlike t base t' base' [(ofPlace base).join r] [(ofPlace base').join r] := by
  refine ⟨by simpa using hreach, by simpa [h.reaches_join hr] using hreach, ?_⟩
  have hfile := h.isFile_join hr
  cases hbool : t.isFile ((ofPlace base).join r) with
  | true =>
    refine ⟨[r], by simp [hr], ?_, ?_⟩
    · simp [hbool]
    · simp [hfile, hbool]
  | false => exact ⟨[], by simp, by simp [hbool], by simp [hfile, hbool]⟩

/-- A directory each, wherever they are. -/
lemma of_directories {path path' : Path} (h : t.isDirectory path = true)
    (h' : t'.isDirectory path' = true) : FindsAlike t base t' base' [path] [path'] := by
  refine ⟨by simpa using Tree.reaches_of_isDirectory h, by simpa using Tree.reaches_of_isDirectory h',
    [], by simp, ?_, ?_⟩
  · simp [Tree.isFile_of_isDirectory h]
  · simp [Tree.isFile_of_isDirectory h']

end FindsAlike

/-! ## One walk beside another -/

namespace Search

variable {s s' : Search} {fuel fuel' : Nat}

/-- A walk has come to a path inside of a directory, with some parts left that do not lead above it. -/
structure Stands (t : Tree) (base : Place) (ps : List Pattern) (r : Path) (place : Place) (depth : Nat) :
    Prop where
  slash : ∀ p ∈ ps, .char '/' ∉ p
  inside : r.inside? = some place
  reached : t.reaches ((ofPlace base).join r) = true
  depth_le : depth ≤ place.length
  stays : staysWithin depth ps = true

/-- The steps that a walk inside can need, which may lead up with each part. -/
def space (t : Tree) (ps : List Pattern) (place : Place) : Nat :=
  8 * ps.length + 4 * (t.entries.size - place.length)

lemma space_cons (t : Tree) (p : Pattern) (ps : List Pattern) (place : Place) :
    space t (p :: ps) place = space t ps place + 8 := by
  unfold space
  rw [List.length_cons]
  omega

lemma space_le_of_length (t : Tree) (place : Place) {qs : List Pattern} (h : qs.length ≤ ps.length) :
    space t qs place ≤ space t ps place :=
  Nat.add_le_add_right (Nat.mul_le_mul_left 8 h) _

/-- With each name that is there, there is less space. -/
lemma space_child (hu : t.Proper) (h : (t.at? (base ++ (place ++ [name]))).isSome = true)
    (ps : List Pattern) : space t ps (place ++ [name]) + 4 = space t ps place := by
  -- what is there is no deeper than there are entries
  have hle := hu.length_le h
  unfold space
  rw [List.length_append, List.length_append, List.length_singleton] at hle
  rw [List.length_append, List.length_singleton]
  omega

/-- One name can lead up by one. -/
lemma space_descend_le (t : Tree) (ps : List Pattern) (place : Place) (name : List Char) :
    space t ps (Files.descend place name) ≤ space t ps place + 4 := by
  have hle := length_le_descend place name
  unfold space
  omega

/-- Two ways of walking find alike from where they have space enough. -/
def AlikeIn (t : Tree) (base : Place) (t' : Tree) (base' : Place) (extra fuel fuel' : Nat)
    (walk walk' : List Pattern → Path → List Path) : Prop :=
  ∀ ps r place depth, Stands t base ps r place depth →
    space t ps place + extra < fuel → space t' ps place + extra < fuel' →
    FindsAlike t base t' base' (walk ps ((ofPlace base).join r)) (walk' ps ((ofPlace base').join r))

/-- Two ways of walking find alike with the name that comes next. -/
def AlikeAt (t : Tree) (base : Place) (t' : Tree) (base' : Place) (extra fuel fuel' : Nat)
    (walk walk' : List Pattern → Path → List Path) : Prop :=
  ∀ ps r place depth name, Stands t base ps r place depth → IsName name →
    t.reaches ((ofPlace base).join (r.join ⟨name⟩)) = true →
    space t ps (place ++ [name]) + extra < fuel → space t' ps (place ++ [name]) + extra < fuel' →
    FindsAlike t base t' base' (walk ps ((ofPlace base).join (r.join ⟨name⟩)))
      (walk' ps ((ofPlace base').join (r.join ⟨name⟩)))

namespace Stands

/-- Fewer parts may be left, as long as they stay inside. -/
lemma parts (h : Stands t base ps r place depth) {qs : List Pattern} (hsub : qs ⊆ ps)
    (hstays : staysWithin depth qs = true) : Stands t base qs r place depth :=
  ⟨fun q hq => h.slash q (hsub hq), h.inside, h.reached, h.depth_le, hstays⟩

/-- A walk may go down to what is there, whatever parts are left. -/
lemma child (h : Stands t base ps r place depth) (hname : IsName name)
    (hreach : t.reaches ((ofPlace base).join (r.join ⟨name⟩)) = true) :
    Stands t base ps (r.join ⟨name⟩) (place ++ [name]) depth := by
  refine ⟨h.slash, ?_, hreach, ?_, h.stays⟩
  · rw [Path.inside?_join_name h.inside hname.2.2.2, Path.insideStep?_of_isName hname]
  · have hle := h.depth_le
    rw [List.length_append]
    omega

/-- A walk goes on with the parts that are left. -/
lemma step (h : Stands t base (p :: rest) r place depth) (hleads : Leads p name)
    (hslash : '/' ∉ name) (hreach : t.reaches ((ofPlace base).join (r.join ⟨name⟩)) = true)
    (hin : insideStep? place name = some place') :
    ∃ depth', Stands t base rest (r.join ⟨name⟩) place' depth' := by
  have hinside : (r.join ⟨name⟩).inside? = some place' := by
    rw [Path.inside?_join_name h.inside hslash, hin]
  have hrest : ∀ q ∈ rest, .char '/' ∉ q := fun q hq => h.slash q (List.mem_cons_of_mem _ hq)
  cases rest with
  | nil => exact ⟨0, hrest, hinside, hreach, Nat.zero_le _, rfl⟩
  | cons q rest =>
    obtain ⟨depth', hdepth', hstays⟩ := exists_depthAfter? h.stays
    obtain ⟨place'', hin', hle⟩ := exists_insideStep? hleads h.depth_le hdepth'
    rw [hin] at hin'
    obtain rfl := Option.some.inj hin'
    exact ⟨depth', hrest, hinside, hreach, hle, hstays⟩

/-- Only the last part can lead above. -/
lemma last (h : Stands t base (p :: rest) r place depth) (hleads : Leads p name)
    (hin : insideStep? place name = none) : rest = [] ∧ name = ['.', '.'] := by
  constructor
  · cases rest with
    | nil => rfl
    | cons q rest =>
      obtain ⟨depth', hdepth', -⟩ := exists_depthAfter? h.stays
      obtain ⟨place', hin', -⟩ := exists_insideStep? hleads h.depth_le hdepth'
      rw [hin] at hin'
      cases hin'
  · unfold insideStep? at hin
    split at hin
    · next hup => exact hup.1
    · cases hin

end Stands

/-- The directory above is one. -/
lemma isDirectory_join_up (hu : t.Proper) {dir : Path} (hdir : dir.text ≠ [])
    (h : t.reaches (dir.join ⟨['.', '.']⟩) = true) : t.isDirectory (dir.join ⟨['.', '.']⟩) = true := by
  obtain ⟨hl, -⟩ := Tree.reaches_iff.1 h
  refine Tree.isDirectory_iff.2 ⟨hl, ?_⟩
  rw [Path.target_join hdir (by decide)]
  exact hu.dropLast (Tree.isDirectory_iff.1 ((Tree.locate_join_iff hdir (by decide)).1 hl).1).2

/-- A path behind that of a directory is not empty. -/
lemma text_join_ne_nil (base : Place) (r : Path) : ((ofPlace base).join r).text ≠ [] :=
  Path.text_ne_nil_of_isAbsolute (Path.isAbsolute_ofPlace_join base r)

/-- A name is joined to a path first or last. -/
lemma join_join_name (base : Place) (hr : r.inside? = some place) (hslash : '/' ∉ name) :
    ((ofPlace base).join r).join ⟨name⟩ = (ofPlace base).join (r.join ⟨name⟩) :=
  Path.join_join (Path.text_ofPlace_ne_nil base) (Path.isAbsolute_of_inside? hr)
    (Path.isAbsolute_of_slash_not_mem hslash)

/-- One more name leads somewhere in both directories, or in none. -/
lemma reaches_join_name (h : t.SameBelow base t' base') (hr : r.inside? = some place)
    (hslash : '/' ∉ name) : t'.reaches ((ofPlace base').join (r.join ⟨name⟩)) =
      t.reaches ((ofPlace base).join (r.join ⟨name⟩)) := by
  by_cases hup : name = ['.', '.']
  · rw [← join_join_name base hr hslash, ← join_join_name base' hr hslash,
      reaches_join_point h.proper (text_join_ne_nil base r) hslash (.inr hup),
      reaches_join_point h.proper' (text_join_ne_nil base' r) hslash (.inr hup), h.isDirectory_join hr]
  · have hin : (r.join ⟨name⟩).inside? = some (Files.descend place name) := by
      rw [Path.inside?_join_name hr hslash, insideStep?, if_neg (by simp [hup])]
    exact h.reaches_join hin

/-- Where no part is left, a path is a result in both directories or in neither. -/
lemma alike_result (h : t.SameBelow base t' base') (hs : s'.directoriesOnly = s.directoriesOnly)
    (hr : r.inside? = some place) (hreach : t.reaches ((ofPlace base).join r) = true) :
    FindsAlike t base t' base' (s.result t ((ofPlace base).join r))
      (s'.result t' ((ofPlace base').join r)) := by
  unfold result
  rw [hs, h.isDirectory_join hr]
  split
  · exact .nil
  · exact .singleton h hr hreach

/-- One name further the walks go on alike. -/
lemma alike_step (h : t.SameBelow base t' base')
    (hproceed : AlikeIn t base t' base' 1 fuel fuel' (s.proceed t fuel) (s'.proceed t' fuel'))
    (hat : Stands t base (p :: rest) r place depth) (hleads : Leads p name) (hslash : '/' ∉ name)
    (hreach : t.reaches ((ofPlace base).join (r.join ⟨name⟩)) = true)
    (hroom : space t rest (Files.descend place name) + 1 < fuel)
    (hroom' : space t' rest (Files.descend place name) + 1 < fuel') :
    FindsAlike t base t' base' (s.proceed t fuel rest ((ofPlace base).join (r.join ⟨name⟩)))
      (s'.proceed t' fuel' rest ((ofPlace base').join (r.join ⟨name⟩))) := by
  cases hin : insideStep? place name with
  | some place' =>
    obtain ⟨depth', hat'⟩ := hat.step hleads hslash hreach hin
    rw [← (Path.eq_descend_of_insideStep? hin).1] at hroom hroom'
    exact hproceed rest _ place' depth' hat' hroom hroom'
  | none =>
    obtain ⟨rfl, rfl⟩ := hat.last hleads hin
    obtain ⟨n, rfl⟩ : ∃ n, fuel = n + 1 := ⟨fuel - 1, by omega⟩
    obtain ⟨n', rfl⟩ : ∃ n', fuel' = n' + 1 := ⟨fuel' - 1, by omega⟩
    -- both paths lead to a directory, so no file is found
    have hreach' := (reaches_join_name h hat.inside hslash).trans hreach
    rw [← join_join_name base hat.inside hslash] at hreach ⊢
    rw [← join_join_name base' hat.inside hslash] at hreach' ⊢
    have hdir := isDirectory_join_up h.proper (text_join_ne_nil base r) hreach
    have hdir' := isDirectory_join_up h.proper' (text_join_ne_nil base' r) hreach'
    rw [proceed, proceed, result, result, hdir, hdir']
    simp only [Bool.not_true, Bool.and_false, Bool.false_eq_true, if_false]
    exact .of_directories hdir hdir'

/-- Going on finds alike if entering does. -/
lemma alike_proceed (h : t.SameBelow base t' base') (hs : s'.directoriesOnly = s.directoriesOnly)
    (henter : AlikeIn t base t' base' 0 fuel fuel' (s.enter t fuel) (s'.enter t' fuel')) :
    AlikeIn t base t' base' 1 (fuel + 1) (fuel' + 1) (s.proceed t (fuel + 1))
      (s'.proceed t' (fuel' + 1)) := by
  intro ps r place depth hat hroom hroom'
  cases ps with
  | nil =>
    rw [proceed, proceed]
    exact alike_result h hs hat.inside hat.reached
  | cons p rest =>
    rw [proceed, proceed]
    exact henter _ r place depth hat (by omega) (by omega)

/-- A name that has matched finds alike if going on does. -/
lemma alike_named (h : t.SameBelow base t' base')
    (hproceed : AlikeIn t base t' base' 1 fuel fuel' (s.proceed t fuel) (s'.proceed t' fuel')) :
    AlikeAt t base t' base' 0 (fuel + 1) (fuel' + 1) (s.named t (fuel + 1))
      (s'.named t' (fuel' + 1)) := by
  intro ps r place depth name hat hname hreach hroom hroom'
  cases ps with
  | nil =>
    simp only [named]
    exact .nil
  | cons p rest =>
    have hfile : ∀ base : Place, ((ofPlace base).join (r.join ⟨name⟩)).fileName? = some name := by
      intro base
      rw [← join_join_name base hat.inside hname.2.2.2]
      exact Path.fileName?_join (Path.isAbsolute_ofPlace_join base r) hname
    rw [named, named, hfile, hfile]
    refine .ite rfl fun _ => ?_
    rw [space_cons] at hroom hroom'
    refine alike_step h hproceed hat (.inl hname) hname.2.2.2 hreach ?_ ?_
    · rw [Path.descend_of_isName hname]
      omega
    · rw [Path.descend_of_isName hname]
      omega

/-- A part that goes down to all directories passes over the parts like it, and then both walks look
here and further down. -/
lemma alike_visit_recursive (h : t.SameBelow base t' base')
    (henter : AlikeIn t base t' base' 0 fuel fuel' (s.enter t fuel) (s'.enter t' fuel'))
    (hnamed : AlikeAt t base t' base' 0 fuel fuel' (s.named t fuel) (s'.named t' fuel'))
    (hp : isRecursive p = true) (hat : Stands t base (p :: rest) r place depth) (hname : IsName name)
    (hreach : t.reaches ((ofPlace base).join (r.join ⟨name⟩)) = true)
    (hroom : space t (p :: rest) (place ++ [name]) < fuel)
    (hroom' : space t' (p :: rest) (place ++ [name]) < fuel') :
    FindsAlike t base t' base'
      (s.visit t (fuel + 1) (p :: rest) ((ofPlace base).join (r.join ⟨name⟩)))
      (s'.visit t' (fuel' + 1) (p :: rest) ((ofPlace base').join (r.join ⟨name⟩))) := by
  have hchild := hat.child hname hreach
  have hisdir := h.isDirectory_join hchild.inside
  -- the walks of a part of the pattern need no more room than that of the whole
  have hfits : ∀ qs : List Pattern, qs.length ≤ (p :: rest).length →
      space t qs (place ++ [name]) + 0 < fuel ∧ space t' qs (place ++ [name]) + 0 < fuel' := by
    intro qs hlength
    have hle := space_le_of_length t (place ++ [name]) hlength
    have hle' := space_le_of_length t' (place ++ [name]) hlength
    omega
  rw [visit, visit, if_pos hp, if_pos hp]
  split
  · refine .ite hisdir fun _ => ?_
    have hsingle : FindsAlike t base t' base' _ _ := .singleton h hchild.inside hreach
    have hstands : Stands t base [p] _ _ depth := hchild.parts (by simp) rfl
    obtain ⟨hfit, hfit'⟩ := hfits [p] (by simp)
    exact hsingle.append (henter [p] _ _ depth hstands hfit hfit')
  · next q more hmore =>
    have hsub : q :: more ⊆ rest := hmore ▸ (afterRecursive_suffix rest).subset
    have hlength := length_afterRecursive hmore
    have hstays : staysWithin depth (q :: more) = true :=
      staysWithin_afterRecursive hat.stays (by rw [afterRecursive, if_pos hp, hmore])
    refine .append ?_ (.ite hisdir fun _ => ?_)
    · obtain ⟨hfit, hfit'⟩ := hfits (q :: more) (Nat.le_succ_of_le hlength)
      exact hnamed _ r place depth name
        (hat.parts (fun x hx => List.mem_cons_of_mem _ (hsub hx)) hstays) hname hreach hfit hfit'
    · have hstands : Stands t base (p :: q :: more) _ _ depth :=
        hchild.parts (List.cons_subset_cons p hsub) (by rw [staysWithin_recursive_cons hp, hstays])
      obtain ⟨hfit, hfit'⟩ := hfits (p :: q :: more) (Nat.succ_le_succ hlength)
      exact henter _ _ _ depth hstands hfit hfit'

/-- Visiting a name finds alike if entering it and matching it do. -/
lemma alike_visit (h : t.SameBelow base t' base')
    (henter : AlikeIn t base t' base' 0 fuel fuel' (s.enter t fuel) (s'.enter t' fuel'))
    (hnamed : AlikeAt t base t' base' 0 fuel fuel' (s.named t fuel) (s'.named t' fuel')) :
    AlikeAt t base t' base' 2 (fuel + 1) (fuel' + 1) (s.visit t (fuel + 1))
      (s'.visit t' (fuel' + 1)) := by
  intro ps r place depth name hat hname hreach hroom hroom'
  cases ps with
  | nil =>
    simp only [visit]
    exact .nil
  | cons p rest =>
    by_cases hp : isRecursive p = true
    · exact alike_visit_recursive h henter hnamed hp hat hname hreach (by omega) (by omega)
    · rw [visit, visit, if_neg hp, if_neg hp]
      exact hnamed _ r place depth name hat hname hreach (by omega) (by omega)

/-- What is behind each of the names in a directory is found alike. -/
lemma alike_contents (h : t.SameBelow base t' base')
    (hvisit : AlikeAt t base t' base' 2 fuel fuel' (s.visit t fuel) (s'.visit t' fuel'))
    (hat : Stands t base ps r place depth) (hdir : t.isDirectory ((ofPlace base).join r) = true)
    (hroom : space t ps place < fuel + 1) (hroom' : space t' ps place < fuel' + 1) :
    FindsAlike t base t' base'
      ((contents t ((ofPlace base).join r)).flatMap fun child => s.visit t fuel ps child)
      ((contents t' ((ofPlace base').join r)).flatMap fun child => s'.visit t' fuel' ps child) := by
  have htext := text_join_ne_nil base r
  have hdir' : t'.isDirectory ((ofPlace base').join r) = true := by
    rw [h.isDirectory_join hat.inside, hdir]
  rw [contents_of_isDirectory hdir, contents_of_isDirectory hdir',
    Path.target_join_ofPlace h.isName hat.inside, Path.target_join_ofPlace h.symm.isName hat.inside,
    h.namesIn, List.flatMap_map, List.flatMap_map]
  -- both directories hold the same names, and there is less room below each of them
  refine .flatMap fun name hmem => ?_
  obtain ⟨hname, hsome⟩ := h.proper.mem_namesIn hmem
  have hreach : t.reaches ((ofPlace base).join (r.join ⟨name⟩)) = true := by
    rw [← join_join_name base hat.inside hname.2.2.2, Tree.reaches_join_iff htext hname.2.2.2,
      Tree.isThere, Path.target_join_of_isName htext hname,
      Path.target_join_ofPlace h.isName hat.inside, hsome]
    exact ⟨hdir, rfl⟩
  rw [List.append_assoc] at hsome
  have hspace := space_child h.proper hsome ps
  have hspace' := space_child h.proper' ((h.isSome_at? _).trans hsome) ps
  rw [join_join_name base hat.inside hname.2.2.2, join_join_name base' hat.inside hname.2.2.2]
  exact hvisit ps r place depth name hat hname hreach (by omega) (by omega)

/-- A name that a part leads to takes a part, and leads up by one at most. -/
lemma alike_behind (h : t.SameBelow base t' base')
    (hproceed : AlikeIn t base t' base' 1 fuel fuel' (s.proceed t fuel) (s'.proceed t' fuel'))
    (hat : Stands t base (p :: rest) r place depth) (hleads : Leads p name) (hslash : '/' ∉ name)
    (hroom : space t (p :: rest) place < fuel + 1) (hroom' : space t' (p :: rest) place < fuel' + 1)
    (hreach : t.reaches ((ofPlace base).join (r.join ⟨name⟩)) = true) :
    FindsAlike t base t' base' (s.proceed t fuel rest ((ofPlace base).join (r.join ⟨name⟩)))
      (s'.proceed t' fuel' rest ((ofPlace base').join (r.join ⟨name⟩))) := by
  have hle := space_descend_le t rest place name
  have hle' := space_descend_le t' rest place name
  rw [space_cons] at hroom hroom'
  exact alike_step h hproceed hat hleads hslash hreach (by omega) (by omega)

/-- The points are no entries of a directory, and are looked at beside them. -/
lemma alike_point (h : t.SameBelow base t' base')
    (hproceed : AlikeIn t base t' base' 1 fuel fuel' (s.proceed t fuel) (s'.proceed t' fuel'))
    (hat : Stands t base (p :: rest) r place depth) (hname : name = ['.'] ∨ name = ['.', '.'])
    (hroom : space t (p :: rest) place < fuel + 1) (hroom' : space t' (p :: rest) place < fuel' + 1)
    (hdir : t.isDirectory ((ofPlace base).join r) = true) :
    FindsAlike t base t' base'
      (if p.head? = some (.char '.') && matchesText p name then
        s.proceed t fuel rest (((ofPlace base).join r).join ⟨name⟩) else [])
      (if p.head? = some (.char '.') && matchesText p name then
        s'.proceed t' fuel' rest (((ofPlace base').join r).join ⟨name⟩) else []) := by
  have hslash : '/' ∉ name := by
    rcases hname with rfl | rfl
    · decide
    · decide
  refine .ite rfl fun hmatch => ?_
  rw [Bool.and_eq_true, decide_eq_true_eq] at hmatch
  have hreach := (reaches_join_point h.proper (text_join_ne_nil base r) hslash hname).trans hdir
  rw [join_join_name base hat.inside hslash] at hreach ⊢
  rw [join_join_name base' hat.inside hslash]
  exact alike_behind h hproceed hat (.inr (.inr hmatch)) hslash hroom hroom' hreach

/-- Entering a directory finds alike if going on and visiting its names do. -/
theorem alike_enter (h : t.SameBelow base t' base')
    (hproceed : AlikeIn t base t' base' 1 fuel fuel' (s.proceed t fuel) (s'.proceed t' fuel'))
    (hvisit : AlikeAt t base t' base' 2 fuel fuel' (s.visit t fuel) (s'.visit t' fuel')) :
    AlikeIn t base t' base' 0 (fuel + 1) (fuel' + 1) (s.enter t (fuel + 1))
      (s'.enter t' (fuel' + 1)) := by
  intro ps r place depth hat hroom hroom'
  cases ps with
  | nil =>
    simp only [enter]
    exact .nil
  | cons p rest =>
    -- a literal part takes one step, a wild one tries the points and then every name in the
    -- directory
    cases hlit : literal? p with
    | some name =>
      have hslash := slash_not_mem_of_literal? (hat.slash p List.mem_cons_self) hlit
      rw [enter_literal h.proper (text_join_ne_nil base r) hlit hslash,
        enter_literal h.proper' (text_join_ne_nil base' r) hlit hslash,
        join_join_name base hat.inside hslash, join_join_name base' hat.inside hslash]
      exact .ite (reaches_join_name h hat.inside hslash)
        (alike_behind h hproceed hat (.inr (.inl hlit)) hslash hroom hroom')
    | none =>
      rw [enter, enter]
      simp only [hlit]
      refine .ite (h.isDirectory_join hat.inside) fun hdir => ?_
      refine .append (.append ?_ ?_) (alike_contents h hvisit hat hdir hroom hroom')
      · exact alike_point h hproceed hat (.inr rfl) hroom hroom' hdir
      · exact alike_point h hproceed hat (.inl rfl) hroom hroom' hdir

/-- Two walks beside each other find alike, in each of the four ways in which they go on. -/
theorem alike_walk (h : t.SameBelow base t' base') (hs : s'.directoriesOnly = s.directoriesOnly)
    (fuel fuel' : Nat) :
    AlikeIn t base t' base' 0 fuel fuel' (s.enter t fuel) (s'.enter t' fuel') ∧
      AlikeIn t base t' base' 1 fuel fuel' (s.proceed t fuel) (s'.proceed t' fuel') ∧
      AlikeAt t base t' base' 2 fuel fuel' (s.visit t fuel) (s'.visit t' fuel') ∧
      AlikeAt t base t' base' 0 fuel fuel' (s.named t fuel) (s'.named t' fuel') := by
  induction fuel generalizing fuel' with
  | zero => exact ⟨by intro; omega, by intro; omega, by intro; omega, by intro; omega⟩
  | succ fuel ih =>
    cases fuel' with
    | zero => exact ⟨by intro; omega, by intro; omega, by intro; omega, by intro; omega⟩
    | succ fuel' =>
      obtain ⟨henter, hproceed, hvisit, hnamed⟩ := ih fuel'
      exact ⟨alike_enter h hproceed hvisit, alike_proceed h hs henter, alike_visit h henter hnamed,
        alike_named h hproceed⟩

/-! ## From the root to a directory -/

/-- A walk with names goes to the place that they name. -/
lemma enter_literals (hu : t.Proper) (hsome : (t.at? (base ++ place)).isSome = true) (hne : ps ≠ []) :
    s.enter t (fuel + 2 * place.length) (literals place ++ ps) (ofPlace base) =
      s.enter t fuel ps (ofPlace (base ++ place)) := by
  -- each name of the place is a literal part, which takes two steps of the walk
  induction place generalizing base with
  | nil =>
    rw [List.append_nil]
    rfl
  | cons name place ih =>
    have hassoc : base ++ name :: place = (base ++ [name]) ++ place := by simp
    rw [hassoc] at hsome ⊢
    have hsome' : (t.at? (base ++ [name])).isSome = true :=
      hu.isSome_of_prefix (List.prefix_append _ _) hsome
    have hnames := hu.isName hsome'
    obtain ⟨hbase, hname⟩ := List.forall_mem_append.1 hnames
    have hname := hname name (List.mem_singleton_self name)
    have hfuel : fuel + 2 * (name :: place).length = fuel + 2 * place.length + 1 + 1 := by
      rw [List.length_cons]
      omega
    obtain ⟨p, rest, hcons⟩ := List.exists_cons_of_ne_nil (l := literals place ++ ps) (by simp [hne])
    rw [hfuel, literals, List.map_cons, List.cons_append,
      enter_literal hu (Path.text_ofPlace_ne_nil base) (literal?_eq_some_iff.2 rfl) hname.2.2.2,
      Path.join_ofPlace hbase hname, if_pos (hu.reaches_ofPlace hnames hsome')]
    change s.proceed t _ (literals place ++ ps) _ = _
    rw [hcons, proceed, ← hcons]
    exact ih hsome

/-- A walk begins in a directory as behind a slash at its end. -/
lemma enter_join_empty (hu : t.Proper) (hd : t.at? base = some .directory) :
    s.enter t fuel ps ((ofPlace base).join ⟨[]⟩) = s.enter t fuel ps (ofPlace base) := by
  have hnames : ∀ n ∈ base, IsName n := hu.isName (by rw [hd]; rfl)
  have htarget : ((ofPlace base).join ⟨[]⟩).target = base := by
    have hin : (⟨[]⟩ : Path).inside? = some [] := rfl
    rw [Path.target_join_ofPlace hnames hin, List.append_nil]
  have hdir : t.isDirectory (ofPlace base) = true := hu.isDirectory_ofPlace hnames hd
  have hdir' := hu.isDirectory_join_empty hd
  have hcontents : contents t ((ofPlace base).join ⟨[]⟩) = contents t (ofPlace base) := by
    rw [contents_of_isDirectory hdir, contents_of_isDirectory hdir', htarget,
      Path.target_ofPlace hnames]
    simp only [Path.join_empty_join]
  cases fuel with
  | zero => cases ps <;> simp only [enter]
  | succ fuel =>
    cases ps with
    | nil => simp only [enter]
    | cons p rest =>
      rw [enter, enter]
      simp only [Path.join_empty_join, hcontents, hdir, hdir']

/-- A search behind the names of a directory begins there with fuel enough. -/
lemma exists_paths_eq (hu : t.Proper) (hd : t.at? base = some .directory) (hne : ps ≠ [])
    (hs : s.parts = literals base ++ ps) :
    ∃ fuel, 8 * ps.length + 4 * t.entries.size < fuel ∧
      s.paths t = s.enter t fuel ps ((ofPlace base).join ⟨[]⟩) := by
  have hlength : (literals base ++ ps).length = base.length + ps.length := by
    rw [List.length_append, literals, List.length_map]
  refine ⟨8 * ps.length + 4 * t.entries.size + 6 * base.length + 8, by omega, ?_⟩
  have hfuel : 4 * (2 * (literals base ++ ps).length + t.entries.size + 2) =
      8 * ps.length + 4 * t.entries.size + 6 * base.length + 8 + 2 * base.length := by omega
  have hsome : (t.at? ([] ++ base)).isSome = true := by
    rw [List.nil_append, hd]
    rfl
  rw [paths, hs, hfuel, enter_join_empty hu hd]
  exact enter_literals hu hsome hne

/-- The same parts find alike behind the names of two directories. -/
lemma alike_paths (h : t.SameBelow base t' base') (hne : ps ≠ []) (hslash : ∀ p ∈ ps, .char '/' ∉ p)
    (hstays : staysWithin 0 ps = true) (hs : s.parts = literals base ++ ps)
    (hs' : s'.parts = literals base' ++ ps) (honly : s'.directoriesOnly = s.directoriesOnly) :
    FindsAlike t base t' base' (s.paths t) (s'.paths t') := by
  obtain ⟨fuel, hfuel, hwalk⟩ := exists_paths_eq h.proper h.directory hne hs
  obtain ⟨fuel', hfuel', hwalk'⟩ := exists_paths_eq h.proper' h.directory' hne hs'
  have hreach := Tree.reaches_of_isDirectory (h.proper.isDirectory_join_empty h.directory)
  rw [hwalk, hwalk']
  refine (alike_walk h honly fuel fuel').1 ps ⟨[]⟩ [] 0
    ⟨hslash, rfl, hreach, Nat.le_refl 0, hstays⟩ ?_ ?_
  · rw [space, List.length_nil]
    omega
  · rw [space, List.length_nil]
    omega

end Search

/-! ## The text of a pattern behind the name of a directory -/

/-- Names in front of the pieces of a text stand in front of its parts. -/
lemma partsOf_append (names : List (List Char)) {cs ds : List Char}
    (h : Path.pieces ds = names ++ Path.pieces cs) : partsOf ds = names ++ partsOf cs := by
  unfold partsOf
  dsimp only
  rw [h, List.getLast?_append_of_ne_nil _ (Path.pieces_ne_nil cs)]
  split
  · rw [List.dropLast_append_of_ne_nil (Path.pieces_ne_nil cs)]
  · rfl

/-- The patterns that the parts of a text spell, if all of them do. -/
def partsOf? (cs : List Char) : Option (List Pattern) := (partsOf cs).mapM compile?

/-- Plain names in front of a pattern are read as literals. -/
lemma partsOf?_eq_of_append {names : List (List Char)} (hnames : ∀ n ∈ names, IsPlain n)
    {cs ds : List Char} (h : Path.pieces ds = names ++ Path.pieces cs) :
    partsOf? ds = (partsOf? cs).map (literals names ++ ·) := by
  unfold partsOf?
  rw [partsOf_append names h, List.mapM_append, mapM_eq_some_iff.2 (forall₂_literals hnames)]
  cases (partsOf cs).mapM compile? <;> rfl

/-- Behind a slash at the front a search reads the parts of the rest. -/
lemma ofText?_slash {cs : List Char} (hne : cs ≠ []) : Search.ofText? ('/' :: cs) =
    (compile? ('/' :: cs)).bind fun _ => (partsOf? cs).map fun parts =>
      ⟨parts, ('/' :: cs).getLast? = some '/'⟩ := by
  have hempty : cs.isEmpty = false := by simpa using hne
  unfold Search.ofText? partsOf?
  rw [List.head?_cons, if_pos rfl, List.drop_one, List.tail_cons]
  simp only [hempty, Bool.false_eq_true, if_false]
  cases compile? ('/' :: cs) with
  | none => rfl
  | some _ => cases (partsOf cs).mapM compile? <;> rfl

/-- What a path is joined to ends with a slash. -/
lemma getLast?_lead_ofPlace (base : Place) : (ofPlace base).lead.getLast? = some '/' :=
  Path.getLast?_lead (Path.text_ofPlace_ne_nil base)

variable (h : ∀ n ∈ base, IsName n ∧ IsPlain n)

include h in
/-- What a pattern is joined to is plain if the directory is. -/
lemma isPlain_lead : IsPlain (ofPlace base).lead := by
  have hjoined : IsPlain (Path.joined ([] :: (base ++ [[]]))) := by
    refine isPlain_joined fun part hpart => ?_
    simp only [List.mem_cons, List.mem_append, List.not_mem_nil, or_false] at hpart
    rcases hpart with rfl | hpart | rfl
    · simp [IsPlain]
    · exact (h part hpart).2
    · simp [IsPlain]
  have hpieces := Path.pieces_join_ofPlace (p := ⟨[]⟩) (fun n hn => (h n hn).1) rfl
  rw [Path.lead, ← Path.joined_pieces ((ofPlace base).join ⟨[]⟩).text, hpieces]
  exact hjoined

include h in
/-- A text behind the name of a directory is read as the name, and then as the text. -/
lemma compile?_join (hr : r.isAbsolute = false) : compile? ((ofPlace base).join r).text =
    (compile? r.text).map ((ofPlace base).lead.map .char ++ ·) := by
  rw [Path.text_join _ hr, compile?, compileAfter?_append (isPlain_lead h),
    getLast?_lead_ofPlace base, Option.some_or, compileAfter?_start]

include h in
/-- A pattern behind a plain directory is searched for as its parts behind literals. -/
lemma ofText?_join (hr : r.isAbsolute = false) (hne : r.text ≠ []) :
    Search.ofText? ((ofPlace base).join r).text =
      (compile? r.text).bind fun _ => (partsOf? r.text).map fun parts =>
        ⟨literals base ++ parts, r.text.getLast? = some '/'⟩ := by
  have hnames : ∀ n ∈ base, IsName n := fun n hn => (h n hn).1
  have hpieces := Path.pieces_join_ofPlace hnames hr
  have hpiecesne : base ++ Path.pieces r.text ≠ [] := by simp [Path.pieces_ne_nil]
  -- behind the slash at the front the parts are the names and those of the text
  have htext : ((ofPlace base).join r).text = '/' :: Path.joined (base ++ Path.pieces r.text) := by
    rw [← Path.joined_pieces ((ofPlace base).join r).text, hpieces, Path.joined_cons _ hpiecesne]
    rfl
  have hinner : Path.pieces (Path.joined (base ++ Path.pieces r.text)) = base ++ Path.pieces r.text := by
    refine Path.pieces_joined hpiecesne ?_
    intro piece hpiece
    rcases List.mem_append.1 hpiece with hpiece | hpiece
    · exact (hnames piece hpiece).2.2.2
    · exact Path.slash_not_mem_of_mem_pieces hpiece
  have hinnerne : Path.joined (base ++ Path.pieces r.text) ≠ [] := by
    intro hnil
    -- then a slash would be all of the text
    rw [hnil, Path.text_join _ hr] at htext
    obtain ⟨front, hfront⟩ := List.getLast?_eq_some_iff.1 (getLast?_lead_ofPlace base)
    have hlength := congrArg List.length htext
    have hpos := List.length_pos_iff.2 hne
    simp only [hfront, List.length_append, List.length_cons, List.length_nil] at hlength
    omega
  have hlast : ((ofPlace base).join r).text.getLast? = r.text.getLast? := by
    rw [Path.text_join _ hr, List.getLast?_append_of_ne_nil _ hne]
  rw [htext, ofText?_slash hinnerne, ← htext, compile?_join h hr, hlast,
    partsOf?_eq_of_append (fun n hn => (h n hn).2) hinner]
  cases compile? r.text with
  | none => rfl
  | some _ => cases partsOf? r.text <;> rfl

/-- A pattern that stays inside finds the same files in each of two directories that have the same files
in them. -/
theorem find?_alike (h : t.SameBelow base t' base') (hplain : ∀ n ∈ base ++ base', IsPlain n)
    (hr : r.isAbsolute = false) (hne : r.text ≠ [])
    (hstays : (partsOf? r.text).all (staysWithin 0) = true) :
    Option.Rel (FindsAlike t base t' base') (find? t ((ofPlace base).join r).text)
      (find? t' ((ofPlace base').join r).text) := by
  obtain ⟨hbase, hbase'⟩ := h.isName_and hplain
  unfold find?
  rw [ofText?_join hbase hr hne, ofText?_join hbase' hr hne]
  cases hcompile : compile? r.text with
  | none => exact .none
  | some _ =>
    cases hparts : partsOf? r.text with
    | none => exact .none
    | some parts =>
      rw [hparts, Option.all_some] at hstays
      have hforall := mapM_eq_some_iff.1 hparts
      refine .some (Search.alike_paths h ?_ ?_ hstays rfl rfl rfl)
      · rintro rfl
        exact partsOf_ne_nil hne (List.forall₂_nil_right_iff.1 hforall)
      · exact forall_of_forall₂ hforall fun part hpart p hp =>
          slash_not_mem_of_compile? hp (slash_not_mem_of_mem_partsOf hpart)

end StoreBindings.Glob
