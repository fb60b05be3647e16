import StoreBindings.Proofs.Files.Within
import StoreBindings.Proofs.Glob.Moved

/-!
# A point on the way

A path with a point between two slashes leads where it leads without the point. A walk goes over such a
point in one step more, and finds the same files by other spellings of their paths: `find?_pointed`. But a
pattern that is matched against a whole text has to match the point too, and there is none in a path that
is normal: `matchesText_pointed`.

Two walks, with and without the point, are taken beside each other. At the point the one takes two steps
where the other takes none, so the induction is on the steps of the former: `paired_walk`.
-/

namespace StoreBindings

/-! ## Two spellings of a path -/

namespace Files.Tree

variable {t : Tree} {p q : Path} {name : List Char}

/-- Two spellings of one path, both of which lead to something. -/
structure Respells (t : Tree) (p q : Path) : Prop where
  absolute : p.isAbsolute = true
  absolute' : q.isAbsolute = true
  components : p.components = q.components
  reaches : t.reaches p = true
  reaches' : t.reaches q = true

namespace Respells

/-- Both spellings lead to one place. -/
lemma target (h : t.Respells p q) : p.target = q.target := Path.target_congr h.components

/-- There is a directory by both of them, or by neither. -/
lemma isDirectory (h : t.Respells p q) : t.isDirectory q = t.isDirectory p := by
  obtain ⟨hp, -⟩ := reaches_iff.1 h.reaches
  obtain ⟨hq, -⟩ := reaches_iff.1 h.reaches'
  rw [Bool.eq_iff_iff, isDirectory_iff, isDirectory_iff, hp, hq, h.target]

/-- One more name leads somewhere behind both of them, or behind neither. -/
lemma reaches_join (h : t.Respells p q) (hname : '/' ∉ name) :
    t.reaches (q.join ⟨name⟩) = t.reaches (p.join ⟨name⟩) := by
  have hp := Path.text_ne_nil_of_isAbsolute h.absolute
  have hq := Path.text_ne_nil_of_isAbsolute h.absolute'
  rw [Bool.eq_iff_iff, reaches_join_iff hq hname, reaches_join_iff hp hname, h.isDirectory]
  unfold isThere
  rw [Path.target_join hq hname, Path.target_join hp hname, h.target]

/-- One more name at the end of both. -/
lemma join (h : t.Respells p q) (hname : '/' ∉ name) (hreach : t.reaches (p.join ⟨name⟩) = true) :
    t.Respells (p.join ⟨name⟩) (q.join ⟨name⟩) where
  absolute := Path.isAbsolute_join_of_isAbsolute h.absolute _
  absolute' := Path.isAbsolute_join_of_isAbsolute h.absolute' _
  components := by
    have hrel := Path.isAbsolute_of_slash_not_mem hname
    rw [Path.components_join h.absolute hrel, Path.components_join h.absolute' hrel, h.components]
  reaches := hreach
  reaches' := (h.reaches_join hname).trans hreach

/-- A point at the end of one of them. -/
lemma point (h : t.Respells p q) (hu : t.Proper) (hdir : t.isDirectory q = true) :
    t.Respells p (q.join ⟨['.']⟩) where
  absolute := h.absolute
  absolute' := Path.isAbsolute_join_of_isAbsolute h.absolute' _
  components := by
    have hsteps : (⟨['.']⟩ : Path).steps = [] := rfl
    rw [Path.components_join h.absolute' rfl, hsteps, List.append_nil, h.components]
  reaches := h.reaches
  reaches' := by
    have htext := Path.text_ne_nil_of_isAbsolute h.absolute'
    rw [Glob.Search.reaches_join_point hu htext (by decide) (.inl rfl), hdir]

/-- They have one normal form. -/
lemma normalize (h : t.Respells p q) : p.normalize = q.normalize :=
  Path.normalize_congr_components h.components

end Respells

end Files.Tree

namespace Glob

open Files (Tree IsName)

variable {t : Tree} {only : Bool} {p : Pattern} {ps ps' rest rest' : List Pattern}

/-! ## A point among the parts -/

/-- The part that is a point. -/
def point : Pattern := [.char '.']

/-- The same parts, or behind a part that does not go down to all directories there is a point more.
At the end there is one only if `only` holds. -/
inductive Twin (only : Bool) : List Pattern → List Pattern → Prop
  | same (ps : List Pattern) : Twin only ps ps
  | behind {p : Pattern} {ps : List Pattern} (hp : isRecursive p = false)
      (h : ps = [] → only = true) : Twin only (p :: ps) (p :: point :: ps)
  | cons (p : Pattern) {ps ps' : List Pattern} (h : Twin only ps ps') : Twin only (p :: ps) (p :: ps')

/-- The same parts, or there is a point more, perhaps in front. -/
def Pointed (only : Bool) (ps ps' : List Pattern) : Prop :=
  Twin only ps ps' ∨ ps' = point :: ps ∧ (ps = [] → only = true)

/-- Where no parts are left there is no point more. -/
lemma Twin.eq_nil (h : Twin only [] ps') : ps' = [] := by
  cases h
  rfl

/-- The first part is the same, and behind it there may be a point more. -/
lemma Twin.exists_cons (h : Twin only (p :: ps) ps') : ∃ rest', ps' = p :: rest' ∧
    (Twin only ps rest' ∨ isRecursive p = false ∧ Pointed only ps rest') := by
  cases h with
  | same _ => exact ⟨ps, rfl, .inl (.same ps)⟩
  | behind hp h => exact ⟨_, rfl, .inr ⟨hp, .inr ⟨rfl, h⟩⟩⟩
  | cons _ h => exact ⟨_, rfl, .inl h⟩

/-- Behind the same first part there may be a point in front of what is left. -/
lemma Twin.tail (h : Twin only (p :: rest) ps') :
    ∃ rest', ps' = p :: rest' ∧ Pointed only rest rest' := by
  obtain ⟨rest', rfl, hrest | ⟨-, hrest⟩⟩ := h.exists_cons
  · exact ⟨rest', rfl, .inl hrest⟩
  · exact ⟨rest', rfl, hrest⟩

/-- But not if that part goes down to all directories. -/
lemma Twin.tail_of_recursive (h : Twin only (p :: rest) ps') (hp : isRecursive p = true) :
    ∃ rest', ps' = p :: rest' ∧ Twin only rest rest' := by
  obtain ⟨rest', rfl, hrest | ⟨hnot, -⟩⟩ := h.exists_cons
  · exact ⟨rest', rfl, hrest⟩
  · rw [hp] at hnot
    cases hnot

/-- With parts that go down to all directories left out in front, there may be the same point more. -/
lemma Twin.afterRecursive (h : Twin only ps ps') :
    Twin only (Search.afterRecursive ps) (Search.afterRecursive ps') := by
  induction h with
  | same ps => exact .same _
  | @behind p ps hp h =>
    rw [Search.afterRecursive, Search.afterRecursive, if_neg (by simp [hp]), if_neg (by simp [hp])]
    exact .behind hp h
  | cons p h ih =>
    rw [Search.afterRecursive, Search.afterRecursive]
    split
    · exact ih
    · exact .cons p h

/-- A point behind one of the parts is one among all of them. -/
lemma twin_append (front : List Pattern) (hp : isRecursive p = false)
    (h : rest = [] → only = true) : Twin only (front ++ p :: rest) (front ++ p :: point :: rest) := by
  induction front with
  | nil => exact .behind hp h
  | cons q front ih => exact .cons q ih

/-- So is a point behind the parts in front, if these do not end in one that goes down. -/
lemma pointed_append {front : List Pattern}
    (hfront : ∀ p, front.getLast? = some p → isRecursive p = false) (h : rest = [] → only = true) :
    Pointed only (front ++ rest) (front ++ point :: rest) := by
  rcases List.eq_nil_or_concat' front with rfl | ⟨front, p, rfl⟩
  · exact .inr ⟨rfl, h⟩
  · have hp := hfront p List.getLast?_concat
    rw [List.append_assoc, List.append_assoc]
    exact .inl (twin_append front hp h)

namespace Search

variable {s s' : Search} {fuel fuel' : Nat}

/-! ## One walk beside the other -/

/-- Two ways of walking find the same files by related parts, from where they have space enough. -/
def PairedIn (t : Tree) (extra fuel fuel' : Nat) (Related : List Pattern → List Pattern → Prop)
    (walk walk' : List Pattern → Path → List Path) : Prop :=
  ∀ ps ps' p q, Related ps ps' → (∀ x ∈ ps', .char '/' ∉ x) → t.Respells p q →
    space t ps p.target + extra < fuel → space t ps' q.target + extra < fuel' →
    List.Forall₂ t.Respells (walk ps p) (walk' ps' q)

/-- Both spellings are found under the same condition. -/
lemma forall₂_ite {c c' : Bool} {found found' : List Path} (hc : c' = c)
    (h : c = true → List.Forall₂ t.Respells found found') :
    List.Forall₂ t.Respells (if c then found else []) (if c' then found' else []) := by
  rw [hc]
  split
  · next hc => exact h hc
  · exact .nil

/-- Nothing is found in what is no directory. -/
lemma enter_eq_nil (hu : t.Proper) (hp : ∀ x ∈ ps, .char '/' ∉ x) {dir : Path} (hdir : dir.text ≠ [])
    (hnot : t.isDirectory dir = false) : s.enter t fuel ps dir = [] := by
  cases fuel with
  | zero => cases ps <;> simp only [enter]
  | succ fuel =>
    cases ps with
    | nil => simp only [enter]
    | cons p rest =>
      -- both a literal and a wild part need a directory to go on
      cases hlit : literal? p with
      | some name =>
        have hname := slash_not_mem_of_literal? (hp p List.mem_cons_self) hlit
        rw [enter_literal hu hdir hlit hname, if_neg]
        intro hreach
        rw [((Tree.reaches_join_iff hdir hname).1 hreach).1] at hnot
        cases hnot
      | none =>
        rw [enter]
        simp only [hlit, hnot, Bool.false_eq_true, if_false]

/-- A point is taken in one step, if it stands behind a directory. -/
lemma enter_point (hu : t.Proper) {dir : Path} (hdir : dir.text ≠ []) :
    s.enter t (fuel + 1) (point :: ps) dir =
      if t.isDirectory dir then s.proceed t fuel ps (dir.join ⟨['.']⟩) else [] := by
  rw [enter_literal hu hdir (by rfl) (by decide), reaches_join_point hu hdir (by decide) (.inl rfl)]

/-- Where no part is left, both spellings are results or neither is. -/
lemma forall₂_result {p q : Path} (hs : s'.directoriesOnly = s.directoriesOnly) (h : t.Respells p q) :
    List.Forall₂ t.Respells (s.result t p) (s'.result t q) := by
  unfold result
  rw [hs, h.isDirectory]
  split
  · exact .nil
  · exact .cons h .nil

/-- Where only directories are looked for, a point at the end finds the same ones. -/
lemma forall₂_result_point (hu : t.Proper) (hs : s'.directoriesOnly = s.directoriesOnly)
    (honly : s.directoriesOnly = true) {p q : Path} (h : t.Respells p q) :
    List.Forall₂ t.Respells (s.result t p)
      (if t.isDirectory q then s'.result t (q.join ⟨['.']⟩) else []) := by
  cases hdir : t.isDirectory q with
  | true => exact forall₂_result hs (h.point hu hdir)
  | false =>
    rw [h.isDirectory] at hdir
    unfold result
    rw [honly, hdir]
    exact .nil

/-- Going on finds the same files if entering does. -/
lemma paired_proceed (hu : t.Proper) (hs : s'.directoriesOnly = s.directoriesOnly)
    (henter : PairedIn t 0 fuel fuel' (fun ps ps' => ps ≠ [] ∧ Pointed s.directoriesOnly ps ps')
      (s.enter t fuel) (s'.enter t fuel')) :
    PairedIn t 1 (fuel + 1) (fuel' + 1) (Pointed s.directoriesOnly) (s.proceed t (fuel + 1))
      (s'.proceed t (fuel' + 1)) := by
  intro ps ps' p q hps hslash hpq hroom hroom'
  cases ps with
  | cons x rest =>
    -- the other pattern is not at its end, as no part is dropped from it
    obtain ⟨x', rest', rfl⟩ : ∃ x' rest', ps' = x' :: rest' := by
      rcases hps with htwin | ⟨rfl, -⟩
      · obtain ⟨rest', rfl, -⟩ := htwin.tail
        exact ⟨x, rest', rfl⟩
      · exact ⟨_, _, rfl⟩
    rw [proceed, proceed]
    exact henter _ _ p q ⟨by simp, hps⟩ hslash hpq (by omega) (by omega)
  | nil =>
    rw [proceed]
    rcases hps with htwin | ⟨rfl, honly⟩
    · rw [htwin.eq_nil, proceed]
      exact forall₂_result hs hpq
    · -- two more steps go over the point
      rw [space_cons] at hroom'
      obtain ⟨n, rfl⟩ : ∃ n, fuel' = n + 2 := ⟨fuel' - 2, by omega⟩
      rw [proceed, enter_point hu (Path.text_ne_nil_of_isAbsolute hpq.absolute'), proceed]
      exact forall₂_result_point hu hs (honly rfl) hpq

/-- A name that has matched finds the same files if going on does. -/
lemma paired_named
    (hproceed : PairedIn t 1 fuel fuel' (Pointed s.directoriesOnly) (s.proceed t fuel)
      (s'.proceed t fuel')) :
    PairedIn t 0 (fuel + 1) (fuel' + 1) (Twin s.directoriesOnly) (s.named t (fuel + 1))
      (s'.named t (fuel' + 1)) := by
  intro ps ps' p q hps hslash hpq hroom hroom'
  cases ps with
  | nil =>
    rw [hps.eq_nil]
    simp only [named]
    exact .nil
  | cons x rest =>
    obtain ⟨rest', rfl, hrest⟩ := hps.tail
    -- the respelled path has the same name
    have hname : q.fileName? = p.fileName? := by
      unfold Path.fileName?
      rw [hpq.components]
    rw [named, named, hname]
    refine forall₂_ite rfl fun _ => ?_
    rw [space_cons] at hroom hroom'
    exact hproceed rest rest' p q hrest (fun y hy => hslash y (List.mem_cons_of_mem _ hy)) hpq
      (by omega) (by omega)

/-- A part that goes down to all directories passes over the parts like it, and then both walks look
here and further down. -/
lemma paired_visit_recursive
    (henter : PairedIn t 0 fuel fuel' (fun ps ps' => ps ≠ [] ∧ Pointed s.directoriesOnly ps ps')
      (s.enter t fuel) (s'.enter t fuel'))
    (hnamed : PairedIn t 0 fuel fuel' (Twin s.directoriesOnly) (s.named t fuel) (s'.named t fuel'))
    {p q : Path} {x : Pattern} (hx : isRecursive x = true) (hrest : Twin s.directoriesOnly rest rest')
    (hslash : ∀ y ∈ x :: rest', .char '/' ∉ y) (hpq : t.Respells p q)
    (hroom : space t (x :: rest) p.target < fuel) (hroom' : space t (x :: rest') q.target < fuel') :
    List.Forall₂ t.Respells (s.visit t (fuel + 1) (x :: rest) p)
      (s'.visit t (fuel' + 1) (x :: rest') q) := by
  have hafter := hrest.afterRecursive
  -- there is room for all patterns that are no longer
  have hfits : ∀ qs qs' : List Pattern, qs.length ≤ (x :: rest).length →
      qs'.length ≤ (x :: rest').length →
      space t qs p.target + 0 < fuel ∧ space t qs' q.target + 0 < fuel' := by
    intro qs qs' hlength hlength'
    have hle := space_le_of_length t p.target hlength
    have hle' := space_le_of_length t q.target hlength'
    omega
  rw [visit, visit, if_pos hx, if_pos hx]
  cases hmore : afterRecursive rest with
  | nil =>
    rw [hmore] at hafter
    rw [hafter.eq_nil]
    refine forall₂_ite hpq.isDirectory fun _ => .cons hpq ?_
    obtain ⟨hfit, hfit'⟩ := hfits [x] [x] (by simp) (by simp)
    refine henter [x] [x] p q ⟨by simp, .inl (.same _)⟩ ?_ hpq hfit hfit'
    exact fun y hy => hslash y (List.mem_cons.2 (.inl (List.mem_singleton.1 hy)))
  | cons y more =>
    rw [hmore] at hafter
    obtain ⟨more', hmore', -⟩ := hafter.exists_cons
    rw [hmore'] at hafter ⊢
    have hlength := length_afterRecursive hmore
    have hlength' := length_afterRecursive hmore'
    have hsub : ∀ z ∈ y :: more', .char '/' ∉ z := by
      intro z hz
      refine hslash z (List.mem_cons_of_mem _ ?_)
      exact (afterRecursive_suffix rest').subset (hmore' ▸ hz)
    refine List.rel_append ?_ (forall₂_ite hpq.isDirectory fun _ => ?_)
    · obtain ⟨hfit, hfit'⟩ := hfits (y :: more) (y :: more') (Nat.le_succ_of_le hlength)
        (Nat.le_succ_of_le hlength')
      exact hnamed _ _ p q hafter hsub hpq hfit hfit'
    · obtain ⟨hfit, hfit'⟩ := hfits (x :: y :: more) (x :: y :: more') (Nat.succ_le_succ hlength)
        (Nat.succ_le_succ hlength')
      refine henter _ _ p q ⟨by simp, .inl (.cons x hafter)⟩ ?_ hpq hfit hfit'
      exact List.forall_mem_cons.2 ⟨hslash x List.mem_cons_self, hsub⟩

/-- Visiting a name finds the same files if entering it and matching it do. -/
lemma paired_visit
    (henter : PairedIn t 0 fuel fuel' (fun ps ps' => ps ≠ [] ∧ Pointed s.directoriesOnly ps ps')
      (s.enter t fuel) (s'.enter t fuel'))
    (hnamed : PairedIn t 0 fuel fuel' (Twin s.directoriesOnly) (s.named t fuel) (s'.named t fuel')) :
    PairedIn t 2 (fuel + 1) (fuel' + 1) (Twin s.directoriesOnly) (s.visit t (fuel + 1))
      (s'.visit t (fuel' + 1)) := by
  intro ps ps' p q hps hslash hpq hroom hroom'
  cases ps with
  | nil =>
    rw [hps.eq_nil]
    simp only [visit]
    exact .nil
  | cons x rest =>
    by_cases hx : isRecursive x = true
    · obtain ⟨rest', rfl, hrest⟩ := hps.tail_of_recursive hx
      exact paired_visit_recursive henter hnamed hx hrest hslash hpq (by omega) (by omega)
    · obtain ⟨rest', rfl, -⟩ := hps.exists_cons
      rw [visit, visit, if_neg hx, if_neg hx]
      exact hnamed _ _ p q hps hslash hpq (by omega) (by omega)

/-- What is behind each of the names in a directory is found by both spellings. -/
lemma paired_contents (hu : t.Proper) {p q : Path}
    (hvisit : PairedIn t 2 fuel fuel' (Twin s.directoriesOnly) (s.visit t fuel) (s'.visit t fuel'))
    (hps : Twin s.directoriesOnly ps ps') (hslash : ∀ x ∈ ps', .char '/' ∉ x) (hpq : t.Respells p q)
    (hdir : t.isDirectory p = true) (hroom : space t ps p.target < fuel + 1)
    (hroom' : space t ps' q.target < fuel' + 1) :
    List.Forall₂ t.Respells ((contents t p).flatMap fun child => s.visit t fuel ps child)
      ((contents t q).flatMap fun child => s'.visit t fuel' ps' child) := by
  have hdir' := hpq.isDirectory.trans hdir
  have htext := Path.text_ne_nil_of_isAbsolute hpq.absolute
  have htext' := Path.text_ne_nil_of_isAbsolute hpq.absolute'
  rw [contents_of_isDirectory hdir, contents_of_isDirectory hdir', ← hpq.target, List.flatMap_map,
    List.flatMap_map]
  -- the entries are those of one and the same place
  refine List.rel_flatMap (R := fun name name' => name' = name ∧ name ∈ t.namesIn p.target) ?_ ?_
  · exact List.forall₂_same.2 fun name hname => ⟨rfl, hname⟩
  · rintro _ name ⟨rfl, hmem⟩
    obtain ⟨hname, hsome⟩ := hu.mem_namesIn hmem
    have hreach : t.reaches (p.join ⟨name⟩) = true := by
      rw [Tree.reaches_join_iff htext hname.2.2.2, Tree.isThere, Path.target_join_of_isName htext hname]
      exact ⟨hdir, hsome⟩
    have hbelow : (t.at? ([] ++ (p.target ++ [name]))).isSome = true := hsome
    have hspace := space_child hu hbelow ps
    have hspace' := space_child hu hbelow ps'
    rw [hpq.target] at hspace'
    refine hvisit ps ps' _ _ hps hslash (hpq.join hname.2.2.2 hreach) ?_ ?_
    · rw [Path.target_join_of_isName htext hname]
      omega
    · rw [Path.target_join_of_isName htext' hname]
      omega

/-- With a name behind a part both walks go on with the parts that are left. -/
lemma paired_step
    (hproceed : PairedIn t 1 fuel fuel' (Pointed s.directoriesOnly) (s.proceed t fuel)
      (s'.proceed t fuel'))
    {p q : Path} {x : Pattern} {name : List Char} (hrest : Pointed s.directoriesOnly rest rest')
    (hslash : ∀ y ∈ rest', .char '/' ∉ y) (hpq : t.Respells p q) (hname : '/' ∉ name)
    (hreach : t.reaches (p.join ⟨name⟩) = true) (hroom : space t (x :: rest) p.target < fuel + 1)
    (hroom' : space t (x :: rest') q.target < fuel' + 1) :
    List.Forall₂ t.Respells (s.proceed t fuel rest (p.join ⟨name⟩))
      (s'.proceed t fuel' rest' (q.join ⟨name⟩)) := by
  have hle := space_descend_le t rest p.target name
  have hle' := space_descend_le t rest' q.target name
  rw [space_cons] at hroom hroom'
  refine hproceed rest rest' _ _ hrest hslash (hpq.join hname hreach) ?_ ?_
  · rw [Path.target_join (Path.text_ne_nil_of_isAbsolute hpq.absolute) hname]
    omega
  · rw [Path.target_join (Path.text_ne_nil_of_isAbsolute hpq.absolute') hname]
    omega

/-- A part that spells `.` or `..` goes there in both walks. -/
lemma paired_point (hu : t.Proper)
    (hproceed : PairedIn t 1 fuel fuel' (Pointed s.directoriesOnly) (s.proceed t fuel)
      (s'.proceed t fuel'))
    {p q : Path} {x : Pattern} {name : List Char} (hrest : Pointed s.directoriesOnly rest rest')
    (hslash : ∀ y ∈ rest', .char '/' ∉ y) (hpq : t.Respells p q) (hdir : t.isDirectory p = true)
    (hname : name = ['.'] ∨ name = ['.', '.']) (hroom : space t (x :: rest) p.target < fuel + 1)
    (hroom' : space t (x :: rest') q.target < fuel' + 1) :
    List.Forall₂ t.Respells
      (if x.head? = some (.char '.') && matchesText x name then
        s.proceed t fuel rest (p.join ⟨name⟩) else [])
      (if x.head? = some (.char '.') && matchesText x name then
        s'.proceed t fuel' rest' (q.join ⟨name⟩) else []) := by
  have hnot : '/' ∉ name := by
    rcases hname with rfl | rfl
    · decide
    · decide
  refine forall₂_ite rfl fun _ => ?_
  have hreach := (reaches_join_point hu (Path.text_ne_nil_of_isAbsolute hpq.absolute) hnot hname).trans
    hdir
  exact paired_step hproceed hrest hslash hpq hnot hreach hroom hroom'

/-- Two walks with the same part in front take the same steps by it. -/
lemma paired_enter_twin (hu : t.Proper)
    (hproceed : PairedIn t 1 fuel fuel' (Pointed s.directoriesOnly) (s.proceed t fuel)
      (s'.proceed t fuel'))
    (hvisit : PairedIn t 2 fuel fuel' (Twin s.directoriesOnly) (s.visit t fuel) (s'.visit t fuel'))
    {p q : Path} {x : Pattern} (htwin : Twin s.directoriesOnly (x :: rest) ps')
    (hslash : ∀ y ∈ ps', .char '/' ∉ y) (hpq : t.Respells p q)
    (hroom : space t (x :: rest) p.target < fuel + 1) (hroom' : space t ps' q.target < fuel' + 1) :
    List.Forall₂ t.Respells (s.enter t (fuel + 1) (x :: rest) p) (s'.enter t (fuel' + 1) ps' q) := by
  obtain ⟨rest', rfl, hrest⟩ := htwin.tail
  have hslash' : ∀ y ∈ rest', .char '/' ∉ y := fun y hy => hslash y (List.mem_cons_of_mem _ hy)
  cases hlit : literal? x with
  | some name =>
    have hname := slash_not_mem_of_literal? (hslash x List.mem_cons_self) hlit
    rw [enter_literal hu (Path.text_ne_nil_of_isAbsolute hpq.absolute) hlit hname,
      enter_literal hu (Path.text_ne_nil_of_isAbsolute hpq.absolute') hlit hname]
    refine forall₂_ite (hpq.reaches_join hname) fun hreach => ?_
    exact paired_step hproceed hrest hslash' hpq hname hreach hroom hroom'
  | none =>
    rw [enter, enter]
    simp only [hlit]
    refine forall₂_ite hpq.isDirectory fun hdir => List.rel_append (List.rel_append ?_ ?_) ?_
    · exact paired_point hu hproceed hrest hslash' hpq hdir (.inr rfl) hroom hroom'
    · exact paired_point hu hproceed hrest hslash' hpq hdir (.inl rfl) hroom hroom'
    · exact paired_contents hu hvisit htwin hslash hpq hdir hroom hroom'

/-- Entering finds the same files, by a point too if what is behind it is found. -/
lemma paired_enter (hu : t.Proper)
    (hproceed : PairedIn t 1 fuel fuel' (Pointed s.directoriesOnly) (s.proceed t fuel)
      (s'.proceed t fuel'))
    (hvisit : PairedIn t 2 fuel fuel' (Twin s.directoriesOnly) (s.visit t fuel) (s'.visit t fuel'))
    (hbehind : ∀ n, n + 1 = fuel' → PairedIn t 0 (fuel + 1) n
      (fun ps ps' => ps ≠ [] ∧ Pointed s.directoriesOnly ps ps') (s.enter t (fuel + 1))
      (s'.enter t n)) :
    PairedIn t 0 (fuel + 1) (fuel' + 1) (fun ps ps' => ps ≠ [] ∧ Pointed s.directoriesOnly ps ps')
      (s.enter t (fuel + 1)) (s'.enter t (fuel' + 1)) := by
  rintro ps ps' p q ⟨hne, hps⟩ hslash hpq hroom hroom'
  obtain ⟨x, rest, rfl⟩ := List.exists_cons_of_ne_nil hne
  rcases hps with htwin | ⟨rfl, -⟩
  · exact paired_enter_twin hu hproceed hvisit htwin hslash hpq hroom hroom'
  · -- the point is gone over first, while the other walk has not begun
    rw [space_cons] at hroom'
    obtain ⟨n, rfl⟩ : ∃ n, fuel' = n + 1 := ⟨fuel' - 1, by omega⟩
    have hslash' : ∀ y ∈ x :: rest, .char '/' ∉ y := fun y hy => hslash y (List.mem_cons_of_mem _ hy)
    rw [enter_point hu (Path.text_ne_nil_of_isAbsolute hpq.absolute'), proceed]
    cases hdir : t.isDirectory q with
    | true =>
      have hsame := hpq.point hu hdir
      refine hbehind n rfl _ _ p _ ⟨hne, .inl (.same _)⟩ hslash' hsame hroom ?_
      rw [← hsame.target, hpq.target]
      omega
    | false =>
      rw [hpq.isDirectory] at hdir
      rw [enter_eq_nil hu hslash' (Path.text_ne_nil_of_isAbsolute hpq.absolute) hdir]
      exact .nil

/-- Both walks find the same files, in each of the four ways in which they go on. -/
theorem paired_walk (hu : t.Proper) (hs : s'.directoriesOnly = s.directoriesOnly) (fuel fuel' : Nat) :
    PairedIn t 0 fuel fuel' (fun ps ps' => ps ≠ [] ∧ Pointed s.directoriesOnly ps ps')
        (s.enter t fuel) (s'.enter t fuel') ∧
      PairedIn t 1 fuel fuel' (Pointed s.directoriesOnly) (s.proceed t fuel) (s'.proceed t fuel') ∧
      PairedIn t 2 fuel fuel' (Twin s.directoriesOnly) (s.visit t fuel) (s'.visit t fuel') ∧
      PairedIn t 0 fuel fuel' (Twin s.directoriesOnly) (s.named t fuel) (s'.named t fuel') := by
  induction fuel' using Nat.strongRecOn generalizing fuel with
  | ind fuel' ih =>
    cases fuel' with
    | zero => exact ⟨by intro; omega, by intro; omega, by intro; omega, by intro; omega⟩
    | succ fuel' =>
      cases fuel with
      | zero => exact ⟨by intro; omega, by intro; omega, by intro; omega, by intro; omega⟩
      | succ fuel =>
        obtain ⟨henter, hproceed, hvisit, hnamed⟩ := ih fuel' (Nat.lt_succ_self _) fuel
        refine ⟨paired_enter hu hproceed hvisit ?_, paired_proceed hu hs henter,
          paired_visit henter hnamed, paired_named hproceed⟩
        rintro n rfl
        exact (ih n (by omega) (fuel + 1)).1

/-- A walk that has a point more among its parts finds the same files. -/
lemma forall₂_paths (hu : t.Proper) (hs : s'.directoriesOnly = s.directoriesOnly)
    (hne : s.parts ≠ []) (hparts : Pointed s.directoriesOnly s.parts s'.parts)
    (hslash : ∀ x ∈ s'.parts, .char '/' ∉ x) :
    List.Forall₂ t.Respells (s.paths t) (s'.paths t) := by
  have hroot : t.Respells ⟨['/']⟩ ⟨['/']⟩ := ⟨rfl, rfl, rfl, reaches_root t, reaches_root t⟩
  refine (paired_walk hu hs _ _).1 _ _ _ _ ⟨hne, hparts⟩ hslash hroot ?_ ?_
  · unfold space
    omega
  · unfold space
    omega

end Search

end Glob

end StoreBindings
