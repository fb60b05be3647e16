import Mathlib.Data.List.Basic
import StoreBindings.Path.Relative

/-!
# The parts of a path

`pieces` takes a text apart at its slashes and `joined` puts parts together again. They undo each
other: `joined_pieces` (beside the definitions) and `pieces_joined`. `parent?_cases` says what is
taken off a path when its parent is asked for. Joining two paths is joining their texts, with a slash
between them unless the first one ends in one: `text_join`.
-/

namespace StoreBindings.Path

/-- Every text has a part, though it may be empty. -/
lemma pieces_ne_nil (cs : List Char) : pieces cs ≠ [] := by
  cases cs with
  | nil => simp [pieces]
  | cons c cs =>
    rw [pieces]
    split
    · simp
    · split <;> simp

/-- A part has no slash in it. -/
lemma slash_not_mem_of_mem_pieces {cs : List Char} : ∀ {p : List Char}, p ∈ pieces cs → '/' ∉ p := by
  induction cs with
  | nil =>
    intro p hp
    rw [pieces, List.mem_singleton] at hp
    simp [hp]
  | cons c cs ih =>
    intro p hp
    rw [pieces] at hp
    split at hp
    · rcases List.mem_cons.1 hp with rfl | hp
      · simp
      · exact ih hp
    · next hc =>
      -- a character that is no slash goes to the first part of the rest
      cases hps : pieces cs with
      | nil => exact absurd hps (pieces_ne_nil cs)
      | cons q qs =>
        rw [hps] at hp
        rcases List.mem_cons.1 hp with rfl | hp
        · have hq : '/' ∉ q := ih (by rw [hps]; exact List.mem_cons_self)
          intro hmem
          rcases List.mem_cons.1 hmem with h | h
          · exact hc h.symm
          · exact hq h
        · exact ih (by rw [hps]; exact List.mem_cons_of_mem _ hp)

/-- A text without a slash is one part. -/
lemma pieces_of_slash_not_mem {cs : List Char} (h : '/' ∉ cs) : pieces cs = [cs] := by
  induction cs with
  | nil => rfl
  | cons c cs ih =>
    rw [List.mem_cons, not_or] at h
    rw [pieces, if_neg (fun hc => h.1 hc.symm), ih h.2]

/-- A slash between two texts ends the last part of the first one. -/
lemma pieces_append_slash (a b : List Char) : pieces (a ++ '/' :: b) = pieces a ++ pieces b := by
  induction a with
  | nil => simp [pieces]
  | cons c a ih =>
    rw [List.cons_append, pieces, pieces, ih]
    split
    · rfl
    · cases hp : pieces a with
      | nil => exact absurd hp (pieces_ne_nil a)
      | cons p ps => rfl

/-- Joined parts have the characters of each of them. -/
lemma mem_joined {p : List Char} {ps : List (List Char)} (hp : p ∈ ps) {c : Char} (hc : c ∈ p) :
    c ∈ joined ps := by
  induction ps with
  | nil => cases hp
  | cons q ps ih =>
    cases ps with
    | nil =>
      rw [List.mem_singleton.1 hp] at hc
      exact hc
    | cons r ps =>
      rw [joined]
      rcases List.mem_cons.1 hp with rfl | hp
      · exact List.mem_append_left _ hc
      · exact List.mem_append_right _ (List.mem_cons_of_mem _ (ih hp))

/-- What is no slash is in one of the parts. -/
lemma exists_mem_pieces {cs : List Char} {c : Char} (h : c ∈ cs) (hc : c ≠ '/') :
    ∃ p ∈ pieces cs, c ∈ p := by
  induction cs with
  | nil => cases h
  | cons d cs ih =>
    rw [pieces]
    split
    · next hd =>
      obtain ⟨p, hp, hcp⟩ := ih (List.mem_of_ne_of_mem (hd ▸ hc) h)
      exact ⟨p, List.mem_cons_of_mem _ hp, hcp⟩
    · cases hpieces : pieces cs with
      | nil => exact absurd hpieces (pieces_ne_nil cs)
      | cons q qs =>
        rw [hpieces] at ih
        rcases List.mem_cons.1 h with rfl | h
        · exact ⟨c :: q, List.mem_cons_self, List.mem_cons_self⟩
        · obtain ⟨p, hp, hcp⟩ := ih h
          rcases List.mem_cons.1 hp with rfl | hp
          · exact ⟨d :: p, List.mem_cons_self, List.mem_cons_of_mem _ hcp⟩
          · exact ⟨p, List.mem_cons_of_mem _ hp, hcp⟩

/-- A slash stands behind the first part, unless it is the last. -/
lemma joined_cons (p : List Char) {ps : List (List Char)} (h : ps ≠ []) :
    joined (p :: ps) = p ++ '/' :: joined ps := by
  cases ps with
  | nil => exact absurd rfl h
  | cons q ps => rfl

/-- A slash stands between two lists of parts. -/
lemma joined_append {ps qs : List (List Char)} (hps : ps ≠ []) (hqs : qs ≠ []) :
    joined (ps ++ qs) = joined ps ++ '/' :: joined qs := by
  induction ps with
  | nil => exact absurd rfl hps
  | cons p ps ih =>
    by_cases hnil : ps = []
    · rw [hnil, List.singleton_append, joined_cons p hqs]
      rfl
    · rw [List.cons_append, joined_cons p (by simp [hnil]), ih hnil, joined_cons p hnil]
      simp

/-- Parts without slashes that are put together are taken apart again. -/
theorem pieces_joined {ps : List (List Char)} (hne : ps ≠ []) (h : ∀ p ∈ ps, '/' ∉ p) :
    pieces (joined ps) = ps := by
  induction ps with
  | nil => exact absurd rfl hne
  | cons p ps ih =>
    have hp : '/' ∉ p := h p List.mem_cons_self
    cases ps with
    | nil => rw [joined, pieces_of_slash_not_mem hp]
    | cons q qs =>
      rw [joined, pieces_append_slash, pieces_of_slash_not_mem hp, List.singleton_append,
        ih (by simp) fun r hr => h r (List.mem_cons_of_mem _ hr)]

/-- Without its last component a list of parts is a proper beginning of what it was. -/
lemma exists_append_of_dropLast? {ps before : List (List Char)}
    (h : dropLast? ps.reverse = some before) :
    ∃ rest, rest ≠ [] ∧ ps = before.reverse ++ rest := by
  unfold dropLast? at h
  have hsplit := List.takeWhile_append_dropWhile (p := isIdle) (l := ps.reverse)
  split at h
  · cases h
  · next x rest hd =>
    rw [Option.some.injEq] at h
    have hsplit' := List.takeWhile_append_dropWhile (p := isIdle) (l := rest)
    rw [h] at hsplit'
    rw [hd, ← hsplit'] at hsplit
    have hrev := congrArg List.reverse hsplit
    rw [List.reverse_reverse] at hrev
    refine ⟨(List.takeWhile isIdle rest).reverse ++ x :: (List.takeWhile isIdle ps.reverse).reverse,
      by simp, hrev.symm.trans ?_⟩
    simp

/-- An absolute path has a text. -/
lemma text_ne_nil_of_isAbsolute {p : Path} (h : p.isAbsolute = true) : p.text ≠ [] := by
  intro hnil
  rw [isAbsolute, hnil] at h
  cases h

/-- The first part of a path from the root is empty. -/
lemma exists_pieces_of_isAbsolute {p : Path} (h : p.isAbsolute = true) :
    ∃ more, pieces p.text = [] :: more := by
  unfold isAbsolute at h
  cases htext : p.text with
  | nil => exact absurd htext (text_ne_nil_of_isAbsolute h)
  | cons c cs =>
    rw [htext, List.head?_cons, beq_iff_eq, Option.some.injEq] at h
    exact ⟨pieces cs, by rw [pieces, if_pos h]⟩

/-- Above an absolute path is the root, or a path with fewer parts. -/
lemma parent?_cases_of_isAbsolute {p above : Path} (habs : p.isAbsolute = true)
    (hp : p.parent? = some above) :
    above.text = ['/'] ∨ ∃ rest, rest ≠ [] ∧ pieces p.text = pieces above.text ++ rest := by
  have hslash : ∀ q ∈ pieces p.text, '/' ∉ q := fun q => slash_not_mem_of_mem_pieces
  -- the part before the first slash stays, and no other has to
  obtain ⟨more, hmore⟩ := exists_pieces_of_isAbsolute habs
  rw [parent?, if_pos habs, hmore, List.drop_one, List.tail_cons] at hp
  obtain ⟨before, hb, rfl⟩ := Option.map_eq_some_iff.1 hp
  obtain ⟨rest, hrest, happ⟩ := exists_append_of_dropLast? hb
  rw [hmore, happ] at hslash ⊢
  by_cases hnil : before.reverse = []
  · left
    rw [hnil]
    rfl
  · right
    have hbefore : pieces (joined before.reverse) = before.reverse := pieces_joined hnil fun q hq =>
      hslash q (List.mem_cons_of_mem _ (List.mem_append_left _ hq))
    refine ⟨rest, hrest, ?_⟩
    rw [pieces, if_pos rfl, hbefore]
    rfl

/-- The parent of a path is spelled with a proper beginning of its parts, unless there is nothing left
to spell but the root, or nothing at all. -/
theorem parent?_cases {p above : Path} (hp : p.parent? = some above) :
    above.text = [] ∨ above.text = ['/'] ∨
      ∃ rest, rest ≠ [] ∧ pieces p.text = pieces above.text ++ rest := by
  by_cases habs : p.isAbsolute = true
  · exact .inr (parent?_cases_of_isAbsolute habs hp)
  have hslash : ∀ q ∈ pieces p.text, '/' ∉ q := fun q => slash_not_mem_of_mem_pieces
  rw [parent?, if_neg habs] at hp
  split at hp
  · cases hp
  · next first more hmore =>
    -- the first part can be all that stays, and is left out where it is idle
    split at hp
    · next before hb =>
      obtain ⟨rest, hrest, happ⟩ := exists_append_of_dropLast? hb
      rw [hmore, happ] at hslash ⊢
      split at hp
      · left
        rw [← Option.some.inj hp]
      · right; right
        rw [← List.cons_append] at hslash ⊢
        have hfront : pieces (joined (first :: before.reverse)) = first :: before.reverse :=
          pieces_joined (by simp) fun q hq => hslash q (List.mem_append_left _ hq)
        refine ⟨rest, hrest, ?_⟩
        rw [← Option.some.inj hp, hfront]
    · split at hp
      · left
        rw [← Option.some.inj hp]
      · cases hp

/-! ## Joining -/

section

variable {p q dir : Path}

/-- An absolute path replaces what it is joined to. -/
lemma join_of_isAbsolute (dir : Path) (h : p.isAbsolute = true) : dir.join p = p := if_pos h

/-- What stands in front of everything that is joined to a directory. -/
def lead (dir : Path) : List Char := (dir.join ⟨[]⟩).text

/-- A slash is put behind a directory, unless it ends in one or is empty. -/
lemma lead_eq (dir : Path) : dir.lead =
    if dir.text = [] ∨ dir.text.getLast? = some '/' then dir.text else dir.text ++ ['/'] := by
  unfold lead join
  rw [if_neg (by decide)]
  split <;> simp

/-- A relative path is written behind the lead of its directory. -/
theorem text_join (dir : Path) (hp : p.isAbsolute = false) : (dir.join p).text = dir.lead ++ p.text := by
  rw [lead_eq, join, hp, if_neg Bool.false_ne_true]
  split <;> simp

/-- The lead of a directory ends in a slash. -/
lemma getLast?_lead (h : dir.text ≠ []) : dir.lead.getLast? = some '/' := by
  rw [lead_eq]
  split
  · next hlast => exact hlast.resolve_left h
  · simp

/-- Two paths of which one has a text have one together. -/
lemma text_join_ne_nil (h : p.text ≠ [] ∨ q.text ≠ []) : (p.join q).text ≠ [] := by
  unfold join
  split
  · next hq => exact text_ne_nil_of_isAbsolute hq
  · split
    · simpa [← not_and_or] using h
    · simp

/-- What stands in front of everything that is joined to a directory in a directory. -/
lemma lead_join (hdir : dir.text ≠ []) (hp : p.isAbsolute = false) :
    (dir.join p).lead = dir.lead ++ p.lead := by
  have hlast := getLast?_lead hdir
  rw [lead_eq (dir.join p), lead_eq p, text_join dir hp]
  by_cases hnil : p.text = []
  · simp [hnil, hlast]
  · -- the text of the path is what both texts end with
    rw [List.getLast?_append_of_ne_nil _ hnil]
    by_cases hslash : p.text.getLast? = some '/' <;> simp [hnil, hslash]

/-- What is joined to a directory is absolute if the directory is. -/
lemma isAbsolute_join (hdir : dir.text ≠ []) (p : Path) (h : p.isAbsolute = false) :
    (dir.join p).isAbsolute = dir.isAbsolute := by
  rw [isAbsolute, isAbsolute, text_join dir h, lead_eq]
  cases ht : dir.text with
  | nil => exact absurd ht hdir
  | cons c cs => split <;> rfl

lemma isAbsolute_join_of_isAbsolute (h : dir.isAbsolute = true) (p : Path) :
    (dir.join p).isAbsolute = true := by
  by_cases hp : p.isAbsolute = true
  · rw [join_of_isAbsolute dir hp, hp]
  · rw [isAbsolute_join (text_ne_nil_of_isAbsolute h) p (by simpa using hp), h]

/-- Only a relative path leaves what it is joined to relative. -/
lemma isAbsolute_of_join (h : (p.join q).isAbsolute = false) : q.isAbsolute = false := by
  by_contra hq
  rw [join_of_isAbsolute p (by simpa using hq)] at h
  exact hq h

/-- An empty directory leaves a path as it is. -/
lemma join_of_text_eq_nil (h : dir.text = []) (q : Path) : dir.join q = q := by
  unfold join
  split
  · rfl
  · rw [if_pos (.inl h), h]
    rfl

/-- Two relative paths are relative together. -/
lemma isAbsolute_join_of_relative (hp : p.isAbsolute = false) (hq : q.isAbsolute = false) :
    (p.join q).isAbsolute = false := by
  by_cases hnil : p.text = []
  · rw [join_of_text_eq_nil hnil, hq]
  · rw [isAbsolute_join hnil q hq, hp]

/-- What is joined to a directory in two steps can be joined to each other first. -/
lemma join_join (hdir : dir.text ≠ []) (hp : p.isAbsolute = false) (hq : q.isAbsolute = false) :
    (dir.join p).join q = dir.join (p.join q) := by
  have htext : ((dir.join p).join q).text = (dir.join (p.join q)).text := by
    rw [text_join _ hq, lead_join hdir hp, text_join _ (isAbsolute_join_of_relative hp hq),
      text_join _ hq, List.append_assoc]
  exact congrArg Path.mk htext

/-- An empty path only adds a slash, to which anything can be joined. -/
lemma join_empty_join (dir q : Path) : (dir.join ⟨[]⟩).join q = dir.join q := by
  cases hq : q.isAbsolute with
  | true => rw [join_of_isAbsolute _ hq, join_of_isAbsolute _ hq]
  | false =>
    by_cases hdir : dir.text = []
    · rw [join_of_text_eq_nil hdir, join_of_text_eq_nil rfl, join_of_text_eq_nil hdir]
    · rw [join_join hdir rfl hq, join_of_text_eq_nil rfl]

end

end StoreBindings.Path
