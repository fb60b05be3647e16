import StoreBindings.Proofs.Glob.Pointed

/-!
# Points in the text of a pattern

Behind a slash, a point with a slash behind it can be written into the text of a pattern. This spells a
pattern again if it was one before, and one part more, which is that point: `isSome_compile?_pointed`,
`find?_pointed`. As a whole, the pattern then matches only texts with a point between slashes:
`not_matchesText_pointed`.
-/

namespace StoreBindings.Glob

open Files (Tree)

variable {cs ds rest : List Char} {p q : Pattern} {ps : List Pattern} {previous : Option Char}

/-! ## Texts that spell a pattern -/

lemma afterSet?_append_of_none (h : afterSet? cs = none) (ds : List Char) :
    afterSet? (cs ++ ds) = afterSet? ds := by
  have hopen : cs.dropWhile (· != ']') = [] := by
    unfold afterSet? at h
    split at h
    · assumption
    · cases h
  unfold afterSet?
  rw [List.dropWhile_append, hopen]
  rfl

lemma snd_readSet?_outside (first : Char) (cs : List Char) :
    (readSet? ('!' :: first :: cs)).map Prod.snd = afterSet? cs := by
  rw [readSet?, Option.map_map]
  exact Option.map_id'

lemma snd_readSet?_inside {first : Char} (h : first ≠ '!') (cs : List Char) :
    (readSet? (first :: cs)).map Prod.snd = afterSet? cs := by
  rw [readSet?_inside h, Option.map_map]
  exact Option.map_id'

/-- What follows a set that is not closed before the point begins behind the point. -/
lemma snd_readSet?_pointed (h : readSet? cs = none) (ds : List Char) :
    (readSet? (cs ++ '/' :: '.' :: '/' :: ds)).map Prod.snd =
      (readSet? (cs ++ '/' :: ds)).map Prod.snd := by
  have hpoint : afterSet? ('.' :: '/' :: ds) = afterSet? ds := rfl
  have hslash : ∀ ds : List Char, afterSet? ('/' :: ds) = afterSet? ds := fun _ => rfl
  -- the first character counts as one of the set, whatever it is
  cases cs with
  | nil =>
    rw [List.nil_append, List.nil_append, snd_readSet?_inside (by decide),
      snd_readSet?_inside (by decide), hpoint]
  | cons first cs =>
    by_cases hnot : first = '!'
    · subst hnot
      cases cs with
      | nil =>
        show (readSet? ('!' :: '/' :: '.' :: '/' :: ds)).map Prod.snd =
          (readSet? ('!' :: '/' :: ds)).map Prod.snd
        rw [snd_readSet?_outside, snd_readSet?_outside, hpoint]
      | cons first cs =>
        have hopen : afterSet? cs = none := by
          rw [← snd_readSet?_outside first cs, h]
          rfl
        simp only [List.cons_append]
        rw [snd_readSet?_outside, snd_readSet?_outside, afterSet?_append_of_none hopen,
          afterSet?_append_of_none hopen, hslash, hslash, hpoint]
    · have hopen : afterSet? cs = none := by
        rw [← snd_readSet?_inside hnot cs, h]
        rfl
      rw [List.cons_append, List.cons_append, snd_readSet?_inside hnot, snd_readSet?_inside hnot,
        afterSet?_append_of_none hopen, afterSet?_append_of_none hopen, hslash, hslash, hpoint]

lemma compileAfter?_set (previous : Option Char) (cs : List Char) :
    (compileAfter? previous ('[' :: cs)).isSome =
      ((readSet? cs).map Prod.snd).any fun rest => (compileAfter? (some ']') rest).isSome := by
  rw [compileAfter?]
  split
  · next hset => simp [hset]
  · next hset => simp [hset]

lemma compileAfter?_star (h : cs.head? ≠ some '*') (previous : Option Char) :
    compileAfter? previous ('*' :: cs) = (compileAfter? (some '*') cs).map (.anySequence :: ·) := by
  rw [compileAfter?]
  · rintro rfl
    exact h rfl
  · rintro rest rfl
    exact h rfl
  · rintro d rest rfl
    exact h rfl

lemma compileAfter?_stars {c : Char} (h : c ≠ '/') (previous : Option Char) (cs : List Char) :
    compileAfter? previous ('*' :: '*' :: c :: cs) = none := by
  rw [compileAfter?]
  exact h

/-- A text spells a pattern with a point behind it if it does so without the point. -/
def IgnoresPoint (ds : List Char) (previous : Option Char) (cs : List Char) : Prop :=
  (compileAfter? previous (cs ++ '/' :: '.' :: '/' :: ds)).isSome =
    (compileAfter? previous (cs ++ '/' :: ds)).isSome

lemma isSome_compileAfter?_slash (previous : Option Char) (cs : List Char) :
    (compileAfter? previous ('/' :: cs)).isSome = (compileAfter? (some '/') cs).isSome := by
  rw [compileAfter?_cons (by decide), Option.isSome_map]

/-- Directly behind the slash the point and its slash are two more tokens. -/
lemma isSome_compileAfter?_point (ds : List Char) :
    (compileAfter? (some '/') ('.' :: '/' :: ds)).isSome = (compileAfter? (some '/') ds).isSome := by
  rw [compileAfter?_cons (by decide), Option.isSome_map, isSome_compileAfter?_slash]

/-- A star is read with what follows it: one or two more stars, or the slash before the point. -/
lemma ignoresPoint_star
    (ih : ∀ previous cs', cs'.length ≤ cs.length → IgnoresPoint ds previous cs') :
    IgnoresPoint ds previous ('*' :: cs) := by
  have hsingle : cs.head? ≠ some '*' → IgnoresPoint ds previous ('*' :: cs) := by
    intro hcs
    have hhead : ∀ more, (cs ++ '/' :: more).head? ≠ some '*' := by
      intro more
      cases cs with
      | nil => simp
      | cons d cs => exact hcs
    unfold IgnoresPoint
    rw [List.cons_append, List.cons_append, compileAfter?_star (hhead _), compileAfter?_star (hhead _),
      Option.isSome_map, Option.isSome_map]
    exact ih _ cs (Nat.le_refl _)
  cases cs with
  | nil => exact hsingle (by simp)
  | cons d cs =>
    -- two stars are one token only with a slash behind them, and that slash may be the one at the
    -- seam
    by_cases hd : d = '*'
    · subst hd
      unfold IgnoresPoint
      cases cs with
      | nil =>
        show (compileAfter? previous ('*' :: '*' :: '/' :: '.' :: '/' :: ds)).isSome =
          (compileAfter? previous ('*' :: '*' :: '/' :: ds)).isSome
        rw [compileAfter?, compileAfter?]
        split
        · rw [Option.isSome_map, Option.isSome_map, isSome_compileAfter?_point]
        · rfl
      | cons e cs =>
        simp only [List.cons_append]
        by_cases he : e = '/'
        · rw [he, compileAfter?, compileAfter?]
          split
          · rw [Option.isSome_map, Option.isSome_map]
            exact ih _ cs (Nat.le_add_right cs.length 2)
          · rfl
        · rw [compileAfter?_stars he, compileAfter?_stars he]
    · exact hsingle (by simpa using hd)

/-- A set may be closed before the point or behind it. -/
lemma ignoresPoint_set
    (ih : ∀ previous cs', cs'.length ≤ cs.length → IgnoresPoint ds previous cs') :
    IgnoresPoint ds previous ('[' :: cs) := by
  unfold IgnoresPoint
  rw [List.cons_append, List.cons_append, compileAfter?_set, compileAfter?_set]
  cases hread : readSet? cs with
  | none => rw [snd_readSet?_pointed hread]
  | some read =>
    obtain ⟨token, rest⟩ := read
    rw [readSet?_append hread, readSet?_append hread]
    exact ih _ rest (length_of_readSet? hread).le

lemma ignoresPoint (ds : List Char) (previous : Option Char) (cs : List Char) :
    IgnoresPoint ds previous cs := by
  induction hn : cs.length using Nat.strongRecOn generalizing cs previous with
  | ind n ih =>
    cases cs with
    | nil =>
      unfold IgnoresPoint
      rw [List.nil_append, List.nil_append, isSome_compileAfter?_slash, isSome_compileAfter?_slash,
        isSome_compileAfter?_point]
    | cons c cs =>
      have ih : ∀ previous cs', cs'.length ≤ cs.length → IgnoresPoint ds previous cs' := by
        intro previous cs' hle
        exact ih _ (hn ▸ Nat.lt_succ_of_le hle) previous cs' rfl
      by_cases hset : c = '['
      · rw [hset]
        exact ignoresPoint_set ih
      by_cases hstar : c = '*'
      · rw [hstar]
        exact ignoresPoint_star ih
      -- every other character is a token of its own
      have hnext := ih (some c) cs (Nat.le_refl _)
      unfold IgnoresPoint at hnext ⊢
      rw [List.cons_append, List.cons_append]
      by_cases hany : c = '?'
      · subst hany
        rw [compileAfter?, compileAfter?, Option.isSome_map, Option.isSome_map, hnext]
      · rw [compileAfter?_cons ⟨hstar, hany, hset⟩, compileAfter?_cons ⟨hstar, hany, hset⟩,
          Option.isSome_map, Option.isSome_map, hnext]

/-- With the point a text spells a pattern if it does so without it. -/
theorem isSome_compile?_pointed (cs ds : List Char) :
    (compile? (cs ++ '/' :: '.' :: '/' :: ds)).isSome = (compile? (cs ++ '/' :: ds)).isSome :=
  ignoresPoint ds none cs

/-! ## Parts -/

/-- A text without slashes that goes down to all directories is `**`. -/
lemma eq_of_isRecursive (h : compile? cs = some p) (hcs : '/' ∉ cs) (hp : isRecursive p = true) :
    cs = ['*', '*'] := by
  rw [isRecursive_iff.1 hp] at h
  cases reads_of_compileAfter? h hcs with
  | directories _ => rfl
  | token _ htoken _ _ => exact absurd rfl htoken

/-- Behind a slash the parts of a text are those of what stands there. -/
lemma partsOf_append_slash (cs ds : List Char) :
    partsOf (cs ++ '/' :: ds) = Path.pieces cs ++ partsOf ds := by
  have hne := Path.pieces_ne_nil ds
  unfold partsOf
  dsimp only
  rw [Path.pieces_append_slash, List.getLast?_append_of_ne_nil _ hne]
  split
  · rw [List.dropLast_append_of_ne_nil hne]
  · rfl

/-- What is related to one list behind another is taken apart as they are. -/
lemma exists_of_forall₂_append {α β : Type} {R : α → β → Prop} {as as' : List α} {bs : List β}
    (h : List.Forall₂ R (as ++ as') bs) :
    ∃ front rest, List.Forall₂ R as front ∧ List.Forall₂ R as' rest ∧ bs = front ++ rest := by
  induction as generalizing bs with
  | nil => exact ⟨[], bs, .nil, h, rfl⟩
  | cons a as ih =>
    obtain ⟨b, bs', hb, hbs, rfl⟩ := List.forall₂_cons_left_iff.1 h
    obtain ⟨front, rest, hfront, hrest, rfl⟩ := ih hbs
    exact ⟨b :: front, rest, .cons hb hfront, hrest, rfl⟩

/-- A part of a text spells a part of a pattern. -/
abbrev SpellsPart (part : List Char) (p : Pattern) : Prop := compile? part = some p

/-- The parts of a text from the root on are those before a slash and those behind it. -/
lemma partsOf_inner (hcs : cs = [] ∨ cs.head? = some '/') (ds : List Char) :
    partsOf (inner (cs ++ '/' :: ds)) = (Path.pieces cs).tail ++ partsOf ds := by
  cases cs with
  | nil => rfl
  | cons c cs =>
    obtain rfl : c = '/' := by simpa using hcs
    have hpieces : Path.pieces ('/' :: cs) = [] :: Path.pieces cs := by rw [Path.pieces, if_pos rfl]
    rw [hpieces, List.tail_cons, ← partsOf_append_slash]
    rfl

/-- A text is a search if it is a pattern and so are its parts before and behind a slash. -/
lemma ofText?_slash_iff (hcs : cs = [] ∨ cs.head? = some '/') (hne : cs = [] → ds ≠ [])
    {s : Search} : Search.ofText? (cs ++ '/' :: ds) = some s ↔
      (compile? (cs ++ '/' :: ds)).isSome = true ∧ ∃ front rest,
        List.Forall₂ SpellsPart (Path.pieces cs).tail front ∧
        List.Forall₂ SpellsPart (partsOf ds) rest ∧
        s = ⟨front ++ rest, ('/' :: ds).getLast? = some '/'⟩ := by
  have hinner : (inner (cs ++ '/' :: ds)).isEmpty = false := by
    cases cs with
    | nil =>
      rw [List.isEmpty_eq_false_iff]
      exact hne rfl
    | cons c cs => rw [inner_append (by simp)]; simp
  have hlast : (cs ++ '/' :: ds).getLast? = ('/' :: ds).getLast? :=
    List.getLast?_append_of_ne_nil _ (by simp)
  rw [ofText?_eq_some_iff, partsOf_inner hcs, hinner, hlast]
  simp only [Bool.false_eq_true, if_false]
  refine and_congr_right fun _ => ?_
  -- the parts of the whole text are those in front of the slash and those behind it
  constructor
  · rintro ⟨parts, hparts, rfl⟩
    obtain ⟨front, rest, hfront, hrest, rfl⟩ := exists_of_forall₂_append hparts
    exact ⟨front, rest, hfront, hrest, rfl⟩
  · rintro ⟨front, rest, hfront, hrest, rfl⟩
    exact ⟨_, List.rel_append hfront hrest, rfl⟩

/-- With a point behind the slash, the parts of a search have one more in the same place. -/
lemma ofText?_pointed_iff (hcs : cs = [] ∨ cs.head? = some '/') {s : Search} :
    Search.ofText? (cs ++ '/' :: '.' :: '/' :: ds) = some s ↔
      (compile? (cs ++ '/' :: ds)).isSome = true ∧ ∃ front rest,
        List.Forall₂ SpellsPart (Path.pieces cs).tail front ∧
        List.Forall₂ SpellsPart (partsOf ds) rest ∧
        s = ⟨front ++ point :: rest, ('/' :: ds).getLast? = some '/'⟩ := by
  have hparts : partsOf ('.' :: '/' :: ds) = ['.'] :: partsOf ds := partsOf_append_slash ['.'] ds
  have hpoint : SpellsPart ['.'] point := compile?_of_isPlain (by decide)
  rw [ofText?_slash_iff hcs (by simp), isSome_compile?_pointed, hparts, List.getLast?_cons_cons,
    List.getLast?_cons_cons]
  refine and_congr_right fun _ => exists_congr fun front => ?_
  constructor
  · rintro ⟨_, hfront, hrest, rfl⟩
    obtain ⟨p, rest, hp, hbehind, rfl⟩ := List.forall₂_cons_left_iff.1 hrest
    cases hpoint.symm.trans hp
    exact ⟨rest, hfront, hbehind, rfl⟩
  · rintro ⟨rest, hfront, hrest, rfl⟩
    exact ⟨_, hfront, .cons hpoint hrest, rfl⟩

/-- The last part before the slash does not go down to all directories if it is not `**`. -/
lemma isRecursive_last {front : List Pattern}
    (hfront : List.Forall₂ SpellsPart (Path.pieces cs).tail front)
    (hlast : (Path.pieces cs).getLast? ≠ some ['*', '*']) (hp : front.getLast? = some p) :
    isRecursive p = false := by
  obtain ⟨front, rfl⟩ := List.getLast?_eq_some_iff.1 hp
  obtain ⟨before, behind, -, hbehind, htail⟩ := exists_of_forall₂_append hfront.flip
  obtain ⟨part, _, hpart, hnil, rfl⟩ := List.forall₂_cons_left_iff.1 hbehind
  obtain rfl := List.forall₂_nil_left_iff.1 hnil
  obtain ⟨first, more, hcons⟩ := List.exists_cons_of_ne_nil (Path.pieces_ne_nil cs)
  rw [hcons, List.tail_cons] at htail
  have hpieces : Path.pieces cs = (first :: before) ++ [part] := by
    rw [hcons, htail]
    rfl
  have hmem : part ∈ Path.pieces cs := by
    rw [hpieces]
    exact List.mem_append_right _ (List.mem_singleton_self part)
  have hslash := Path.slash_not_mem_of_mem_pieces hmem
  rw [hpieces, List.getLast?_concat] at hlast
  rw [← Bool.not_eq_true]
  intro hp
  exact hlast (congrArg some (eq_of_isRecursive hpart hslash hp))

lemma map_normalize_of_respells {t : Tree} {found found' : List Path}
    (h : List.Forall₂ t.Respells found found') :
    found'.map Path.normalize = found.map Path.normalize := by
  induction h with
  | nil => rfl
  | cons hpq _ ih => rw [List.map_cons, List.map_cons, ih, hpq.normalize]

/-- What is found is found with a point behind a slash too, unless the slash is behind `**`. -/
theorem find?_pointed {t : Tree} (hu : t.Proper) (hcs : cs = [] ∨ cs.head? = some '/')
    (hlast : (Path.pieces cs).getLast? ≠ some ['*', '*']) (hne : cs = [] → ds ≠ []) :
    (find? t (cs ++ '/' :: '.' :: '/' :: ds)).map (List.map Path.normalize) =
      (find? t (cs ++ '/' :: ds)).map (List.map Path.normalize) := by
  unfold find?
  cases hs : Search.ofText? (cs ++ '/' :: ds) with
  | none =>
    cases hs' : Search.ofText? (cs ++ '/' :: '.' :: '/' :: ds) with
    | none => rfl
    | some s' =>
      obtain ⟨hcompile, front, rest, hfront, hrest, -⟩ := (ofText?_pointed_iff hcs).1 hs'
      rw [(ofText?_slash_iff hcs hne).2 ⟨hcompile, front, rest, hfront, hrest, rfl⟩] at hs
      cases hs
  | some s =>
    obtain ⟨hcompile, front, rest, hfront, hrest, rfl⟩ := (ofText?_slash_iff hcs hne).1 hs
    have hs' := (ofText?_pointed_iff hcs).2 ⟨hcompile, front, rest, hfront, hrest, rfl⟩
    rw [hs', Option.map_some, Option.map_some, Option.map_some, Option.map_some]
    -- what is behind the point is read to no parts only if nothing is there
    have hrest_nil : rest = [] → ds = [] := by
      rintro rfl
      by_contra hds
      exact partsOf_ne_nil hds (List.forall₂_nil_right_iff.1 hrest)
    refine congrArg some (map_normalize_of_respells (Search.forall₂_paths hu rfl ?_ ?_ ?_))
    · intro hnil
      obtain ⟨rfl, hrest⟩ := List.append_eq_nil_iff.1 hnil
      cases cs with
      | nil => exact hne rfl (hrest_nil hrest)
      | cons c cs =>
        obtain rfl : c = '/' := by simpa using hcs
        rw [Path.pieces, if_pos rfl, List.tail_cons] at hfront
        exact Path.pieces_ne_nil cs (List.forall₂_nil_right_iff.1 hfront)
    · refine pointed_append (fun p hp => isRecursive_last hfront hlast hp) fun hnil => ?_
      rw [hrest_nil hnil]
      rfl
    · exact slash_not_mem_of_ofText? hs'

/-- If there is a search, the parts before the slash spell parts of a pattern. -/
lemma exists_forall₂_of_find? {t : Tree} (hcs : cs = [] ∨ cs.head? = some '/')
    (hne : cs = [] → ds ≠ []) (h : (find? t (cs ++ '/' :: ds)).isSome = true) :
    ∃ ps, List.Forall₂ SpellsPart (Path.pieces cs) ps := by
  obtain ⟨found, hfound⟩ := Option.isSome_iff_exists.1 h
  obtain ⟨s, hs, -⟩ := Option.map_eq_some_iff.1 hfound
  obtain ⟨-, front, -, hfront, -⟩ := (ofText?_slash_iff hcs hne).1 hs
  have hpieces : Path.pieces cs = [] :: (Path.pieces cs).tail := by
    cases cs with
    | nil => rfl
    | cons c cs =>
      obtain rfl : c = '/' := by simpa using hcs
      rw [Path.pieces, if_pos rfl, List.tail_cons]
  rw [hpieces]
  exact ⟨[] :: front, .cons (compile?_of_isPlain (by simp [IsPlain])) hfront⟩

/-! ## Matching as a whole -/

/-- In front of a slash a text is read apart from what stands behind it. -/
lemma exists_compile?_joined {parts : List (List Char)} (hne : parts ≠ [])
    (h : List.Forall₂ SpellsPart parts ps) (hslash : ∀ part ∈ parts, '/' ∉ part)
    (hlast : parts.getLast? ≠ some ['*', '*']) : ∃ q, ∀ ds,
      compile? (Path.joined parts ++ '/' :: ds) = (compile? ds).map (q ++ .char '/' :: ·) := by
  induction h with
  | nil => exact absurd rfl hne
  | @cons part p parts ps hpart hparts ih =>
    have hread := reads_of_compileAfter? hpart (hslash part List.mem_cons_self)
    -- the last part is followed by the slash at the seam, the others by one of their own
    by_cases hnil : parts = []
    · have hp : isRecursive p = false := by
        rw [← Bool.not_eq_true]
        intro hp
        rw [eq_of_isRecursive hpart (hslash part List.mem_cons_self) hp, hnil] at hlast
        exact hlast rfl
      refine ⟨p, fun ds => ?_⟩
      rw [hnil, Path.joined, compile?, hread.slash, compileAfter?_start, hp]
      rfl
    · have hlast' : parts.getLast? ≠ some ['*', '*'] := by
        rwa [← List.singleton_append, List.getLast?_append_of_ne_nil _ hnil] at hlast
      obtain ⟨q, hq⟩ := ih hnil (fun x hx => hslash x (List.mem_cons_of_mem _ hx)) hlast'
      refine ⟨if isRecursive p then p ++ q else p ++ .char '/' :: q, fun ds => ?_⟩
      rw [Path.joined_cons part hnil, List.append_assoc, List.cons_append, compile?, hread.slash,
        compileAfter?_start, hq, Option.map_map]
      congr 1
      funext x
      rw [Function.comp_apply]
      split <;> simp

/-- What matches a pattern with characters in it has these characters in it. -/
lemma infix_of_matchesText {q' : Pattern} (h : matchesText (q ++ (cs.map .char ++ q')) ds = true) :
    cs <:+: ds := by
  induction q generalizing ds with
  | nil => exact (prefix_of_matchesText h).isInfix
  | cons token q ih =>
    rw [List.cons_append] at h
    by_cases hseq : token = .anySequence
    · rw [hseq] at h
      obtain ⟨rest, hrest, h⟩ := matchesText_anySequence_iff.1 h
      exact (ih h).trans hrest.isInfix
    by_cases hdirs : token = .anyDirectories
    · rw [hdirs] at h
      rcases matchesText_anyDirectories_iff.1 h with hrest | ⟨front, rest, rfl, hrest⟩ | hrest
      · exact ih hrest
      · exact (ih hrest).trans ((List.suffix_cons '/' rest).trans (List.suffix_append front _)).isInfix
      · exact (ih hrest).trans List.nil_infix
    · obtain ⟨c, more, rfl, -, h⟩ := (matchesText_cons_iff hseq hdirs).1 h
      exact (ih h).trans (List.suffix_cons c more).isInfix

/-- There is no point between slashes in a normal path. -/
lemma not_infix_normalize (f : Path) : ¬['/', '.', '/'] <:+: f.normalize.text := by
  rintro ⟨front, rest, heq⟩
  obtain ⟨ups, hups, hnames, hpieces⟩ := Path.exists_pieces_normalize f
  have hmem : ['.'] ∈ Path.pieces f.normalize.text := by
    have hsplit : front ++ ['/', '.', '/'] ++ rest = front ++ '/' :: (['.'] ++ '/' :: rest) := by simp
    rw [← heq, hsplit, Path.pieces_append_slash, Path.pieces_append_slash]
    exact List.mem_append_right _ List.mem_cons_self
  rw [hpieces, List.mem_append] at hmem
  rcases hmem with hmem | hmem
  · exact absurd (hups _ hmem) (by decide)
  · exact (hnames _ hmem).2.1 rfl

/-- As a whole, a pattern with a point between slashes matches no normal path. -/
theorem not_matchesText_pointed (hparts : List.Forall₂ SpellsPart (Path.pieces cs) ps)
    (hlast : (Path.pieces cs).getLast? ≠ some ['*', '*']) {x : Pattern}
    (hx : compile? (cs ++ '/' :: '.' :: '/' :: ds) = some x) (f : Path) :
    matchesText x f.normalize.text = false := by
  obtain ⟨q, hq⟩ := exists_compile?_joined (Path.pieces_ne_nil cs) hparts
    (fun part => Path.slash_not_mem_of_mem_pieces) hlast
  rw [Path.joined_pieces] at hq
  have hpoint : compile? ('.' :: '/' :: ds) =
      (compile? ds).map fun x => .char '.' :: .char '/' :: x := by
    rw [compile?, compileAfter?_cons (by decide), compileAfter?_cons (by decide), compileAfter?_start,
      Option.map_map]
    rfl
  rw [hq, hpoint, Option.map_map, Option.map_eq_some_iff] at hx
  obtain ⟨x', -, rfl⟩ := hx
  rw [← Bool.not_eq_true]
  intro hmatch
  change matchesText (q ++ (['/', '.', '/'].map .char ++ x')) f.normalize.text = true at hmatch
  exact not_infix_normalize f (infix_of_matchesText hmatch)

end StoreBindings.Glob
