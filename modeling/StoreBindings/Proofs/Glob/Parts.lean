import Mathlib.Data.List.Forall2
import StoreBindings.Glob.Walk
import StoreBindings.Proofs.Path.Pieces

/-!
# The parts of a pattern

What the text of a pattern says about its parts: a part of a text has no slash, and so has what it
spells (`slash_not_mem_of_compile?`). A text without wildcards spells its characters (`IsPlain`,
`compileAfter?_append`), and so it matches itself and nothing else.
-/

namespace StoreBindings.Glob

variable {cs ds rest : List Char} {p : Pattern} {previous : Option Char}

/-! ## Slashes -/

/-- What follows the characters of a set is the end of the text. -/
lemma suffix_of_afterSet? (h : afterSet? cs = some rest) : rest <:+ cs := by
  unfold afterSet? at h
  split at h
  · cases h
  · next c more hd =>
    rw [Option.some.injEq] at h
    subst h
    have hsuffix := List.dropWhile_suffix (fun c => c != ']') (l := cs)
    rw [hd] at hsuffix
    exact (List.suffix_cons c more).trans hsuffix

/-- A set without `!` is that of the characters that it names. -/
lemma readSet?_inside {first : Char} (h : first ≠ '!') (cs : List Char) : readSet? (first :: cs) =
    (afterSet? cs).map fun rest => (.inside (rangesOf (first :: insideSet cs)), rest) := by
  rw [readSet?]
  · exact fun _ _ heq => absurd heq h
  · exact fun heq => absurd heq h

/-- A set is that of the characters that it names, or of all others. -/
lemma readSet?_eq_some_iff {token : Token} : readSet? cs = some (token, rest) ↔
    ∃ first more, afterSet? more = some rest ∧
      (cs = '!' :: first :: more ∧ token = .outside (rangesOf (first :: insideSet more)) ∨
        first ≠ '!' ∧ cs = first :: more ∧ token = .inside (rangesOf (first :: insideSet more))) := by
  constructor
  · intro h
    unfold readSet? at h
    split at h
    · next first more =>
      obtain ⟨rest', hrest, heq⟩ := Option.map_eq_some_iff.1 h
      obtain ⟨rfl, rfl⟩ := Prod.mk.inj heq
      exact ⟨first, more, hrest, .inl ⟨rfl, rfl⟩⟩
    · cases h
    · next first more hnot hend =>
      obtain ⟨rest', hrest, heq⟩ := Option.map_eq_some_iff.1 h
      obtain ⟨rfl, rfl⟩ := Prod.mk.inj heq
      refine ⟨first, more, hrest, .inr ⟨?_, rfl, rfl⟩⟩
      rintro rfl
      cases more with
      | nil => exact hend rfl rfl
      | cons c more => exact hnot c more rfl rfl
    · cases h
  · rintro ⟨first, more, hafter, ⟨rfl, rfl⟩ | ⟨hfirst, rfl, rfl⟩⟩
    · rw [readSet?, hafter]
      rfl
    · rw [readSet?_inside hfirst, hafter]
      rfl

/-- What follows a set is the end of the text. -/
lemma suffix_of_readSet? {token : Token} (h : readSet? cs = some (token, rest)) : rest <:+ cs := by
  obtain ⟨first, more, hafter, ⟨rfl, -⟩ | ⟨-, rfl, -⟩⟩ := readSet?_eq_some_iff.1 h
  · exact ((suffix_of_afterSet? hafter).trans (List.suffix_cons first more)).trans
      (List.suffix_cons _ _)
  · exact (suffix_of_afterSet? hafter).trans (List.suffix_cons _ _)

/-- A set is neither a character nor `**`. -/
lemma ne_of_readSet? {token : Token} (h : readSet? cs = some (token, rest)) :
    (∀ c, token ≠ .char c) ∧ token ≠ .anyDirectories := by
  obtain ⟨first, more, -, ⟨-, rfl⟩ | ⟨-, -, rfl⟩⟩ := readSet?_eq_some_iff.1 h <;> simp

/-- A text without a slash spells a pattern without one. -/
lemma slash_not_mem_of_compileAfter? (h : compileAfter? previous cs = some p) (hcs : '/' ∉ cs) :
    .char '/' ∉ p := by
  have hstep : ∀ {token : Token} {rest : List Char} {previous : Option Char} {p : Pattern},
      (∀ {q : Pattern}, compileAfter? previous rest = some q → '/' ∉ rest → .char '/' ∉ q) →
      (compileAfter? previous rest).map (token :: ·) = some p → '/' ∉ rest →
      token ≠ .char '/' → .char '/' ∉ p := by
    intro token rest previous p ih h hrest htoken
    obtain ⟨q, hq, rfl⟩ := Option.map_eq_some_iff.1 h
    rw [List.mem_cons, not_or]
    exact ⟨htoken.symm, ih hq hrest⟩
  have htail : ∀ {c : Char} {cs : List Char}, '/' ∉ c :: cs → '/' ∉ cs :=
    fun h hmem => h (List.mem_cons_of_mem _ hmem)
  -- one case for each kind of token, and one for each way in which there is no pattern
  fun_induction compileAfter? previous cs generalizing p with
  | case1 => cases h; simp
  | case2 _ _ ih => exact hstep ih h (htail hcs) (by simp)
  | case3 => cases h; simp
  | case4 => cases h
  | case5 => exact absurd (by simp) hcs
  | case6 => cases h
  | case7 => cases h
  | case8 _ _ _ _ _ ih => exact hstep ih h (htail hcs) (by simp)
  | case9 _ _ token rest hset _ ih =>
    have hsuffix := suffix_of_readSet? hset
    have htoken := (ne_of_readSet? hset).1
    exact hstep ih h (fun hmem => htail hcs (hsuffix.subset hmem)) (htoken _)
  | case10 => cases h
  | case11 _ c _ _ _ _ _ _ _ ih =>
    refine hstep ih h (htail hcs) ?_
    intro heq
    exact hcs (by rw [Token.char.inj heq]; exact List.mem_cons_self)

/-- A part of a text spells no slash, as it has none. -/
theorem slash_not_mem_of_compile? (h : compile? cs = some p) (hcs : '/' ∉ cs) : .char '/' ∉ p :=
  slash_not_mem_of_compileAfter? h hcs

/-! ## Texts without wildcards -/

/-- No character of a text stands for others. -/
def IsPlain (cs : List Char) : Prop := ∀ c ∈ cs, c ≠ '*' ∧ c ≠ '?' ∧ c ≠ '['

instance (cs : List Char) : Decidable (IsPlain cs) :=
  List.decidableBAll (fun c => c ≠ '*' ∧ c ≠ '?' ∧ c ≠ '[') cs

/-- A text has no wildcard if none of its characters is one. -/
lemma isPlain_iff : IsPlain cs ↔ (cs.any fun c => c == '*' || c == '?' || c == '[') = false := by
  rw [List.any_eq_false]
  simp only [IsPlain, Bool.or_eq_true, beq_iff_eq, not_or, and_assoc]

lemma IsPlain.append (h : IsPlain cs) (h' : IsPlain ds) : IsPlain (cs ++ ds) := by
  intro c hc
  exact (List.mem_append.1 hc).elim (h c) (h' c)

/-- A text of characters that are not wildcards has none. -/
lemma IsPlain.of_subset (h : IsPlain ds) (hsub : cs ⊆ ds) : IsPlain cs := fun c hc => h c (hsub hc)

/-- A character that is no wildcard stands for itself. -/
lemma compileAfter?_cons {c : Char} (h : c ≠ '*' ∧ c ≠ '?' ∧ c ≠ '[') (previous : Option Char)
    (cs : List Char) : compileAfter? previous (c :: cs) =
      (compileAfter? (some c) cs).map (.char c :: ·) := by
  obtain ⟨hstar, hany, hset⟩ := h
  rw [compileAfter?]
  · exact hany
  · exact fun hc => absurd hc hstar
  · exact fun _ hc => absurd hc hstar
  · exact fun _ _ hc => absurd hc hstar
  · exact hstar
  · exact hset

/-- A text that begins without wildcards spells its first characters first. -/
theorem compileAfter?_append (h : IsPlain cs) (previous : Option Char) (rest : List Char) :
    compileAfter? previous (cs ++ rest) =
      (compileAfter? (cs.getLast?.or previous) rest).map (cs.map .char ++ ·) := by
  induction cs generalizing previous with
  | nil => simp
  | cons c cs ih =>
    rw [List.cons_append, compileAfter?_cons (h c List.mem_cons_self),
      ih (h.of_subset (List.subset_cons_self c cs)), Option.map_map]
    have hlast : (c :: cs).getLast?.or previous = cs.getLast?.or (some c) := by
      cases cs with
      | nil => rfl
      | cons d ds => rw [List.getLast?_cons_cons, List.getLast?_eq_some_getLast (by simp)]; rfl
    rw [hlast]
    rfl

/-- A text without wildcards spells its characters. -/
lemma compile?_of_isPlain (h : IsPlain cs) : compile? cs = some (cs.map .char) := by
  have hcompile := compileAfter?_append h none []
  rw [List.append_nil] at hcompile
  rw [compile?, hcompile, compileAfter?]
  simp

/-- A pattern that begins with characters matches only what begins with these. -/
lemma prefix_of_matchesText {ts : Pattern} {text : List Char}
    (h : matchesText (cs.map .char ++ ts) text = true) : cs <+: text := by
  induction cs generalizing text with
  | nil => exact List.nil_prefix
  | cons c cs ih =>
    cases text with
    | nil => simp [matchesText] at h
    | cons d text =>
      simp only [List.map_cons, List.cons_append, matchesText, Token.accepts, Bool.and_eq_true,
        beq_iff_eq] at h
      rw [h.1]
      exact List.cons_prefix_cons.2 ⟨rfl, ih h.2⟩

/-- Characters match themselves only. -/
lemma eq_of_matchesText {text : List Char} (h : matchesText (cs.map .char) text = true) :
    text = cs := by
  induction cs generalizing text with
  | nil => simpa [matchesText] using h
  | cons c cs ih =>
    cases text with
    | nil => simp [matchesText] at h
    | cons d text =>
      simp only [List.map_cons, matchesText, Token.accepts, Bool.and_eq_true, beq_iff_eq] at h
      rw [h.1, ih h.2]

/-! ## Names and the way up -/

/-- Whether a part of a pattern matches the name that leads up. -/
def leadsUp (p : Pattern) : Bool := p.head? = some (.char '.') && matchesText p ['.', '.']

/-- A pattern is literal if it consists of characters, and those are the name. -/
lemma literal?_eq_some_iff {p : Pattern} {name : List Char} :
    literal? p = some name ↔ p = name.map .char := by
  induction p generalizing name with
  | nil => cases name <;> simp [literal?]
  | cons token p ih =>
    cases token with
    | char c =>
      rw [literal?, Option.map_eq_some_iff]
      constructor
      · rintro ⟨rest, hrest, rfl⟩
        rw [List.map_cons, ih.1 hrest]
      · intro h
        cases name with
        | nil => cases h
        | cons d rest =>
          rw [List.map_cons, List.cons.injEq, Token.char.injEq] at h
          exact ⟨rest, ih.2 h.2, by rw [h.1]⟩
    | _ => cases name <;> simp [literal?]

/-- A literal part has no slash in its name. -/
lemma slash_not_mem_of_literal? {p : Pattern} {name : List Char} (hp : .char '/' ∉ p)
    (h : literal? p = some name) : '/' ∉ name := by
  rw [literal?_eq_some_iff.1 h] at hp
  exact fun hmem => hp (List.mem_map.2 ⟨_, hmem, rfl⟩)

/-- A literal part that does not lead up is not `..`. -/
lemma ne_up_of_literal? {p : Pattern} {name : List Char} (hp : leadsUp p = false)
    (h : literal? p = some name) : name ≠ ['.', '.'] := by
  rintro rfl
  rw [literal?_eq_some_iff.1 h] at hp
  revert hp
  decide

/-! ## Searches -/

/-- The parts of a text are what is between its slashes, but for an empty one at the end. -/
lemma pieces_eq_partsOf (cs : List Char) :
    Path.pieces cs = partsOf cs ∨ Path.pieces cs = partsOf cs ++ [[]] := by
  unfold partsOf
  dsimp only
  split
  · next h =>
    obtain ⟨front, hfront⟩ := List.getLast?_eq_some_iff.1 h
    rw [hfront, List.dropLast_concat]
    exact .inr rfl
  · exact .inl rfl

/-- A text has parts. -/
lemma partsOf_ne_nil (h : cs ≠ []) : partsOf cs ≠ [] := by
  intro hnil
  have hjoined := Path.joined_pieces cs
  rcases pieces_eq_partsOf cs with heq | heq
  · rw [heq, hnil] at hjoined
    exact h hjoined.symm
  · rw [heq, hnil] at hjoined
    exact h hjoined.symm

/-- Where nothing ends in a slash no part is left out. -/
lemma partsOf_eq_pieces (hne : cs ≠ []) (hlast : cs.getLast? ≠ some '/') :
    partsOf cs = Path.pieces cs := by
  rcases pieces_eq_partsOf cs with heq | heq
  · exact heq.symm
  · exfalso
    have hjoined := Path.joined_pieces cs
    rw [heq, Path.joined_append (partsOf_ne_nil hne) (by simp)] at hjoined
    refine hlast ?_
    rw [← hjoined]
    exact List.getLast?_concat

/-- No part has a slash. -/
lemma slash_not_mem_of_mem_partsOf {part : List Char} (h : part ∈ partsOf cs) : '/' ∉ part := by
  have hmem : part ∈ Path.pieces cs := by
    rcases pieces_eq_partsOf cs with heq | heq
    · rw [heq]
      exact h
    · rw [heq]
      exact List.mem_append_left _ h
  exact Path.slash_not_mem_of_mem_pieces hmem

/-- What has been mapped with an operation that can fail. -/
lemma mapM_eq_some_iff {α β : Type} {f : α → Option β} {l : List α} {bs : List β} :
    l.mapM f = some bs ↔ List.Forall₂ (fun a b => f a = some b) l bs := by
  induction l generalizing bs with
  | nil => simp [pure, eq_comm]
  | cons a l ih =>
    rw [List.mapM_cons, List.forall₂_cons_left_iff]
    simp only [bind, Option.bind_eq_some_iff, pure, Option.some.injEq, ih]
    constructor
    · rintro ⟨b, hb, bs', hbs, rfl⟩
      exact ⟨b, bs', hb, hbs, rfl⟩
    · rintro ⟨b, bs', hb, hbs, rfl⟩
      exact ⟨b, hb, bs', hbs, rfl⟩

/-- What comes of one thing is said of all that come of several. -/
lemma forall_of_forall₂ {α β : Type} {R : α → β → Prop} {Q : β → Prop} {l : List α} {bs : List β}
    (h : List.Forall₂ R l bs) (hQ : ∀ a ∈ l, ∀ b, R a b → Q b) : ∀ b ∈ bs, Q b := by
  induction h with
  | nil => simp
  | cons hab _ ih =>
    intro b hb
    rcases List.mem_cons.1 hb with rfl | hb
    · exact hQ _ List.mem_cons_self _ hab
    · exact ih (fun a ha => hQ a (List.mem_cons_of_mem _ ha)) b hb

/-- A text without a slash at its front. -/
def inner (cs : List Char) : List Char := if cs.head? = some '/' then cs.drop 1 else cs

/-- A slash at the front is an empty piece more. -/
lemma pieces_eq_inner (cs : List Char) :
    Path.pieces cs = Path.pieces (inner cs) ∨ Path.pieces cs = [] :: Path.pieces (inner cs) := by
  unfold inner
  cases cs with
  | nil => exact .inl rfl
  | cons c cs =>
    by_cases hc : c = '/'
    · rw [hc, Path.pieces, if_pos rfl]
      exact .inr rfl
    · rw [if_neg (by simpa using hc)]
      exact .inl rfl

/-- Whether a text begins with a slash is decided by its front. -/
lemma inner_append (h : cs ≠ []) (ds : List Char) : inner (cs ++ ds) = inner cs ++ ds := by
  unfold inner
  cases cs with
  | nil => exact absurd rfl h
  | cons c cs => rw [List.cons_append, List.head?_cons, List.head?_cons]; split <;> rfl

/-- Without a slash at the front a text has no other characters. -/
lemma inner_subset (cs : List Char) : inner cs ⊆ cs := by
  unfold inner
  split
  · exact List.drop_subset 1 cs
  · exact List.Subset.refl _

/-- A text is a search if it is a pattern and so are its parts. -/
lemma ofText?_eq_some_iff {s : Search} : Search.ofText? cs = some s ↔
    (compile? cs).isSome = true ∧ ∃ parts,
      List.Forall₂ (fun part p => compile? part = some p) (partsOf (inner cs)) parts ∧
      s = ⟨if (inner cs).isEmpty then [[]] else parts, cs.getLast? = some '/'⟩ := by
  unfold Search.ofText?
  simp only [bind, Option.bind_eq_some_iff, pure, Option.some.injEq, mapM_eq_some_iff,
    Option.isSome_iff_exists, exists_and_right]
  constructor
  · rintro ⟨hc, parts, hparts, rfl⟩
    exact ⟨hc, parts, hparts, rfl⟩
  · rintro ⟨hc, parts, hparts, rfl⟩
    exact ⟨hc, parts, hparts, rfl⟩

/-- The parts of a search have no slash in them. -/
lemma slash_not_mem_of_ofText? {s : Search} (h : Search.ofText? cs = some s) :
    ∀ p ∈ s.parts, .char '/' ∉ p := by
  obtain ⟨-, parts, hparts, rfl⟩ := ofText?_eq_some_iff.1 h
  intro p hp
  dsimp only at hp
  split at hp
  · rw [List.mem_singleton.1 hp]
    simp
  · exact forall_of_forall₂ hparts (fun part hpart p hcompile =>
      slash_not_mem_of_compile? hcompile (slash_not_mem_of_mem_partsOf hpart)) p hp

/-! ## Searches for everything in a directory -/

/-- The text that stands for everything in a directory. -/
def everythingIn (cs : List Char) : List Char := cs ++ '/' :: "**/*".toList

/-- The parts of a text without wildcards. -/
def literals (names : List (List Char)) : List Pattern := names.map fun name => name.map .char

/-- Names without wildcards spell literal parts. -/
lemma forall₂_literals {names : List (List Char)} (h : ∀ name ∈ names, IsPlain name) :
    List.Forall₂ (fun part p => compile? part = some p) names (literals names) := by
  unfold literals
  rw [List.forall₂_map_right_iff, List.forall₂_same]
  exact fun name hname => compile?_of_isPlain (h name hname)

/-- The pieces of a text without wildcards have none. -/
lemma isPlain_of_mem_pieces (h : IsPlain cs) {part : List Char} (hpart : part ∈ Path.pieces cs) :
    IsPlain part := by
  refine h.of_subset fun c hc => ?_
  rw [← Path.joined_pieces cs]
  exact Path.mem_joined hpart hc

/-- Pieces without wildcards are joined to a text without them. -/
lemma isPlain_joined {parts : List (List Char)} (h : ∀ part ∈ parts, IsPlain part) :
    IsPlain (Path.joined parts) := by
  induction parts with
  | nil => simp [IsPlain, Path.joined]
  | cons part parts ih =>
    have hfirst := h part List.mem_cons_self
    have hrest := ih fun x hx => h x (List.mem_cons_of_mem _ hx)
    by_cases hnil : parts = []
    · rw [hnil]
      exact hfirst
    · rw [Path.joined_cons part hnil, List.append_cons]
      exact (hfirst.append (by decide)).append hrest

/-- A search has the parts that the pieces of its text spell. -/
lemma parts_of_forall₂ {parts : List Pattern} (hcompile : (compile? cs).isSome = true)
    (hne : inner cs ≠ [])
    (h : List.Forall₂ (fun part p => compile? part = some p) (partsOf (inner cs)) parts) :
    (Search.ofText? cs).map Search.parts = some parts := by
  rw [ofText?_eq_some_iff.2 ⟨hcompile, parts, h, rfl⟩, Option.map_some, if_neg (by simpa using hne)]

/-- Everything in a directory is spelled by the directory, a slash and the rest. -/
lemma exists_compile?_everythingIn (h : IsPlain cs) :
    ∃ ts, compile? (everythingIn cs) = some ((cs ++ ['/']).map .char ++ ts) := by
  have hsplit : everythingIn cs = (cs ++ ['/']) ++ "**/*".toList := by simp [everythingIn]
  have hplain : IsPlain (cs ++ ['/']) := h.append (by decide)
  have hlast : (cs ++ ['/']).getLast?.or none = some '/' := by simp
  have hrest : (compileAfter? (some '/') "**/*".toList).isSome = true := by decide +kernel
  obtain ⟨ts, hts⟩ := Option.isSome_iff_exists.1 hrest
  exact ⟨ts, by rw [hsplit, compile?, compileAfter?_append hplain, hlast, hts, Option.map_some]⟩

/-- The parts for everything: those of the directory, and two more. -/
lemma parts_everythingIn (hne : cs ≠ []) (h : IsPlain cs) {names trail : List (List Char)}
    (hnames : Path.pieces (inner cs) = names ++ trail) :
    (Search.ofText? (everythingIn cs)).map Search.parts =
      some (literals names ++ (literals trail ++ [[.anyDirectories], [.anySequence]])) := by
  have hinner : inner (everythingIn cs) = inner cs ++ '/' :: "**/*".toList := inner_append hne _
  have hsplit : Path.pieces (inner (everythingIn cs)) = names ++ trail ++ [['*', '*'], ['*']] := by
    rw [hinner, Path.pieces_append_slash, hnames]
    rfl
  have hparts : partsOf (inner (everythingIn cs)) = names ++ trail ++ [['*', '*'], ['*']] := by
    unfold partsOf
    dsimp only
    rw [hsplit, if_neg (by simp)]
  have hplain : ∀ name ∈ names ++ trail, IsPlain name := fun name hname =>
    isPlain_of_mem_pieces (h.of_subset (inner_subset cs)) (hnames ▸ hname)
  obtain ⟨ts, hts⟩ := exists_compile?_everythingIn h
  refine parts_of_forall₂ (by rw [hts]; rfl) (by rw [hinner]; simp) ?_
  rw [hparts, ← List.append_assoc, literals, literals, ← List.map_append]
  refine List.rel_append (forall₂_literals hplain) ?_
  exact .cons (by decide +kernel) (.cons (by decide +kernel) .nil)

/-- A text that does not end in a slash is not the root. -/
lemma inner_ne_nil (hne : cs ≠ []) (hlast : cs.getLast? ≠ some '/') : inner cs ≠ [] := by
  unfold inner
  cases cs with
  | nil => exact absurd rfl hne
  | cons c cs =>
    split
    · next hc =>
      intro hnil
      rw [List.drop_one, List.tail_cons] at hnil
      rw [hnil] at hlast
      exact hlast hc
    · exact hne

/-- How a text without wildcards is searched for that ends in a name. -/
lemma parts_of_name (hne : cs ≠ []) (hplain : IsPlain cs) (hlast : cs.getLast? ≠ some '/') :
    ∃ trail, Path.pieces (inner cs) = partsOf (inner cs) ++ trail ∧ (∀ e ∈ trail, e = []) ∧
      (Search.ofText? cs).map Search.parts = some (literals (partsOf (inner cs))) := by
  obtain ⟨trail, htrail, hnames⟩ : ∃ trail : List (List Char), (∀ e ∈ trail, e = []) ∧
      Path.pieces (inner cs) = partsOf (inner cs) ++ trail := by
    rcases pieces_eq_partsOf (inner cs) with h | h
    · exact ⟨[], by simp, by rw [List.append_nil]; exact h⟩
    · exact ⟨[[]], by simp, h⟩
  refine ⟨trail, hnames, htrail, ?_⟩
  refine parts_of_forall₂ (by rw [compile?_of_isPlain hplain]; rfl) (inner_ne_nil hne hlast) ?_
  exact forall₂_literals fun name hname => isPlain_of_mem_pieces
    (hplain.of_subset (inner_subset cs)) (hnames ▸ List.mem_append_left _ hname)

/-- Behind a slash at the end there is no part. -/
lemma parts_append_slash (hne : cs ≠ []) (hplain : IsPlain cs) :
    Path.pieces (inner (cs ++ ['/'])) = Path.pieces (inner cs) ++ [[]] ∧
      (Search.ofText? (cs ++ ['/'])).map Search.parts = some (literals (Path.pieces (inner cs))) := by
  have hsplit : Path.pieces (inner (cs ++ ['/'])) = Path.pieces (inner cs) ++ [[]] := by
    rw [inner_append hne, Path.pieces_append_slash]
    rfl
  have hparts : partsOf (inner (cs ++ ['/'])) = Path.pieces (inner cs) := by
    unfold partsOf
    dsimp only
    rw [hsplit, if_pos (by simp), List.dropLast_concat]
  have hplain' : IsPlain (cs ++ ['/']) := hplain.append (by decide)
  refine ⟨hsplit, parts_of_forall₂ (by rw [compile?_of_isPlain hplain']; rfl) ?_ ?_⟩
  · rw [inner_append hne]
    simp
  · rw [hparts]
    exact forall₂_literals fun part =>
      isPlain_of_mem_pieces (hplain.of_subset (inner_subset cs))

/-- How a text without wildcards is searched for that ends in a name, or in one slash. -/
lemma parts_of_isPlain {whole w : List Char} (hw : w ≠ []) (hplain : IsPlain w)
    (hwhole : whole = w ∧ w.getLast? ≠ some '/' ∨ whole = w ++ ['/']) :
    ∃ names trail, Path.pieces (inner whole) = names ++ trail ∧ (∀ e ∈ trail, e = []) ∧
      (∃ trail', Path.pieces (inner w) = names ++ trail' ∧ ∀ e ∈ trail', e = []) ∧
      (Search.ofText? whole).map Search.parts = some (literals names) := by
  rcases hwhole with ⟨rfl, hlast⟩ | rfl
  · obtain ⟨trail, hnames, htrail, hparts⟩ := parts_of_name hw hplain hlast
    exact ⟨_, trail, hnames, htrail, ⟨trail, hnames, htrail⟩, hparts⟩
  · obtain ⟨hsplit, hparts⟩ := parts_append_slash hw hplain
    exact ⟨_, [[]], hsplit, by simp, ⟨[], by simp, by simp⟩, hparts⟩

/-- A text without wildcards is searched for by the names on the way, and so is everything in that
directory, behind the same names. -/
lemma exists_literals {whole w : List Char} (hw : w ≠ []) (hplain : IsPlain w)
    (hwhole : whole = w ∧ w.getLast? ≠ some '/' ∨ whole = w ++ ['/']) :
    ∃ lead names trail qs, Path.pieces whole = lead ++ names ++ trail ∧
      (∀ e ∈ lead ++ trail, e = []) ∧ (∀ name ∈ names, '/' ∉ name) ∧
      (Search.ofText? whole).map Search.parts = some (literals names) ∧
      (Search.ofText? (everythingIn w)).map Search.parts = some (literals names ++ qs) ∧
      ∀ q ∈ qs, .char '/' ∉ q ∧ leadsUp q = false := by
  obtain ⟨names, trail, hnames, htrail, ⟨trail', hnames', htrail'⟩, hparts⟩ :=
    parts_of_isPlain hw hplain hwhole
  -- only the empty part of the root can stand in front
  obtain ⟨lead, hlead, hpieces⟩ : ∃ lead : List (List Char), (∀ e ∈ lead, e = []) ∧
      Path.pieces whole = lead ++ Path.pieces (inner whole) := by
    rcases pieces_eq_inner whole with h | h
    · exact ⟨[], by simp, h⟩
    · exact ⟨[[]], by simp, h⟩
  refine ⟨lead, names, trail, literals trail' ++ [[.anyDirectories], [.anySequence]], ?_, ?_, ?_,
    hparts, parts_everythingIn hw hplain hnames', ?_⟩
  · rw [hpieces, hnames, List.append_assoc]
  · intro e he
    exact (List.mem_append.1 he).elim (hlead e) (htrail e)
  · intro name hname
    exact Path.slash_not_mem_of_mem_pieces (hnames ▸ List.mem_append_left _ hname)
  · have hwild : ∀ q ∈ ([[.anyDirectories], [.anySequence]] : List Pattern),
        .char '/' ∉ q ∧ leadsUp q = false := by decide
    intro q hq
    rcases List.mem_append.1 hq with hq | hq
    · obtain ⟨e, he, rfl⟩ := List.mem_map.1 hq
      rw [htrail' e he]
      decide
    · exact hwild q hq

end StoreBindings.Glob
