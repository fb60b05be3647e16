import Mathlib.Data.List.Infix
import Mathlib.Data.List.TakeWhile
import StoreBindings.Proofs.Glob.Parts

/-!
# Matching part by part

A pattern can be matched against the names on the way to a file, one part against one name and `**`
against any number of directories (`matchesNames`), or against the text of the path as a whole, where
a wildcard goes on over a slash.

* `compile?_joined` — the tokens of the whole text are those of the parts, with slashes between them.
* `matchesText_spelled` — what matches part by part matches as a whole.
* `Tame`, `matchesNames_of_tame` — patterns for which it is the same.
-/

namespace StoreBindings.Glob

variable {cs ds rest : List Char} {p q : Pattern} {ps : List Pattern} {previous : Option Char}

/-- Whether the parts of a pattern describe the names on the way to a file: `**` describes any number of
directories, and every other part one name. -/
def matchesNames : List Pattern → List (List Char) → Bool
  | [], names => names.isEmpty
  | p :: ps, names =>
    if isRecursive p then names.tails.any fun more => !more.isEmpty && matchesNames ps more
    else
      match names with
      | [] => false
      | name :: more => matchesText p name && matchesNames ps more

/-- The tokens of several parts with slashes between them. The slash behind `**` belongs to it. -/
def spelled : List Pattern → Pattern
  | [] => []
  | [p] => p
  | p :: q :: ps =>
    if isRecursive p then p ++ spelled (q :: ps) else p ++ .char '/' :: spelled (q :: ps)

/-- Only `**` goes down to all directories. -/
lemma isRecursive_iff : isRecursive p = true ↔ p = [.anyDirectories] := beq_iff_eq

/-! ## The tokens of a whole text -/

/-- A set ends at its bracket, whatever follows. -/
lemma afterSet?_append (h : afterSet? cs = some rest) (ds : List Char) :
    afterSet? (cs ++ ds) = some (rest ++ ds) ∧ insideSet (cs ++ ds) = insideSet cs := by
  -- the set is closed in the text, so what is added comes after its bracket
  have hclosed : ∃ c ∈ cs, ¬ (c != ']') = true := by
    by_contra hopen
    have hall : ∀ c ∈ cs, (c != ']') = true := fun c hc => not_not.1 fun hn => hopen ⟨c, hc, hn⟩
    rw [afterSet?, List.dropWhile_eq_nil_iff.2 hall] at h
    cases h
  have htake : (cs ++ ds).takeWhile (· != ']') = cs.takeWhile (· != ']') := by
    rw [List.takeWhile_append, if_neg]
    intro hlength
    obtain ⟨c, hc, hn⟩ := hclosed
    have hwhole := (List.takeWhile_prefix (· != ']') (l := cs)).eq_of_length hlength
    exact hn (List.mem_takeWhile_imp (p := (· != ']')) (hwhole ▸ hc))
  refine ⟨?_, htake⟩
  unfold afterSet? at h ⊢
  split at h
  · cases h
  · next c more hd =>
    cases h
    rw [List.dropWhile_append, if_neg (by rw [hd]; simp), hd]
    rfl

/-- So it is read in the same way in front of anything. -/
lemma readSet?_append {token : Token} (h : readSet? cs = some (token, rest)) (ds : List Char) :
    readSet? (cs ++ ds) = some (token, rest ++ ds) := by
  obtain ⟨first, more, hafter, hset⟩ := readSet?_eq_some_iff.1 h
  obtain ⟨hafter', hinside⟩ := afterSet?_append hafter ds
  refine readSet?_eq_some_iff.2 ⟨first, more ++ ds, hafter', ?_⟩
  rw [hinside]
  rcases hset with ⟨rfl, rfl⟩ | ⟨hfirst, rfl, rfl⟩
  · exact .inl ⟨rfl, rfl⟩
  · exact .inr ⟨hfirst, rfl, rfl⟩

/-- How a text without slashes is read, token by token, whatever follows behind a slash. -/
inductive Reads : Option Char → List Char → Pattern → Prop
  | nil {previous : Option Char} : Reads previous [] []
  | directories {previous : Option Char} (h : previous = none ∨ previous = some '/') :
      Reads previous ['*', '*'] [.anyDirectories]
  | token {previous : Option Char} {c : Char} {cs rest : List Char} {token : Token} {p : Pattern}
      (hc : c ≠ '/') (htoken : token ≠ .anyDirectories)
      (hread : ∀ more, compileAfter? previous (cs ++ '/' :: more) =
        (compileAfter? (some c) (rest ++ '/' :: more)).map (token :: ·))
      (h : Reads (some c) rest p) : Reads previous cs (token :: p)

/-- One token more is read in front of what is read. -/
lemma Reads.of_map {token : Token} {c : Char}
    (ih : ∀ {q : Pattern}, compileAfter? (some c) rest = some q → '/' ∉ rest → Reads (some c) rest q)
    (h : (compileAfter? (some c) rest).map (token :: ·) = some p) (hrest : '/' ∉ rest) (hc : c ≠ '/')
    (htoken : token ≠ .anyDirectories) (hread : ∀ more, compileAfter? previous (cs ++ '/' :: more) =
      (compileAfter? (some c) (rest ++ '/' :: more)).map (token :: ·)) : Reads previous cs p := by
  obtain ⟨q, hq, rfl⟩ := Option.map_eq_some_iff.1 h
  exact .token hc htoken hread (ih hq hrest)

/-- Behind a single star there is no other one, whatever follows. -/
lemma append_slash_ne_star (hend : cs = ['*'] → False)
    (hmore : ∀ d rest, cs = '*' :: d :: rest → False) (more rest : List Char) :
    cs ++ '/' :: more ≠ '*' :: rest := by
  intro heq
  cases cs with
  | nil => simp at heq
  | cons c cs =>
    rw [List.cons_append, List.cons.injEq] at heq
    obtain ⟨rfl, -⟩ := heq
    cases cs with
    | nil => exact hend rfl
    | cons d cs => exact hmore d cs rfl

/-- A text without slashes is read token by token. -/
lemma reads_of_compileAfter? (h : compileAfter? previous cs = some p) (hcs : '/' ∉ cs) :
    Reads previous cs p := by
  have htail : ∀ {c : Char} {cs : List Char}, '/' ∉ c :: cs → '/' ∉ cs :=
    fun h hmem => h (List.mem_cons_of_mem _ hmem)
  -- each rule of the reader looks at no more than what it takes, so a slash behind the text changes
  -- nothing
  fun_induction compileAfter? previous cs generalizing p with
  | case1 => cases h; exact .nil
  | case2 _ cs ih =>
    refine .of_map ih h (htail hcs) (by decide) (by simp) fun more => ?_
    rw [List.cons_append, compileAfter?]
  | case3 _ _ =>
    next hstart =>
    cases h
    exact .directories hstart
  | case4 => cases h
  | case5 => exact absurd (by simp) hcs
  | case6 => cases h
  | case7 => cases h
  | case8 _ cs hend hslash hmore ih =>
    refine .of_map ih h (htail hcs) (by decide) (by simp) fun more => ?_
    have hnot := append_slash_ne_star hend hmore more
    rw [List.cons_append, compileAfter?]
    · exact hnot []
    · exact fun rest heq => hnot _ heq
    · exact fun d rest heq => hnot _ heq
  | case9 _ cs token rest hset _ ih =>
    have hsuffix := suffix_of_readSet? hset
    refine .of_map ih h (fun hs => htail hcs (hsuffix.subset hs)) (by decide)
      (ne_of_readSet? hset).2 fun more => ?_
    rw [List.cons_append, compileAfter?]
    split
    · next hset' =>
      rw [readSet?_append hset] at hset'
      cases hset'
      rfl
    · next hset' =>
      rw [readSet?_append hset] at hset'
      cases hset'
  | case10 => cases h
  | case11 _ c cs hany _ _ _ hstar hset ih =>
    have hc : c ≠ '/' := by
      rintro rfl
      exact hcs List.mem_cons_self
    refine .of_map ih h (htail hcs) hc (by simp) fun more => ?_
    rw [List.cons_append, compileAfter?_cons ⟨hstar, hany, hset⟩]

/-- In a text without slashes `**` stands alone. -/
lemma Reads.eq_of_mem (h : Reads previous cs p) (hmem : .anyDirectories ∈ p) :
    p = [.anyDirectories] ∧ (previous = none ∨ previous = some '/') := by
  induction h with
  | nil => cases hmem
  | directories h => exact ⟨rfl, h⟩
  | token hc htoken _ _ ih =>
    rcases List.mem_cons.1 hmem with heq | hmem
    · exact absurd heq.symm htoken
    · exact absurd (by simpa using (ih hmem).2) hc

/-- In a part `**` is everything, or it is not there. -/
lemma Reads.anyDirectories_mem_iff (h : Reads previous cs p) :
    .anyDirectories ∈ p ↔ isRecursive p = true := by
  rw [isRecursive_iff]
  refine ⟨fun hmem => (h.eq_of_mem hmem).1, fun hp => ?_⟩
  rw [hp]
  exact List.mem_singleton_self _

/-- A part is read in front of a slash as it is read at the end. -/
lemma Reads.slash (h : Reads previous cs p) (rest : List Char) :
    compileAfter? previous (cs ++ '/' :: rest) = (compileAfter? (some '/') rest).map fun q =>
      if isRecursive p then p ++ q else p ++ .char '/' :: q := by
  induction h with
  | nil =>
    rw [List.nil_append, compileAfter?_cons (by decide)]
    rfl
  | directories hstart =>
    show compileAfter? _ ('*' :: '*' :: '/' :: rest) = _
    rw [compileAfter?, if_pos hstart]
    rfl
  | @token _ _ _ _ token p hc htoken hread h ih =>
    have hnot : isRecursive p = false := by
      rw [← Bool.not_eq_true, ← h.anyDirectories_mem_iff]
      exact fun hmem => hc (by simpa using (h.eq_of_mem hmem).2)
    have hnot' : isRecursive (token :: p) = false := by
      rw [← Bool.not_eq_true, isRecursive_iff]
      exact fun heq => htoken (List.cons.inj heq).1
    rw [hread, ih, Option.map_map, hnot, hnot']
    rfl

/-- Directly behind a slash a text is read as at its beginning. -/
lemma compileAfter?_start (cs : List Char) : compileAfter? (some '/') cs = compile? cs := by
  rw [compile?, compileAfter?.eq_def, compileAfter?.eq_def none]
  simp only [or_true, true_or]

/-- A text is read as its parts are. -/
theorem compile?_joined {parts : List (List Char)} (hne : parts ≠ [])
    (h : List.Forall₂ (fun part p => compile? part = some p) parts ps)
    (hslash : ∀ part ∈ parts, '/' ∉ part) : compile? (Path.joined parts) = some (spelled ps) := by
  induction h with
  | nil => exact absurd rfl hne
  | @cons part p parts ps hpart hparts ih =>
    have hread := reads_of_compileAfter? hpart (hslash part List.mem_cons_self)
    cases hparts with
    | nil => exact hpart
    | @cons part' p' parts ps hpart' hparts =>
      have ih := ih (by simp) fun x hx => hslash x (List.mem_cons_of_mem _ hx)
      rw [Path.joined, compile?, hread.slash, compileAfter?_start, ih, spelled]
      split <;> rfl

/-! ## What matches part by part matches as a whole -/

/-- The ends of a text. -/
lemma mem_suffixes_iff : rest ∈ suffixes cs ↔ rest <:+ cs := by
  induction cs with
  | nil => simp [suffixes]
  | cons c cs ih => rw [suffixes, List.mem_cons, ih, List.suffix_cons_iff]

/-- What stands behind a slash of a text. -/
lemma mem_afterSlashes_iff : rest ∈ afterSlashes cs ↔ ∃ front, cs = front ++ '/' :: rest := by
  induction cs with
  | nil => simp [afterSlashes]
  | cons c cs ih =>
    have hcons : (∃ front, c :: cs = front ++ '/' :: rest) ↔
        (c = '/' ∧ cs = rest) ∨ ∃ front, cs = front ++ '/' :: rest := by
      constructor
      · rintro ⟨front, hfront⟩
        cases front with
        | nil => exact .inl (List.cons.inj hfront)
        | cons d front => exact .inr ⟨front, (List.cons.inj hfront).2⟩
      · rintro (⟨rfl, rfl⟩ | ⟨front, rfl⟩)
        · exact ⟨[], rfl⟩
        · exact ⟨c :: front, rfl⟩
    rw [afterSlashes, hcons, ← ih]
    split
    · next hc => simp [hc, eq_comm]
    · next hc => simp [hc]

/-- A star matches whatever stands in front of what the rest matches. -/
lemma matchesText_anySequence_iff {ts : Pattern} : matchesText (.anySequence :: ts) cs = true ↔
    ∃ rest, rest <:+ cs ∧ matchesText ts rest = true := by
  simp only [matchesText, List.any_eq_true, mem_suffixes_iff]

/-- `**` describes any number of names with a slash behind each, or everything. -/
lemma matchesText_anyDirectories_iff {ts : Pattern} :
    matchesText (.anyDirectories :: ts) cs = true ↔ matchesText ts cs = true ∨
      (∃ front rest, cs = front ++ '/' :: rest ∧ matchesText ts rest = true) ∨
      matchesText ts [] = true := by
  simp only [matchesText, List.any_eq_true, List.mem_cons, List.mem_append, List.not_mem_nil,
    or_false, mem_afterSlashes_iff]
  constructor
  · rintro ⟨rest, rfl | ⟨front, hfront⟩ | rfl, h⟩
    · exact .inl h
    · exact .inr (.inl ⟨front, rest, hfront, h⟩)
    · exact .inr (.inr h)
  · rintro (h | ⟨front, rest, hfront, h⟩ | h)
    · exact ⟨cs, .inl rfl, h⟩
    · exact ⟨rest, .inr (.inl ⟨front, hfront⟩), h⟩
    · exact ⟨[], .inr (.inr rfl), h⟩

/-- All tokens but two stand for one character. -/
lemma matchesText_cons_iff {token : Token} {ts : Pattern} (hseq : token ≠ .anySequence)
    (hdirs : token ≠ .anyDirectories) : matchesText (token :: ts) cs = true ↔
      ∃ c more, cs = c :: more ∧ token.accepts c = true ∧ matchesText ts more = true := by
  cases cs with
  | nil => cases token <;> simp_all [matchesText]
  | cons c cs => cases token <;> simp_all [matchesText]

/-- What matches one pattern and what matches another match both together, one behind the other. -/
lemma matchesText_append (hp : .anyDirectories ∉ p) (h : matchesText p cs = true)
    (h' : matchesText q ds = true) : matchesText (p ++ q) (cs ++ ds) = true := by
  induction p generalizing cs with
  | nil =>
    rw [matchesText, List.isEmpty_iff] at h
    rw [h]
    exact h'
  | cons token p ih =>
    rw [List.mem_cons, not_or] at hp
    obtain ⟨hdirs, hp⟩ := hp
    by_cases hseq : token = .anySequence
    · subst hseq
      obtain ⟨rest, ⟨front, rfl⟩, hmatch⟩ := matchesText_anySequence_iff.1 h
      refine matchesText_anySequence_iff.2 ⟨rest ++ ds, ⟨front, ?_⟩, ih hp hmatch⟩
      rw [List.append_assoc]
    · obtain ⟨c, more, rfl, hc, hmore⟩ := (matchesText_cons_iff hseq (Ne.symm hdirs)).1 h
      exact (matchesText_cons_iff hseq (Ne.symm hdirs)).2 ⟨c, more ++ ds, rfl, hc, ih hp hmore⟩

/-- Characters match themselves. -/
lemma matchesText_chars_append_iff {ts : Pattern} :
    matchesText (cs.map .char ++ ts) ds = true ↔
      ∃ rest, ds = cs ++ rest ∧ matchesText ts rest = true := by
  induction cs generalizing ds with
  | nil => simp
  | cons c cs ih =>
    rw [List.map_cons, List.cons_append, matchesText_cons_iff (by simp) (by simp)]
    simp only [Token.accepts, beq_iff_eq, ih]
    constructor
    · rintro ⟨d, more, rfl, rfl, rest, rfl, h⟩
      exact ⟨rest, rfl, h⟩
    · rintro ⟨rest, rfl, h⟩
      exact ⟨c, cs ++ rest, rfl, rfl, rest, rfl, h⟩

/-- Characters match themselves, and nothing else. -/
lemma matchesText_chars_iff : matchesText (cs.map .char) ds = true ↔ ds = cs := by
  rw [← List.append_nil (cs.map Token.char), matchesText_chars_append_iff]
  simp [matchesText]

/-- No part of a pattern has `**` beside other tokens. -/
def StandsAlone (ps : List Pattern) : Prop :=
  ∀ p ∈ ps, Token.anyDirectories ∈ p → isRecursive p = true

/-- `**` describes any names in front of what the rest describes. -/
lemma matchesNames_cons_recursive {names : List (List Char)} (hp : isRecursive p = true) :
    matchesNames (p :: ps) names = true ↔
      ∃ more, more <:+ names ∧ more ≠ [] ∧ matchesNames ps more = true := by
  rw [matchesNames.eq_def]
  dsimp only
  rw [if_pos hp]
  simp only [List.any_eq_true, List.mem_tails, Bool.and_eq_true, Bool.not_eq_true',
    List.isEmpty_eq_false_iff]

/-- Any other part describes the first name. -/
lemma matchesNames_cons_single {names : List (List Char)} (hp : isRecursive p = false) :
    matchesNames (p :: ps) names = true ↔
      ∃ name more, names = name :: more ∧ matchesText p name = true ∧ matchesNames ps more = true := by
  rw [matchesNames.eq_def]
  dsimp only
  rw [if_neg (by simp [hp])]
  cases names with
  | nil => simp
  | cons name more => simp [and_assoc]

/-- Parts describe one name at least. -/
lemma ne_nil_of_matchesNames {names : List (List Char)}
    (h : matchesNames (p :: ps) names = true) : names ≠ [] := by
  rintro rfl
  by_cases hp : isRecursive p = true
  · obtain ⟨more, hmore, hne, -⟩ := (matchesNames_cons_recursive hp).1 h
    exact hne (List.suffix_nil.1 hmore)
  · obtain ⟨name, more, heq, -⟩ := (matchesNames_cons_single (by simpa using hp)).1 h
    cases heq

/-- What matches part by part matches as a whole. -/
theorem matchesText_spelled (hps : StandsAlone ps) {names : List (List Char)}
    (h : matchesNames ps names = true) : matchesText (spelled ps) (Path.joined names) = true := by
  induction ps generalizing names with
  | nil =>
    rw [matchesNames, List.isEmpty_iff] at h
    rw [h]
    rfl
  | cons p ps ih =>
    have hrest : StandsAlone ps := fun q hq => hps q (List.mem_cons_of_mem _ hq)
    -- a recursive part has a slash in its own token, and other parts are followed by one
    by_cases hp : isRecursive p = true
    · obtain ⟨more, ⟨front, rfl⟩, hne, hmore⟩ := (matchesNames_cons_recursive hp).1 h
      cases ps with
      | nil =>
        rw [matchesNames, List.isEmpty_iff] at hmore
        exact absurd hmore hne
      | cons q ps =>
        have hmatch := ih hrest hmore
        rw [spelled, if_pos hp, isRecursive_iff.1 hp, List.singleton_append,
          matchesText_anyDirectories_iff]
        by_cases hfront : front = []
        · rw [hfront]
          exact .inl hmatch
        · exact .inr (.inl ⟨_, _, Path.joined_append hfront hne, hmatch⟩)
    · have hsingle : isRecursive p = false := by simpa using hp
      have hnot : .anyDirectories ∉ p := fun hmem => hp (hps p List.mem_cons_self hmem)
      obtain ⟨name, more, rfl, hname, hmore⟩ := (matchesNames_cons_single hsingle).1 h
      cases ps with
      | nil =>
        rw [matchesNames, List.isEmpty_iff] at hmore
        rw [hmore]
        exact hname
      | cons q ps =>
        rw [spelled, if_neg hp, Path.joined_cons name (ne_nil_of_matchesNames hmore)]
        refine matchesText_append hnot hname ?_
        exact (matchesText_cons_iff (by simp) (by simp)).2
          ⟨'/', _, rfl, beq_self_eq_true _, ih hrest hmore⟩

/-! ## Patterns that mean the same part by part and as a whole -/

/-- Names and `**`, and at the end either a name or, behind `**`, a star with characters behind it. -/
inductive Tame : List Pattern → Prop
  | name {name : List Char} (hne : name ≠ []) : Tame [name.map .char]
  | ending (cs : List Char) : Tame [[.anyDirectories], .anySequence :: cs.map .char]
  | behindName {name : List Char} {ps : List Pattern} (hne : name ≠ []) (h : Tame ps) :
      Tame (name.map .char :: ps)
  | behindAny {ps : List Pattern} (h : Tame ps) : Tame ([.anyDirectories] :: ps)

/-- Whether a part is a name. -/
def isNamed (p : Pattern) : Bool := (literal? p).any fun name => !name.isEmpty

/-- Whether a part is a star with characters behind it. -/
def isEnding : Pattern → Bool
  | .anySequence :: cs => (literal? cs).isSome
  | _ => false

/-- Whether parts are those of a tame pattern. -/
def isTame : List Pattern → Bool
  | [] => false
  | p :: ps =>
    ps.isEmpty && isNamed p || (isNamed p || isRecursive p) && isTame ps ||
      isRecursive p && ps.length == 1 && ps.all isEnding

/-- A part that is a name spells it. -/
lemma exists_of_isNamed (h : isNamed p = true) : ∃ name, name ≠ [] ∧ p = name.map .char := by
  obtain ⟨name, hlit, hne⟩ := Option.any_eq_true _ _ |>.1 h
  exact ⟨name, by simpa using hne, literal?_eq_some_iff.1 hlit⟩

/-- Parts that are checked to be tame are. -/
lemma tame_of_isTame (h : isTame ps = true) : Tame ps := by
  induction ps with
  | nil => cases h
  | cons p ps ih =>
    simp only [isTame, Bool.or_eq_true, Bool.and_eq_true, List.isEmpty_iff, beq_iff_eq] at h
    obtain (⟨rfl, hname⟩ | ⟨hname | hp, hps⟩) | ⟨⟨hp, hlength⟩, hend⟩ := h
    · obtain ⟨name, hne, rfl⟩ := exists_of_isNamed hname
      exact .name hne
    · obtain ⟨name, hne, rfl⟩ := exists_of_isNamed hname
      exact .behindName hne (ih hps)
    · rw [isRecursive_iff.1 hp]
      exact .behindAny (ih hps)
    · obtain ⟨q, rfl⟩ := List.length_eq_one_iff.1 hlength
      have hq := List.all_eq_true.1 hend q (List.mem_singleton_self q)
      unfold isEnding at hq
      split at hq
      · next cs =>
        obtain ⟨name, hname⟩ := Option.isSome_iff_exists.1 hq
        rw [isRecursive_iff.1 hp, literal?_eq_some_iff.1 hname]
        exact .ending name
      · cases hq

/-- A tame pattern has parts. -/
lemma Tame.ne_nil (h : Tame ps) : ps ≠ [] := by cases h <;> simp

/-- Characters do not go down to all directories. -/
lemma isRecursive_chars (cs : List Char) : isRecursive (cs.map .char) = false := by
  rw [← Bool.not_eq_true, isRecursive_iff]
  cases cs <;> simp

/-- The last part of a text ends as the text does. -/
lemma suffix_of_pieces {front : List (List Char)} {last : List Char}
    (h : Path.pieces ds = front ++ [last]) (hcs : cs <:+ ds) (hslash : '/' ∉ cs) : cs <:+ last := by
  have hds := Path.joined_pieces ds
  rw [h] at hds
  by_cases hfront : front = []
  · rw [hfront] at hds
    change last = ds at hds
    rw [hds]
    exact hcs
  · rw [Path.joined_append hfront (by simp)] at hds
    have hlast : '/' :: last <:+ ds := ⟨Path.joined front, hds⟩
    rcases List.suffix_or_suffix_of_suffix hcs hlast with hle | hle
    · rcases List.suffix_cons_iff.1 hle with rfl | hle
      · exact absurd List.mem_cons_self hslash
      · exact hle
    · exact absurd (hle.subset List.mem_cons_self) hslash

/-- A star and characters match what ends with these. -/
lemma matchesText_ending_iff :
    matchesText (.anySequence :: ds.map .char) cs = true ↔ ds <:+ cs := by
  simp [matchesText_anySequence_iff, matchesText_chars_iff]

/-- What a star behind `**` describes as a whole ends as it should. -/
lemma suffix_of_ending
    (h : matchesText (spelled [[.anyDirectories], .anySequence :: ds.map .char]) cs = true) :
    ds <:+ cs := by
  rw [spelled, if_pos (by rfl), List.singleton_append, matchesText_anyDirectories_iff] at h
  simp only [spelled, matchesText_ending_iff] at h
  rcases h with h | ⟨front, rest, rfl, h⟩ | h
  · exact h
  · exact h.trans ((List.suffix_cons '/' rest).trans (List.suffix_append front _))
  · exact h.trans List.nil_suffix

/-- A star behind `**` matches any names, the last of which ends as it should. -/
lemma matchesNames_ending (hcs : '/' ∉ cs) (hsuffix : cs <:+ ds) :
    matchesNames [[.anyDirectories], .anySequence :: cs.map .char] (Path.pieces ds) = true := by
  obtain ⟨front, last, hpieces⟩ :=
    (List.eq_nil_or_concat' (Path.pieces ds)).resolve_left (Path.pieces_ne_nil ds)
  rw [matchesNames_cons_recursive (by rfl)]
  refine ⟨[last], ⟨front, hpieces.symm⟩, by simp, ?_⟩
  rw [matchesNames_cons_single (by rfl)]
  refine ⟨last, [], rfl, ?_, rfl⟩
  exact matchesText_ending_iff.2 (suffix_of_pieces hpieces hsuffix hcs)

/-- What a tame pattern describes if nothing is left of a text. -/
lemma Tame.describes_of_nil (h : Tame ps) (hslash : ∀ p ∈ ps, .char '/' ∉ p)
    (hmatch : matchesText (spelled ps) [] = true) (cs : List Char) :
    matchesNames ps (Path.pieces cs) = true := by
  induction h with
  | name hne => exact absurd (matchesText_chars_iff.1 hmatch).symm hne
  | ending ds =>
    rw [List.suffix_nil.1 (suffix_of_ending hmatch)]
    exact matchesNames_ending (by simp) List.nil_suffix
  | @behindName name ps hne h _ =>
    obtain ⟨q, rest, rfl⟩ := List.exists_cons_of_ne_nil h.ne_nil
    rw [spelled, if_neg (by simp [isRecursive_chars]), matchesText_chars_append_iff] at hmatch
    obtain ⟨rest, hrest, -⟩ := hmatch
    exact absurd (List.append_eq_nil_iff.1 hrest.symm).1 hne
  | @behindAny ps h ih =>
    obtain ⟨q, rest, rfl⟩ := List.exists_cons_of_ne_nil h.ne_nil
    rw [spelled, if_pos (by rfl), List.singleton_append, matchesText_anyDirectories_iff] at hmatch
    have hmatch' : matchesText (spelled (q :: rest)) [] = true := by simpa using hmatch
    rw [matchesNames_cons_recursive (by rfl)]
    exact ⟨_, List.suffix_refl _, Path.pieces_ne_nil _,
      ih (fun p hp => hslash p (List.mem_cons_of_mem _ hp)) hmatch'⟩

/-- A tame pattern that describes a text as a whole describes its parts. -/
lemma Tame.describes (h : Tame ps) (hslash : ∀ p ∈ ps, .char '/' ∉ p)
    (hmatch : matchesText (spelled ps) cs = true) :
    matchesNames ps (Path.pieces cs) = true := by
  -- in a tame pattern a token for many names stands for whole names, wherever the text is cut
  induction h generalizing cs with
  | @name name hne =>
    have hname : '/' ∉ name := fun hmem =>
      hslash _ (List.mem_singleton_self _) (List.mem_map.2 ⟨_, hmem, rfl⟩)
    rw [matchesText_chars_iff.1 hmatch, Path.pieces_of_slash_not_mem hname,
      matchesNames_cons_single (isRecursive_chars name)]
    exact ⟨name, [], rfl, matchesText_chars_iff.2 rfl, rfl⟩
  | ending ds =>
    refine matchesNames_ending (fun hmem => ?_) (suffix_of_ending hmatch)
    exact hslash (.anySequence :: ds.map .char) (by simp)
      (List.mem_cons_of_mem _ (List.mem_map.2 ⟨_, hmem, rfl⟩))
  | @behindName name ps hne h ih =>
    have hname : '/' ∉ name := fun hmem =>
      hslash _ List.mem_cons_self (List.mem_map.2 ⟨_, hmem, rfl⟩)
    obtain ⟨q, rest, rfl⟩ := List.exists_cons_of_ne_nil h.ne_nil
    rw [spelled, if_neg (by simp [isRecursive_chars]), matchesText_chars_append_iff] at hmatch
    obtain ⟨_, rfl, hmatch⟩ := hmatch
    obtain ⟨c, more, rfl, hc, hmatch⟩ := (matchesText_cons_iff (by simp) (by simp)).1 hmatch
    rw [beq_iff_eq.1 hc, Path.pieces_append_slash, Path.pieces_of_slash_not_mem hname,
      matchesNames_cons_single (isRecursive_chars name)]
    exact ⟨name, _, rfl, matchesText_chars_iff.2 rfl,
      ih (fun p hp => hslash p (List.mem_cons_of_mem _ hp)) hmatch⟩
  | @behindAny ps h ih =>
    have hrest : ∀ p ∈ ps, .char '/' ∉ p := fun p hp => hslash p (List.mem_cons_of_mem _ hp)
    obtain ⟨q, rest, rfl⟩ := List.exists_cons_of_ne_nil h.ne_nil
    rw [spelled, if_pos (by rfl), List.singleton_append, matchesText_anyDirectories_iff] at hmatch
    rw [matchesNames_cons_recursive (by rfl)]
    rcases hmatch with hmatch | ⟨front, more, rfl, hmatch⟩ | hmatch
    · exact ⟨_, List.suffix_refl _, Path.pieces_ne_nil _, ih hrest hmatch⟩
    · rw [Path.pieces_append_slash]
      exact ⟨_, List.suffix_append _ _, Path.pieces_ne_nil _, ih hrest hmatch⟩
    · exact ⟨_, List.suffix_refl _, Path.pieces_ne_nil _, h.describes_of_nil hrest hmatch cs⟩

end StoreBindings.Glob
