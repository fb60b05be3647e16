import StoreBindings.Boot
import StoreBindings.Proofs.Syntax.Formed

/-!
# How the boot call is written

A call is found in the tree by what it consists of, so it may be written in any way that the grammar
allows: with white space and comments between its parts, with optional chaining, with type arguments,
and with an empty template for its parentheses. A `Spelling` is such a way, and every boot call has
one (`exists_spelling`). The test on the text finds those calls that are `IsPlain`, and no others
(`startsCall_text_append`).
-/

namespace StoreBindings.Boot

open Syntax (Tree Kind Role Node)
open Syntax.Tree (charsOfAll part?_cons part?_append role_mark role_of_isGap)

/-- A way to write the boot call without arguments. -/
structure Spelling where
  /-- What stands before the point. -/
  before : List Tree
  point : String
  /-- What stands behind the point. -/
  after : List Tree
  /-- What stands between the name of the function and its arguments. -/
  between : List Tree
  opening : String
  /-- What stands between the marks around the arguments. -/
  inside : List Tree
  closing : String
  before_gap : ∀ t ∈ before, t.IsGap
  point_eq : point = "." ∨ point = "?."
  after_gap : ∀ t ∈ after, t.IsGap
  between_fits : ∀ t ∈ between, t.IsBetween
  inside_empty : ∀ t ∈ inside, t.IsGap ∨ t = .mark ","
  marks_eq : opening = "(" ∧ closing = ")" ∨ opening = "\x60" ∧ closing = "\x60"

namespace Spelling

/-- The arguments with the marks around them. -/
def arguments (s : Spelling) : List Char :=
  s.opening.toList ++ (charsOfAll s.inside ++ s.closing.toList)

/-- The text of a call that is written in a given way. -/
def text (s : Spelling) : List Char :=
  "StoreManager".toList ++ (charsOfAll s.before ++ (s.point.toList ++ (charsOfAll s.after ++
    ("boot".toList ++ (charsOfAll s.between ++ s.arguments)))))

/-- The call is written with a point and parentheses, and with nothing but white space between its
words. -/
structure IsPlain (s : Spelling) : Prop where
  before : ∀ c ∈ charsOfAll s.before, Text.isBlank c = true
  point : s.point = "."
  after : ∀ c ∈ charsOfAll s.after, Text.isBlank c = true
  between : ∀ c ∈ charsOfAll s.between, Text.isBlank c = true
  opening : s.opening = "("

end Spelling

/-! ## What stands between the words of a call -/

/-- The characters that what stands between the words of a call can begin with. -/
def isJoint (c : Char) : Bool := Syntax.isSpace c || c == '/' || c == '?' || c == '<'

lemma isJoint_of_isSpace {c : Char} (h : Syntax.isSpace c = true) : isJoint c = true := by
  simp [isJoint, h]

/-- What stands between two words begins with a character of its own, and is white space throughout
if that character is blank. -/
lemma exists_joint {t : Tree} (h : t.IsBetween) :
    ∃ c cs, t.chars = c :: cs ∧ isJoint c = true ∧
      (Text.isBlank c = true → ∀ d ∈ cs, Syntax.isSpace d = true) := by
  rcases h with (⟨c, cs, hspace⟩ | ⟨cs⟩ | ⟨cs⟩) | rfl | ⟨parts, rfl, hhead⟩
  · exact ⟨c, cs, rfl, isJoint_of_isSpace (hspace c List.mem_cons_self),
      fun _ d hd => hspace d (List.mem_cons_of_mem _ hd)⟩
  · exact ⟨'/', _, rfl, rfl, nofun⟩
  · exact ⟨'/', _, rfl, rfl, nofun⟩
  · exact ⟨'?', _, rfl, rfl, nofun⟩
  · obtain ⟨cs, hcs⟩ := List.head?_eq_some_iff.1 hhead
    exact ⟨'<', cs, hcs, rfl, nofun⟩

/-- The same holds without the blanks in front, if anything is left. -/
lemma trimStart_chars {t : Tree} (h : t.IsBetween) : Text.trimStart t.chars = [] ∨
    ∃ c cs, Text.trimStart t.chars = c :: cs ∧ isJoint c = true := by
  obtain ⟨c, cs, hchars, hc, hspace⟩ := exists_joint h
  rw [hchars, Text.trimStart, List.dropWhile_cons]
  split
  · next hblank =>
    cases htrim : cs.dropWhile Text.isBlank with
    | nil => exact .inl rfl
    | cons d ds =>
      have hd : d ∈ cs := (List.dropWhile_sublist _).subset (htrim ▸ List.mem_cons_self)
      exact .inr ⟨d, ds, rfl, isJoint_of_isSpace (hspace hblank d hd)⟩
  · exact .inr ⟨c, cs, rfl, hc⟩

lemma trimStart_charsOfAll {ts : List Tree} (h : ∀ t ∈ ts, t.IsBetween) :
    Text.trimStart (charsOfAll ts) = [] ∨
      ∃ c cs, Text.trimStart (charsOfAll ts) = c :: cs ∧ isJoint c = true := by
  induction ts with
  | nil => exact .inl rfl
  | cons t ts ih =>
    rw [charsOfAll, Text.trimStart, List.dropWhile_append]
    rcases trimStart_chars (h t List.mem_cons_self) with hblank | ⟨c, cs, hcs, hc⟩
    · rw [Text.trimStart] at hblank
      rw [hblank]
      exact ih fun t ht => h t (List.mem_cons_of_mem _ ht)
    · rw [Text.trimStart] at hcs
      rw [hcs]
      exact .inr ⟨c, _, rfl, hc⟩

/-- Only white space is passed over on the way to a word. -/
lemma afterWord?_trimStart {ts : List Tree} (h : ∀ t ∈ ts, t.IsBetween) {c : Char}
    (hc : isJoint c = false) (word : List Char) {cs : List Char} (hcs : Text.trimStart cs = cs) :
    afterWord? (c :: word) (Text.trimStart (charsOfAll ts ++ cs)) =
      if Text.trimStart (charsOfAll ts) = [] then afterWord? (c :: word) cs else none := by
  rw [Text.trimStart] at hcs
  rw [Text.trimStart, List.dropWhile_append, ← Text.trimStart]
  rcases trimStart_charsOfAll h with hblank | ⟨d, ds, hds, hd⟩
  · rw [hblank, if_pos rfl, hcs]
    rfl
  · rw [hds, if_neg (List.cons_ne_nil _ _)]
    have hne : c ≠ d := by
      rintro rfl
      rw [hc] at hd
      cases hd
    simp [afterWord?, List.isPrefixOf, hne]

/-- What begins with a character of its own is not there if another character comes first. -/
lemma eq_nil_of_append {ts : List Tree} (h : ∀ t ∈ ts, t.IsBetween) {cs ds : List Char} {d : Char}
    (hd : isJoint d = false) (heq : charsOfAll ts ++ cs = d :: ds) : ts = [] := by
  cases ts with
  | nil => rfl
  | cons t ts =>
    obtain ⟨c, cs', hchars, hc, -⟩ := exists_joint (h t List.mem_cons_self)
    rw [charsOfAll, hchars] at heq
    obtain ⟨rfl, -⟩ := List.cons.inj heq
    rw [hc] at hd
    cases hd

/-! ## The text of a call -/

namespace Spelling

variable (s : Spelling)

lemma before_fits : ∀ t ∈ s.before, t.IsBetween := fun t ht => .inl (s.before_gap t ht)

lemma after_fits : ∀ t ∈ s.after, t.IsBetween := fun t ht => .inl (s.after_gap t ht)

lemma isPlain_iff : s.IsPlain ↔ Text.trimStart (charsOfAll s.before) = [] ∧ s.point = "." ∧
    Text.trimStart (charsOfAll s.after) = [] ∧ Text.trimStart (charsOfAll s.between) = [] ∧
    s.opening = "(" := by
  simp only [Text.trimStart, List.dropWhile_eq_nil_iff]
  constructor
  · rintro ⟨hb, hp, ha, hf, ho⟩
    exact ⟨hb, hp, ha, hf, ho⟩
  · rintro ⟨hb, hp, ha, hf, ho⟩
    exact ⟨hb, hp, ha, hf, ho⟩

end Spelling

/-- The text of a call and what follows it, part by part. -/
lemma text_append (s : Spelling) (rest : List Char) : s.text ++ rest =
    "StoreManager".toList ++ (charsOfAll s.before ++ (s.point.toList ++ (charsOfAll s.after ++
      ("boot".toList ++ (charsOfAll s.between ++ (s.opening.toList ++
        (charsOfAll s.inside ++ (s.closing.toList ++ rest)))))))) := by
  unfold Spelling.text Spelling.arguments
  repeat rw [List.append_assoc]

lemma afterWord?_append (word cs : List Char) :
    afterWord? word (word ++ cs) = some (Text.trimStart cs) := by
  have hprefix : word.isPrefixOf (word ++ cs) = true :=
    List.isPrefixOf_iff_prefix.2 (List.prefix_append _ _)
  rw [afterWord?, if_pos hprefix, List.drop_left]

/-- The test on the text finds a call exactly if it is plain. -/
theorem startsCall_text_append (s : Spelling) (rest : List Char) :
    startsCall (s.text ++ rest) = true ↔ s.IsPlain := by
  rw [s.isPlain_iff, text_append, startsCall, afterWord?_append, Option.bind_some]
  rcases s.point_eq with hpoint | hpoint <;>
    rw [hpoint, afterWord?_trimStart s.before_fits rfl [] (by rfl)]
  case inr =>
    -- a question mark is in the way
    simp [afterWord?]
  by_cases hbefore : Text.trimStart (charsOfAll s.before) = []
  swap
  · simp [hbefore]
  rw [if_pos hbefore, show ".".toList = ['.'] from rfl, afterWord?_append, Option.bind_some,
    show "boot".toList = 'b' :: ['o', 'o', 't'] from rfl,
    afterWord?_trimStart s.after_fits rfl _ (by rfl)]
  by_cases hafter : Text.trimStart (charsOfAll s.after) = []
  swap
  · simp [hafter]
  rw [if_pos hafter, afterWord?_append, Option.bind_some]
  rcases s.marks_eq with ⟨hopening, hclosing⟩ | ⟨hopening, hclosing⟩ <;>
    rw [hopening, afterWord?_trimStart s.between_fits rfl [] (by rfl)]
  case inr =>
    -- a template is no parenthesis
    simp [afterWord?]
  by_cases hbetween : Text.trimStart (charsOfAll s.between) = []
  swap
  · simp [hbetween]
  rw [if_pos hbetween, show "(".toList = ['('] from rfl, afterWord?_append]
  simp [hbefore, hafter, hbetween]

/-! ## The calls of a source -/

lemma chars_of_text {t : Tree} {s : String} (h : (t.text == s) = true) : t.chars = s.toList := by
  rw [← eq_of_beq h, Tree.text, String.toList_ofList]

/-- A member that is named as the boot function is written with a point between two names. -/
lemma exists_member {f : Tree} (hf : f.Formed) (hkind : f.kind = .member)
    (hobject : ((f.part? .object).any fun o => o.kind == .identifier && o.text == "StoreManager") =
      true) (hproperty : ((f.part? .property).any fun p => p.text == "boot") = true) :
    ∃ before point after, f.chars = "StoreManager".toList ++ (charsOfAll before ++
        (point.toList ++ (charsOfAll after ++ "boot".toList))) ∧
      (∀ t ∈ before, t.IsGap) ∧ (point = "." ∨ point = "?.") ∧ ∀ t ∈ after, t.IsGap := by
  cases hf with
  | leaf r k cs => cases hobject
  | @node r k parts hfits hparts =>
    cases hkind
    obtain ⟨object, before, point, after, property, rfl, hro, hrp, hpoint, hbefore, hafter⟩ := hfits
    -- the property is the last part, and nothing in front of it is taken for one
    have hleft : ∀ t ∈ object :: (before ++ .mark point :: after), t.role ≠ .property := by
      intro t ht
      rcases List.mem_cons.1 ht with rfl | ht
      · rw [hro]
        decide
      rcases List.mem_append.1 ht with ht | ht
      · rw [role_of_isGap (hbefore t ht)]
        decide
      rcases List.mem_cons.1 ht with rfl | ht
      · rw [role_mark]
        decide
      · rw [role_of_isGap (hafter t ht)]
        decide
    rw [part?_cons hro, Option.any_some, Bool.and_eq_true] at hobject
    rw [show object :: (before ++ .mark point :: (after ++ [property])) =
      (object :: (before ++ .mark point :: after)) ++ [property] by simp,
      part?_append hleft hrp, Option.any_some] at hproperty
    refine ⟨before, point, after, ?_, hbefore, hpoint, hafter⟩
    rw [← chars_of_text hobject.2, ← chars_of_text hproperty]
    simp [Tree.chars, charsOfAll, Tree.mark]

lemma charsOfAll_enclosed (opening closing : String) (inside : List Tree) :
    charsOfAll (.mark opening :: (inside ++ [.mark closing])) =
      opening.toList ++ (charsOfAll inside ++ closing.toList) := by
  simp [charsOfAll, Tree.mark, Tree.chars]

/-- Arguments that hand nothing to a function are two marks with nothing between them that counts. -/
lemma exists_inside {kind : Kind} {parts : List Tree}
    (h : (Syntax.Tree.node .arguments kind parts).Formed)
    (hkind : kind = .arguments ∨ kind = .template)
    (hempty : (Syntax.Tree.node .arguments kind parts).children.isEmpty = true) :
    ∃ opening inside closing, charsOfAll parts =
        opening.toList ++ (charsOfAll inside ++ closing.toList) ∧
      (opening = "(" ∧ closing = ")" ∨ opening = "\x60" ∧ closing = "\x60") ∧
      ∀ t ∈ inside, t.IsGap ∨ t = .mark "," := by
  cases h with
  | node hfits _ =>
    have hnone : ¬∃ t ∈ parts, t.kind.counts = true := by
      rintro ⟨t, ht, hcounts⟩
      have hmem : t ∈ (Syntax.Tree.node .arguments kind parts).children :=
        List.mem_filter.2 ⟨ht, hcounts⟩
      rw [List.isEmpty_iff.1 hempty] at hmem
      cases hmem
    rcases hkind with rfl | rfl
    · obtain ⟨inside, rfl, hinside⟩ := hfits.resolve_left hnone
      exact ⟨"(", inside, ")", charsOfAll_enclosed .., .inl ⟨rfl, rfl⟩, hinside⟩
    · obtain ⟨inside, rfl, hinside⟩ := hfits.resolve_left hnone
      exact ⟨"\x60", inside, "\x60", charsOfAll_enclosed .., .inr ⟨rfl, rfl⟩, hinside⟩

/-- Every boot call without arguments of a source is written in some way. -/
theorem exists_spelling {t : Tree} (ht : t.Formed) {start : Nat}
    (h : isBareCall ⟨start, t⟩ = true) : ∃ s : Spelling, t.chars = s.text := by
  rw [isBareCall, Bool.and_eq_true, Bool.and_eq_true] at h
  obtain ⟨⟨hkind, hfunction⟩, harguments⟩ := h
  cases ht with
  | leaf r k cs => cases harguments
  | @node r k parts hfits hparts =>
    cases show k = .call from eq_of_beq hkind
    obtain ⟨function, between, kind, parts, rfl, hrole, hkind, hbetween⟩ := hfits
    dsimp only at hfunction harguments
    rw [part?_cons hrole] at hfunction
    rw [Syntax.Tree.part?_arguments hrole hbetween, Option.any_some] at harguments
    simp only [Bool.and_eq_true] at hfunction
    obtain ⟨⟨hmember, hobject⟩, hproperty⟩ := hfunction
    obtain ⟨before, point, after, hcallee, hbefore, hpoint, hafter⟩ :=
      exists_member (hparts function (by simp)) (eq_of_beq hmember) (by simpa using hobject) hproperty
    obtain ⟨opening, inside, closing, hchars, hmarks, hinside⟩ :=
      exists_inside (hparts _ (by simp)) hkind harguments
    refine ⟨⟨before, point, after, between, opening, inside, closing, hbefore, hpoint, hafter,
      hbetween, hinside, hmarks⟩, ?_⟩
    rw [Tree.chars, charsOfAll, hcallee, Tree.charsOfAll_append, charsOfAll, Tree.chars, hchars,
      charsOfAll, List.append_nil]
    unfold Spelling.text Spelling.arguments
    repeat rw [List.append_assoc]

lemma exists_callWithLoader (module loader : Path) (cs : List Char) :
    ∃ rest, callWithLoader module loader ++ cs =
      "StoreManager".toList ++ ('.' :: ("boot".toList ++ ('(' :: 'i' :: rest))) := by
  have hopening : "StoreManager.boot(import.meta.glob('".toList =
      "StoreManager".toList ++ ('.' :: ("boot".toList ++ ('(' :: 'i' :: "mport.meta.glob('".toList))) :=
    rfl
  unfold callWithLoader
  dsimp only
  rw [hopening, List.append_assoc, List.append_assoc, List.append_assoc, List.cons_append,
    List.append_assoc]
  exact ⟨_, rfl⟩

/-- A call without arguments is not written as the call with the loader is. -/
lemma text_append_ne (s : Spelling) (module loader : Path) (cs ds : List Char) :
    s.text ++ cs ≠ callWithLoader module loader ++ ds := by
  intro heq
  obtain ⟨rest, hrest⟩ := exists_callWithLoader module loader ds
  rw [hrest, text_append] at heq
  -- word by word, nothing stands between the words of one text, so nothing does in the other
  have hcallee := List.append_cancel_left heq
  rw [eq_nil_of_append s.before_fits rfl hcallee] at hcallee
  rcases s.point_eq with hpoint | hpoint <;> rw [hpoint] at hcallee
  case inr => cases hcallee
  have hname := (List.cons.inj hcallee).2
  rw [show "boot".toList ++ ('(' :: 'i' :: rest) = 'b' :: ("oot".toList ++ ('(' :: 'i' :: rest))
    from rfl] at hname
  rw [eq_nil_of_append s.after_fits rfl hname] at hname
  have harguments : charsOfAll s.between ++ (s.opening.toList ++
      (charsOfAll s.inside ++ (s.closing.toList ++ cs))) = '(' :: 'i' :: rest :=
    List.append_cancel_left hname
  rw [eq_nil_of_append s.between_fits rfl harguments] at harguments
  rcases s.marks_eq with ⟨hopening, hclosing⟩ | ⟨hopening, hclosing⟩ <;>
    rw [hopening, hclosing] at harguments
  case inr => cases harguments
  have hinside := (List.cons.inj harguments).2
  cases hempty : s.inside with
  | nil =>
    rw [hempty] at hinside
    cases hinside
  | cons t ts =>
    rcases s.inside_empty t (hempty ▸ List.mem_cons_self) with hgap | rfl
    · obtain ⟨c, cs', hchars, hc, -⟩ := exists_joint (.inl hgap)
      rw [hempty, charsOfAll, hchars] at hinside
      obtain ⟨rfl, -⟩ := List.cons.inj hinside
      cases hc
    · rw [hempty] at hinside
      cases hinside

end StoreBindings.Boot
