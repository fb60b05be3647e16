import StoreBindings.Proofs.Boot.Spelling
import StoreBindings.Proofs.Syntax.Places
import StoreBindings.Proofs.Syntax.Source

/-!
# The calls that are replaced

The calls are replaced in the text by the places they have in the tree, the last one first. What the
new text should be is said by the tree alone: `rewritten` walks over it and writes the new call where
a boot call stands that is not inside another one. Places and tree agree on it as long as no boot call
is inside another one (`addressLoader_replaces`). Where one is, in the type arguments of a call, the
place of the outer call is out of date by the time it is used, and parts of its text are left over.
-/

namespace StoreBindings.Boot

open Syntax (Tree Node Span)
open Syntax.Tree (charsOfAll)

mutual

/-- The text of a tree with a new text for each boot call that is not inside another one. -/
def rewritten (new : List Char) : Tree → List Char
  | .leaf _ _ cs => cs
  | .node r k ps => if isBareCall ⟨0, .node r k ps⟩ then new else rewrittenAll new ps

/-- `rewritten` for trees side by side. -/
def rewrittenAll (new : List Char) : List Tree → List Char
  | [] => []
  | t :: ts => rewritten new t ++ rewrittenAll new ts

end

/-- No stretch lies inside one that is listed before it. -/
def AreApart (spans : List Span) : Prop :=
  spans.Pairwise fun outer inner => ¬inner.Within outer

instance (spans : List Span) : Decidable (AreApart spans) :=
  inferInstanceAs (Decidable (spans.Pairwise _))

/-! ## Replacing stretches of a text -/

lemma splice_behind (before text after new : List Char) :
    splice (before ++ text ++ after) (.behind before text) new = before ++ new ++ after := by
  rw [splice, Span.behind, ← Text.byteLength_append, Text.splitAt?_append]
  dsimp only
  rw [Text.splitAt?_append]

lemma spliceAll_cons (cs : List Char) (span : Span) (spans : List Span) (new : List Char) :
    spliceAll cs (span :: spans) new = splice (spliceAll cs spans new) span new := rfl

lemma spliceAll_append (cs : List Char) (spans spans' : List Span) (new : List Char) :
    spliceAll cs (spans ++ spans') new = spliceAll (spliceAll cs spans' new) spans new :=
  List.foldr_append ..

/-! ## Calls that are apart -/

section apart

variable (new : List Char)

lemma spliceAll_placesInAll {ts : List Tree}
    (ih : ∀ t ∈ ts, ∀ before after : List Char,
      AreApart (Node.placesIn isBareCall (Text.byteLength before) t) →
      spliceAll (before ++ t.chars ++ after) (Node.placesIn isBareCall (Text.byteLength before) t)
        new = before ++ rewritten new t ++ after)
    (before after : List Char)
    (h : AreApart (Node.placesInAll isBareCall (Text.byteLength before) ts)) :
    spliceAll (before ++ charsOfAll ts ++ after)
        (Node.placesInAll isBareCall (Text.byteLength before) ts) new =
      before ++ rewrittenAll new ts ++ after := by
  induction ts generalizing before after with
  | nil => rfl
  | cons t ts ihts =>
    obtain ⟨hfirst, hrest, -⟩ := List.pairwise_append.1 h
    rw [Tree.size, ← Text.byteLength_append] at hrest
    -- the later trees come first, and what stands before them is still what it was
    have hlater := ihts (fun t ht => ih t (List.mem_cons_of_mem _ ht)) _ after hrest
    have hnow := ih t List.mem_cons_self before (rewrittenAll new ts ++ after) hfirst
    rw [Node.placesInAll, spliceAll_append, Tree.size, ← Text.byteLength_append, charsOfAll,
      ← List.append_assoc before, hlater, rewrittenAll]
    rw [← List.append_assoc] at hnow
    rw [hnow]
    simp only [List.append_assoc]

lemma isBareCall_leaf (start : Nat) (r : Syntax.Role) (k : Syntax.Kind) (cs : List Char) :
    isBareCall ⟨start, .leaf r k cs⟩ = false :=
  Bool.and_false _

/-- Boot calls none of which is inside another one are replaced at their places. -/
lemma spliceAll_placesIn (t : Tree) (before after : List Char)
    (h : AreApart (Node.placesIn isBareCall (Text.byteLength before) t)) :
    spliceAll (before ++ t.chars ++ after) (Node.placesIn isBareCall (Text.byteLength before) t)
      new = before ++ rewritten new t ++ after := by
  induction t using Tree.induction generalizing before after with
  | leaf r k cs =>
    rw [Node.placesIn, isBareCall_leaf]
    rfl
  | node r k ps ih =>
    have hwithin : ∀ span ∈ Node.placesIn isBareCall (Text.byteLength before) (.node r k ps),
        span.Within (Node.mk (Text.byteLength before) (.node r k ps)).span :=
      fun _ => Node.within_of_mem_placesIn
    rw [Node.placesIn] at h hwithin ⊢
    rw [rewritten]
    by_cases hcall : isBareCall ⟨0, .node r k ps⟩ = true
    · -- all that is found inside this call would lie inside it
      have hcall' : isBareCall ⟨Text.byteLength before, .node r k ps⟩ = true := hcall
      rw [if_pos hcall'] at h hwithin ⊢
      rw [if_pos hcall]
      have hnone : Node.placesInAll isBareCall (Text.byteLength before) ps = [] := by
        refine List.eq_nil_iff_forall_not_mem.2 fun span hspan => ?_
        exact (List.pairwise_cons.1 h).1 span hspan
          (hwithin span (List.mem_append_right _ hspan))
      rw [hnone]
      exact splice_behind before _ after new
    · have hcall' : ¬isBareCall ⟨Text.byteLength before, .node r k ps⟩ = true := hcall
      rw [if_neg hcall'] at h ⊢
      rw [if_neg hcall]
      exact spliceAll_placesInAll new ih before after h

end apart

/-! ## The new text is another one -/

/-- A stretch of a text on which a boot call is written. -/
def Writes (code : List Char) (span : Span) : Prop :=
  ∃ before after, ∃ s : Spelling, code = before ++ s.text ++ after ∧ span = .behind before s.text

lemma splice_cases (cs : List Char) (span : Span) (new : List Char) :
    splice cs span new = cs ∨ ∃ front rest, splice cs span new = front ++ new ++ rest ∧
      front <+: cs ∧ Text.byteLength front = span.start := by
  unfold splice
  split
  · next before after hstop =>
    split
    · next front inside hstart =>
      obtain ⟨rfl, hfront⟩ := Text.splitAt?_eq_some hstart
      obtain ⟨rfl, -⟩ := Text.splitAt?_eq_some hstop
      exact .inr ⟨front, after, rfl,
        (List.prefix_append front inside).trans (List.prefix_append _ after), hfront⟩
    · exact .inl rfl
  · exact .inl rfl

/-- Whichever calls are replaced, the text is kept up to one of them and goes on with the new call. -/
lemma exists_spliceAll {code : List Char} (new : List Char) {spans : List Span}
    (hcalls : ∀ span ∈ spans, Writes code span)
    (hsorted : spans.Pairwise fun a b => a.start ≤ b.start) (hne : spans ≠ []) :
    ∃ before after rest, ∃ s : Spelling, code = before ++ s.text ++ after ∧
      .behind before s.text ∈ spans ∧ spliceAll code spans new = before ++ new ++ rest := by
  induction spans with
  | nil => exact absurd rfl hne
  | cons span spans ih =>
    obtain ⟨before, after, s, rfl, rfl⟩ := hcalls span List.mem_cons_self
    cases spans with
    | nil =>
      refine ⟨before, after, after, s, rfl, List.mem_cons_self, ?_⟩
      rw [spliceAll_cons]
      exact splice_behind before s.text after new
    | cons span' spans =>
      obtain ⟨hfirst, hlater⟩ := List.pairwise_cons.1 hsorted
      obtain ⟨before', after', rest, s', hcode, hmem, hout⟩ :=
        ih (fun span h => hcalls span (List.mem_cons_of_mem _ h)) hlater (List.cons_ne_nil _ _)
      have hstart : Text.byteLength before ≤ Text.byteLength before' := hfirst _ hmem
      -- the first call begins where the text is still what it was
      have hkept : before <+: before' := Text.prefix_of_byteLength_le
        ((List.prefix_append before s.text).trans (List.prefix_append _ after))
        (hcode ▸ (List.prefix_append before' s'.text).trans (List.prefix_append _ after')) hstart
      rw [spliceAll_cons, hout]
      rcases splice_cases (before' ++ new ++ rest) (.behind before s.text) new with
        hsame | ⟨front, rest', hnew, hfront, hlength⟩
      · exact ⟨before', after', rest, s', hcode, List.mem_cons_of_mem _ hmem, hsame⟩
      · obtain rfl : front = before := Text.eq_of_byteLength_eq hfront
          (hkept.trans ((List.prefix_append before' new).trans (List.prefix_append _ rest))) hlength
        exact ⟨front, after, rest', s, rfl, List.mem_cons_self, hnew⟩

/-- Where a call is replaced the text becomes another one. -/
lemma spliceAll_ne {code : List Char} {spans : List Span} (module loader : Path)
    (hcalls : ∀ span ∈ spans, Writes code span)
    (hsorted : spans.Pairwise fun a b => a.start ≤ b.start) (hne : spans ≠ []) :
    spliceAll code spans (callWithLoader module loader) ≠ code := by
  intro hsame
  obtain ⟨before, after, rest, s, hcode, -, hout⟩ :=
    exists_spliceAll (callWithLoader module loader) hcalls hsorted hne
  rw [hsame, hcode, List.append_assoc, List.append_assoc] at hout
  exact text_append_ne s module loader after rest (List.append_cancel_left hout)

/-! ## The calls of a module -/

/-- The tree of a module of a given path. -/
def rootOf (code id : List Char) : Node := (Syntax.Module.read ⟨id⟩ code).root

lemma chars_rootOf (code id : List Char) : (rootOf code id).tree.chars = code :=
  (Syntax.Module.read ⟨id⟩ code).chars_tree

/-- Each of the places of the boot calls of a module is one on which such a call is written. -/
lemma writes_of_mem_bareCalls {code id : List Char} {span : Span}
    (h : span ∈ bareCalls (rootOf code id)) : Writes code span := by
  obtain ⟨before, t, after, hpart, rfl, hcall⟩ := Node.exists_partAt h
  obtain ⟨s, hs⟩ := exists_spelling (hpart.formed (Syntax.formed_parse _ _)) hcall
  refine ⟨before, after, s, ?_, ?_⟩
  · rw [← hs, ← hpart.chars_eq, chars_rootOf]
  · rw [← hs, show (rootOf code id).start = 0 from rfl, Nat.zero_add]
    rfl

/-- The text of a module with its boot calls replaced, whatever the module is called and whether or
not the call is mentioned in it. -/
def addressCalls (code id : List Char) (loader : Path) : Option (List Char) :=
  let module := Syntax.Module.read ⟨id⟩ code
  let calls := bareCalls module.root
  let output := spliceAll code calls (callWithLoader module.path loader)
  if calls.isEmpty || output == code then none else some output

lemma addressLoader_eq (code id : List Char) (loader : Path) : addressLoader code id loader =
    if isEligible id && mentionsBoot code then addressCalls code id loader else none := rfl

/-- There is a new text wherever there is a call. -/
lemma addressCalls_eq (code id : List Char) (loader : Path) : addressCalls code id loader =
    if bareCalls (rootOf code id) = [] then none
    else some (spliceAll code (bareCalls (rootOf code id)) (callWithLoader ⟨id⟩ loader)) := by
  show (if (bareCalls (rootOf code id)).isEmpty ||
      spliceAll code (bareCalls (rootOf code id)) (callWithLoader ⟨id⟩ loader) == code then none
    else some (spliceAll code (bareCalls (rootOf code id)) (callWithLoader ⟨id⟩ loader))) = _
  by_cases h : bareCalls (rootOf code id) = []
  · simp [h]
  · have hne := spliceAll_ne ⟨id⟩ loader (fun _ => writes_of_mem_bareCalls)
      (Node.pairwise_placesIn isBareCall _ (rootOf code id).tree) h
    rw [if_neg h, if_neg]
    simpa [h] using hne

/-- If no boot call of a module is inside another one, a module in which the call is mentioned is given
a new text exactly if it has such a call, and the new text is the old one with a new call in the place of
each of them. -/
theorem addressLoader_replaces (code id : List Char) (loader : Path) (hid : isEligible id = true)
    (hmentions : mentionsBoot code = true) (hapart : AreApart (bareCalls (rootOf code id))) :
    ((addressLoader code id loader).isSome = true ↔ bareCalls (rootOf code id) ≠ []) ∧
      ∀ output, addressLoader code id loader = some output →
        output = rewritten (callWithLoader ⟨id⟩ loader) (rootOf code id).tree := by
  rw [addressLoader_eq, hid, hmentions, Bool.and_self, if_pos rfl, addressCalls_eq]
  constructor
  · by_cases h : bareCalls (rootOf code id) = [] <;> simp [h]
  · intro output houtput
    split at houtput
    · cases houtput
    · cases houtput
      have hplaces := spliceAll_placesIn (callWithLoader ⟨id⟩ loader) (rootOf code id).tree
        [] [] hapart
      rw [chars_rootOf, List.nil_append, List.append_nil, List.append_nil] at hplaces
      exact hplaces

/-- Two calls side by side are both given the loader. -/
theorem addressLoader_replaces_both :
    let code := "StoreManager.boot();StoreManager.boot( )".toList
    let call := "StoreManager.boot(import.meta.glob('./b.ts', \x7beager:true\x7d))".toList
    (addressLoader code "a.ts".toList ⟨"b.ts".toList⟩).isSome = true ∧
      ∀ output, addressLoader code "a.ts".toList ⟨"b.ts".toList⟩ = some output →
        output = call ++ ";".toList ++ call := by
  intro code call
  have hreplaces := addressLoader_replaces code "a.ts".toList ⟨"b.ts".toList⟩
    (by decide +kernel) (by decide +kernel) (by decide +kernel)
  refine ⟨hreplaces.1.2 (by decide +kernel), fun output houtput => ?_⟩
  rw [hreplaces.2 output houtput]
  decide +kernel

/-- A call in the type arguments of another one is replaced before that one is, whose place is out of
date from then on. -/
theorem addressLoader_ne_rewritten_of_nested :
    let code := "StoreManager.boot<\x7b [StoreManager.boot()]: string \x7d>();\n".toList
    let id := "/app/src/main.ts".toList
    let loader : Path := ⟨"/app/src/Stores/Generated/StoreLoader.ts".toList⟩
    isEligible id = true ∧ mentionsBoot code = true ∧ bareCalls (rootOf code id) ≠ [] ∧
      addressLoader code id loader ≠
        some (rewritten (callWithLoader ⟨id⟩ loader) (rootOf code id).tree) := by
  decide +kernel

end StoreBindings.Boot
