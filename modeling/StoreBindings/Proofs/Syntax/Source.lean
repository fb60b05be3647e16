import StoreBindings.Proofs.Syntax.Grammar.Statements
import StoreBindings.Proofs.Syntax.Grammar.Values
import StoreBindings.Syntax.Source

/-!
# The tree of a source is formed

`proper_grammar` goes by induction on the depth to which rules are nested: rules are read soundly if
the rules inside them are. `formed_parse` is what is known of the tree of any source.
-/

namespace StoreBindings.Syntax

open Reader

instance proper_rules (dialect : Dialect) (self : Grammar) [Proper self] :
    Proper (rules dialect self) where
  sound r := by
    cases r
    all_goals
      dsimp only [rules]
      infer_instance
  fills r hr := by
    cases r with
    | assignment | binary | unary | leftHand | markup =>
      dsimp only [rules]
      infer_instance
    | _ => cases hr
  values r hr := by
    cases r with
    | assignment | binary | unary | leftHand =>
      dsimp only [rules]
      infer_instance
    | _ => cases hr
  arguments := lays_argumentsRule self
  takes := takes_argumentsRule self
  markup := lays_isNode _ _
  binding := lays_bindingRule self

instance proper_grammar (dialect : Dialect) (depth : Nat) : Proper (grammar dialect depth) := by
  induction depth with
  | zero =>
    exact ⟨fun _ => sound_failure, fun _ _ => fills_failure, fun _ _ => values_failure,
      lays_failure, takes_failure, lays_failure, lays_failure⟩
  | succ depth ih => exact proper_rules dialect (grammar dialect depth)

lemma takeInterpreter_append (cs : List Char) :
    (takeInterpreter cs).1 ++ (takeInterpreter cs).2 = cs := by
  unfold takeInterpreter
  split
  · rw [List.span_eq_takeWhile_dropWhile]
    simp
  · rfl

instance cuts_takeInterpreter : Cuts takeInterpreter := ⟨takeInterpreter_append⟩

lemma formed_of_parts? {dialect : Dialect} {cs : List Char} {parts : List Tree}
    (h : parts? dialect cs = some parts) : ∀ t ∈ parts, t.Formed := by
  obtain ⟨⟨_, c⟩, hread, h⟩ := Option.bind_eq_some_iff.1 h
  obtain ⟨_, -, h⟩ := Option.bind_eq_some_iff.1 h
  cases h
  have hc : (Cursor.before [] cs).Good := Cursor.good_before (by simp) cs
  exact fun t ht => (Sound.good hc hread).done t (List.mem_reverse.1 ht)

/-- The tree of a source is put together as the kinds of its nodes say. -/
theorem formed_parse (dialect : Dialect) (cs : List Char) : (parse dialect cs).Formed := by
  unfold parse
  split
  · next parts hparts =>
    split
    · exact .node trivial (formed_of_parts? hparts) trivial
    · exact formed_leaf rfl rfl cs
  · exact formed_leaf rfl rfl cs

end StoreBindings.Syntax
