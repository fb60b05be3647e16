import StoreBindings.Proofs.Syntax.Grammar
import StoreBindings.Syntax.Grammar.Types

/-!
# Types are read soundly

Calls and properties occur in types as well, behind `typeof`. That is where this module has more to
say than that a reader is put together from sound ones.
-/

namespace StoreBindings.Syntax

namespace Reader

-- the instance of a reader is as large as the reader
set_option synthInstance.maxSize 100000

variable (self : Grammar) [Proper self]

/-! ## Types -/

instance sound_typeQuery : Sound (typeQuery self) := by
  unfold typeQuery
  have hstep : Sound (do
      match ← token with
      | .symbol "." | .symbol "?." =>
        wrap .object .member do
          take .plain .symbol
          propertyName self .property
        return true
      | .symbol "(" =>
        wrap .function .call do
          inRole .arguments (self .arguments)
        return true
      | .symbol "[" =>
        match (← second).1 with
        | .string | .number =>
          wrap .plain .other do
            symbol "["
            take .plain .other
            symbol "]"
          return true
        | _ => return false
      | .symbol "<" =>
        wrap .plain .other (typeArguments self)
        return true
      | _ => return false) := by
    refine sound_of_token fun c => ?_
    generalize htoken : c.token = t
    split
    · exact ⟨do wrap .object .member (do symbol "."; propertyName self .property); return true,
        inferInstance, bind_congr_left (wrap_take htoken ..) _⟩
    · exact ⟨do wrap .object .member (do symbol "?."; propertyName self .property); return true,
        inferInstance, bind_congr_left (wrap_take htoken ..) _⟩
    · exact ⟨_, inferInstance, rfl⟩
    · refine ⟨_, sound_bind (h := fun _ => ?_), rfl⟩
      split <;> infer_instance
    · exact ⟨_, inferInstance, rfl⟩
    · exact ⟨_, inferInstance, rfl⟩
  infer_instance

instance sound_keyClause : Sound (keyClause self) := by
  unfold keyClause
  infer_instance

instance sound_typeMember : Sound (typeMember self) := by
  unfold typeMember
  refine sound_node (h := sound_bind (g := sound_repeatWhile (h := sound_bind (h := fun _ =>
    sound_bind (h := fun _ => ?_)))) (h := fun _ => ?_))
  · split <;> infer_instance
  · refine sound_bind (h := fun _ => sound_ite _ (g := sound_bind (h := fun _ => ?_)))
    split <;> infer_instance

instance sound_objectType : Sound (objectType self) := by
  unfold objectType
  infer_instance

instance sound_tupleElement : Sound (tupleElement self) := by
  unfold tupleElement
  infer_instance

instance sound_typePrimary : Sound (typePrimary self) := by
  unfold typePrimary
  refine sound_of_token fun c => ?_
  generalize htoken : c.token = t
  split
  case h_4 => exact ⟨_, sound_takeNumber _, (takeNumber_eq_take htoken).symm⟩
  all_goals exact ⟨_, inferInstance, rfl⟩

instance sound_typeOperandRule (conditional : Bool) : Sound (typeOperandRule self conditional) := by
  unfold typeOperandRule
  refine sound_bind (h := fun _ => ?_)
  split <;> infer_instance

instance sound_joinedTypes (mark : String) {operand : Reader Unit} [Sound operand] :
    Sound (joinedTypes mark operand) := by
  unfold joinedTypes
  infer_instance

instance sound_functionTypeOf (kind : Kind) [Holds kind.isLoose] :
    Sound (functionTypeOf self kind) := by
  unfold functionTypeOf
  infer_instance

instance sound_typePredicate : Sound (typePredicate self) := by
  unfold typePredicate
  infer_instance

instance sound_atTypePredicate : Sound atTypePredicate := by
  unfold atTypePredicate
  refine sound_bind (h := fun _ => sound_bind (h := fun _ => ?_))
  split <;> infer_instance

instance sound_unionMember (conditional : Bool) : Sound (typeRule.unionMember self conditional) := by
  unfold typeRule.unionMember
  refine sound_bind (h := fun _ => ?_)
  split <;> infer_instance

instance sound_typeRule (conditional : Bool) : Sound (typeRule self conditional) := by
  unfold typeRule
  refine sound_bind (h := fun _ => sound_ite _ (h := sound_bind (h := fun _ => sound_bind
    (h := fun _ => ?_))))
  split <;> infer_instance

end Reader

end StoreBindings.Syntax
