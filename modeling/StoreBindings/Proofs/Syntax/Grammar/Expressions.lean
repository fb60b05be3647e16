import StoreBindings.Proofs.Syntax.Grammar.Types
import StoreBindings.Syntax.Grammar.Expressions

/-!
# Expressions are read soundly

Calls are put together here. Where nothing counts between the parentheses of a call, there are only
white space, comments and commas (`opens_argument`), since every value leaves something that counts.
Which readers read a value is said by `Fills`, with one instance for each of them as well.
-/

namespace StoreBindings.Syntax

namespace Reader

-- the instance of a reader is as large as the reader
set_option synthInstance.maxSize 100000

variable (self : Grammar) [Proper self]

/-! ## Expressions -/

/-- A remark is a part that counts. -/
lemma kind_of_remark? {cs rest : List Char} {t : Tree} (h : remark? cs = some (t, rest)) :
    ∃ cs', t = .leaf .plain .other cs' := by
  unfold remark? at h
  split at h <;> cases h <;> exact ⟨_, rfl⟩

/-- A step over the remarks ahead. -/
def takeRemark : Reader Bool := do
  let c ← get
  match remark? c.front with
  | some (leaf, rest) => set (Cursor.before (leaf :: c.doneWithBlanks) rest); return true
  | none => return false

lemma takeRemarks_eq : takeRemarks = repeatWhile takeRemark := rfl

/-- A step over the remarks ahead takes one of them or none. -/
lemma takeRemark_eq_some {c c' : Cursor} {b : Bool} (h : takeRemark c = some (b, c')) :
    c' = c ∨ ∃ cs rest, cs ++ rest = c.front ∧
      c' = .before (.leaf .plain .other cs :: c.doneWithBlanks) rest := by
  obtain ⟨_, _, hget, h⟩ := bind_eq_some h
  cases hget
  cases hremark : remark? c.front with
  | none =>
    rw [hremark] at h
    cases h
    exact .inl rfl
  | some found =>
    obtain ⟨leaf, rest⟩ := found
    obtain ⟨cs, rfl⟩ := kind_of_remark? hremark
    rw [hremark] at h
    cases h
    exact .inr ⟨cs, rest, remark?_append hremark, rfl⟩

instance sound_takeRemark : Sound takeRemark where
  good hc hread := by
    rcases takeRemark_eq_some hread with rfl | ⟨cs, rest, -, rfl⟩
    · exact hc
    · exact hc.add (formed_leaf rfl rfl cs) rest
  leads hc hread := by
    rcases takeRemark_eq_some hread with rfl | ⟨cs, rest, happend, rfl⟩
    · exact .refl _
    · exact hc.leads_add happend

instance sound_takeRemarks : Sound takeRemarks := by
  rw [takeRemarks_eq]
  infer_instance

/-- What is passed over as a remark counts. -/
lemma takeRemarks_eq_some {c c' : Cursor} {u : Unit} (hc : c.Good)
    (h : takeRemarks c = some (u, c')) : c' = c ∨ c'.Counts := by
  refine repeatWhile_keeps (p := takeRemark) (I := fun d => d = c ∨ d.Counts)
    (fun {d d' b} _ hI hread => ?_) hc (.inl rfl) h
  rcases takeRemark_eq_some hread with rfl | ⟨cs, rest, -, rfl⟩
  · exact hI
  · exact .inr ⟨_, List.mem_cons_self, rfl⟩

instance sound_regex : Sound regex := by
  unfold regex
  refine sound_bind (h := fun _ => ?_)
  repeat' split
  all_goals infer_instance

instance sound_spreadable : Sound (spreadable self) := by
  unfold spreadable
  infer_instance

instance fills_spreadable : Fills (spreadable self) := by
  unfold spreadable
  infer_instance

/-- One argument of a call, or the comma before the next one. -/
def argument : Reader Bool := do
  takeRemarks
  if ← isSymbol ")" then return false
  if ← symbol? "," then return true
  spreadable self
  return true

omit [Proper self] in
lemma argumentsRule_eq : argumentsRule self = node .arguments (do
    symbol "("
    repeatWhile (argument self)
    symbol ")") := rfl

instance sound_argument : Sound (argument self) := by
  unfold argument
  infer_instance

omit [Proper self] in
lemma opens_symbol? {opening : String} {c c' : Cursor} {b : Bool} (hc : c.Good)
    (h : Opens opening c) (hread : symbol? "," c = some (b, c')) :
    Opens opening c' := by
  rcases symbol?_eq_some hread with hcomma | rfl
  · obtain ⟨_, hdone, rfl⟩ := lays_symbol "," hc hcomma
    rcases h with hcounts | ⟨inside, hinside, hgaps⟩
    · exact .inl ((Sound.leads hc hcomma).counts hcounts)
    · refine .inr ⟨inside ++ c.blanks ++ [.mark ","], ?_, fun t ht => ?_⟩
      · simp [hdone, Cursor.doneWithBlanks, hinside]
      · rcases List.mem_append.1 ht with ht | ht
        · rcases List.mem_append.1 ht with ht | ht
          · exact hgaps t ht
          · exact .inl (hc.blanks t ht)
        · exact .inr (List.mem_singleton.1 ht)
  · exact h

theorem opens_argument {opening : String} {c c' : Cursor} {b : Bool} (hc : c.Good)
    (h : Opens opening c) (hread : argument self c = some (b, c')) :
    Opens opening c' := by
  obtain ⟨_, c₁, hremarks, hrest⟩ := bind_eq_some hread
  have hc₁ := Sound.good hc hremarks
  -- a remark that was taken is a part that counts, so the list is not empty any more
  rcases takeRemarks_eq_some hc hremarks with rfl | hcounts
  · obtain ⟨_, _, hclose, hrest⟩ := bind_eq_some hrest
    cases hclose
    split at hrest
    · cases hrest
      exact h
    · obtain ⟨comma, c₂, hcomma, hrest⟩ := bind_eq_some hrest
      have hopens := opens_symbol? hc h hcomma
      cases comma with
      | true =>
        cases hrest
        exact hopens
      | false =>
        obtain ⟨_, c₃, hargument, hrest⟩ := bind_eq_some hrest
        cases hrest
        exact .inl (Fills.counts (Sound.good hc hcomma) hargument)
  · exact .inl ((Sound.leads hc₁ hrest).counts hcounts)

instance sound_argumentsRule : Sound (argumentsRule self) := by
  rw [argumentsRule_eq]
  refine sound_nodeBy_of fun hc hdone hread => ?_
  obtain ⟨_, _, hp, hpure⟩ := bind_eq_some hread
  cases hpure
  exact ⟨rfl, enclosed_of_opens (opens_argument self) hc hdone hp⟩

omit [Proper self] in
lemma lays_argumentsRule :
    Lays (·.IsNode .arguments) (argumentsRule self) := lays_isNode _ _

instance sound_array : Sound (array self) := by
  unfold array
  infer_instance

instance sound_objectMethod : Sound (objectMethod self) := by
  unfold objectMethod
  refine sound_node (h := sound_bind (g := sound_repeatWhile (h := sound_bind (h := fun _ =>
    sound_bind (h := fun _ => ?_)))))
  split <;> infer_instance

instance sound_objectProperty : Sound (objectProperty self) := by
  unfold objectProperty
  refine sound_bind (h := fun _ => sound_ite _ (h := sound_bind (h := fun _ => sound_ite _
    (h := sound_bind (h := fun _ => sound_bind (h := fun _ => ?_))))))
  split <;> infer_instance

instance sound_object : Sound (object self) := by
  unfold object
  infer_instance

instance sound_functionExpression : Sound (functionExpression self) := by
  unfold functionExpression
  infer_instance

instance sound_arrowFunction (allowIn arrowTypes : Bool) :
    Sound (arrowFunction self allowIn arrowTypes) := by
  unfold arrowFunction
  refine sound_node (h := sound_bind (h := fun _ => sound_bind (h := fun _ => sound_ite _
    (g := sound_bind (h := fun _ => sound_bind (h := fun _ => ?_)))
    (h := sound_bind (h := fun _ => ?_)))))
  all_goals split <;> infer_instance

instance sound_mayBeArrow : Sound mayBeArrow := by
  unfold mayBeArrow
  refine sound_bind (h := fun _ => sound_bind (h := fun _ => ?_))
  split <;> infer_instance

instance sound_namedTail : Sound (namedTail self) := by
  unfold namedTail
  infer_instance

instance sound_classExpression : Sound (classExpression self) := by
  unfold classExpression
  infer_instance

instance sound_parenthesized : Sound (parenthesized self) := by
  unfold parenthesized
  infer_instance

instance sound_primary : Sound (primary self) := by
  unfold primary
  refine sound_of_token fun c => ?_
  generalize htoken : c.token = t
  split
  case h_1 => exact ⟨_, sound_takeNumber _, (takeNumber_eq_take htoken).symm⟩
  all_goals exact ⟨_, inferInstance, rfl⟩

instance sound_property? : Sound (property? self) := by
  unfold property?
  refine sound_bind (h := fun _ => ?_)
  split <;> infer_instance

instance sound_endsInstantiation : Sound endsInstantiation := by
  unfold endsInstantiation
  refine sound_bind (h := fun _ => sound_ite _ (h := sound_bind (h := fun _ => ?_)))
  split <;> infer_instance

instance sound_callArguments : Sound (callArguments self) := by
  unfold callArguments
  infer_instance

instance argues_callArguments : Argues (callArguments self) := by
  unfold callArguments
  infer_instance

instance sound_callOrProperty? : Sound (callOrProperty? self) := by
  unfold callOrProperty?
  refine sound_bind (h := fun _ => sound_ite _ (h := sound_bind (h := fun _ => ?_)))
  split <;> try infer_instance
  refine sound_bind (h := fun _ => ?_)
  split <;> infer_instance

instance sound_construction : Sound (constructedRule.construction self) := by
  unfold constructedRule.construction
  infer_instance

instance sound_constructedRule : Sound (constructedRule self) := by
  unfold constructedRule
  infer_instance

instance sound_leftHandRule : Sound (leftHandRule self) := by
  unfold leftHandRule
  infer_instance

instance sound_unaryRule (dialect : Dialect) : Sound (unaryRule self dialect) := by
  unfold unaryRule
  refine sound_bind (h := fun _ => sound_bind (g := sound_bind (h := fun _ => ?_)))
  split <;> infer_instance

lemma length_pos_of_markLevel {s : String} {level : Nat} (h : markLevel s = some level) :
    0 < s.length := by
  refine Nat.pos_of_ne_zero fun hlength => ?_
  rw [String.length_eq_zero_iff.1 hlength] at h
  cases h

/-- An operator is looked for without moving on; it has characters and is a mark or a word. -/
lemma operator?_eq_some {allowIn : Bool} {c c' : Cursor} {op? : Option Operator}
    (h : operator? allowIn c = some (op?, c')) : c' = c ∧
      ∀ op ∈ op?, op.kind.isFree = true ∧ 0 < op.chars ∧ c.token ≠ .stop := by
  obtain ⟨_, _, hget, h⟩ := bind_eq_some h
  cases hget
  revert h
  generalize htoken : c.token = token
  generalize c.front = front
  generalize c.atLineStart = starts
  intro h
  split at h
  · split at h
    all_goals cases h; simp
  · next s _ =>
    cases h
    refine ⟨rfl, fun op hop => ?_⟩
    obtain ⟨level, hlevel, rfl⟩ := Option.map_eq_some_iff.1 hop
    exact ⟨rfl, length_pos_of_markLevel hlevel, by simp⟩
  · cases h
    cases allowIn <;> simp
  · cases h
    simp
  · cases h
    cases starts <;> simp
  · cases h
    cases starts <;> simp
  · cases h
    simp

instance sound_operator? (allowIn : Bool) : Sound (operator? allowIn) :=
  sound_of_looks fun h => (operator?_eq_some h).1

/-- An operator behind an operand, and the operand behind it. -/
def operation (allowIn : Bool) (level : Nat) : Reader Bool := do
  match ← operator? allowIn with
  | none => return false
  | some op =>
    if op.level < level then return false
    if op.isCast then
      wrap .plain .cast do
        takeChars .plain op.kind op.chars
        self (.type true)
    else
      wrap .plain .other do
        takeChars .plain op.kind op.chars
        self (.binary allowIn (if op.fromRight then op.level else op.level + 1))
    return true

omit [Proper self] in
lemma binaryRule_eq (allowIn : Bool) (level : Nat) : binaryRule self allowIn level = (do
    self .unary
    repeatWhile (operation self allowIn level)) := rfl

instance sound_operation (allowIn : Bool) (level : Nat) : Sound (operation self allowIn level) := by
  unfold operation
  refine sound_bind_of fun {c c' op?} hread => ?_
  split
  · infer_instance
  · next op =>
    have hfree : Holds op.kind.isFree := ⟨((operator?_eq_some hread).2 op rfl).1⟩
    infer_instance

instance sound_binaryRule (allowIn : Bool) (level : Nat) :
    Sound (binaryRule self allowIn level) := by
  rw [binaryRule_eq]
  infer_instance

instance sound_assigning? : Sound assigning? := by
  unfold assigning?
  refine sound_bind (h := fun _ => ?_)
  split <;> infer_instance

instance sound_choice (allowIn arrowTypes : Bool) : Sound (choice self allowIn arrowTypes) := by
  unfold choice
  infer_instance

/-- What is assigned to a value, if something is. -/
instance sound_assigned (allowIn arrowTypes : Bool) : Sound (do
    match ← assigning? with
    | some n =>
      wrap .plain .other do
        takeChars .plain .symbol n
        self (.assignment allowIn arrowTypes)
    | none => pure ()) := by
  refine sound_bind (h := fun _ => ?_)
  split <;> infer_instance

instance sound_assignmentRule (allowIn arrowTypes : Bool) :
    Sound (assignmentRule self allowIn arrowTypes) := by
  unfold assignmentRule
  infer_instance

instance sound_expressionRule (allowIn : Bool) : Sound (expressionRule self allowIn) := by
  unfold expressionRule
  infer_instance

/-! ## Markup -/

instance sound_markupName : Sound markupName := by
  unfold markupName
  refine sound_node (h := sound_bind (h := fun _ => sound_repeatWhile (h := sound_bind
    (h := fun _ => ?_))))
  split <;> infer_instance

instance sound_markupInsertion : Sound (markupInsertion self) := by
  unfold markupInsertion
  infer_instance

instance sound_markupString : Sound markupString := by
  unfold markupString
  refine sound_bind (h := fun _ => ?_)
  split <;> infer_instance

instance sound_markupAttribute : Sound (markupAttribute self) := by
  unfold markupAttribute
  refine sound_bind (h := fun _ => sound_ite _ (h := sound_node (h := sound_bind (h := fun _ =>
    sound_bind (h := fun _ => sound_ite _ (g := sound_bind (h := fun _ => ?_)))))))
  split <;> infer_instance

instance sound_markupRule : Sound (markupRule self) := by
  unfold markupRule
  have hinside : Sound (repeatWhile do
      takeRaw .plain .other fun cs => cs.span fun c => !(['<', '\x7b'].contains c)
      match ← token, (← second).1 with
      | .symbol "<", .symbol "/" => return false
      | .symbol "<", _ => self .markup; return true
      | .symbol "\x7b", _ => markupInsertion self; return true
      | _, _ => failure) := by
    refine sound_repeatWhile (h := sound_bind (h := fun _ => sound_bind (h := fun _ => sound_bind
      (h := fun _ => ?_))))
    split <;> infer_instance
  infer_instance

/-! ## What values consist of -/

instance fills_regex : Fills regex := by
  unfold regex
  refine fills_bind (h := fun _ => ?_)
  repeat' split
  all_goals infer_instance

instance fills_templateOf {inside : Reader Unit} : Fills (templateOf inside) :=
  fills_node_of rfl _

instance fills_parenthesized : Fills (parenthesized self) :=
  fills_node

instance fills_array : Fills (array self) :=
  fills_node

instance fills_object : Fills (object self) :=
  fills_node

instance fills_functionExpression : Fills (functionExpression self) :=
  fills_node

instance fills_arrowFunction (allowIn arrowTypes : Bool) :
    Fills (arrowFunction self allowIn arrowTypes) :=
  fills_node

instance fills_classExpression : Fills (classExpression self) :=
  fills_node

instance fills_nameOf (r : Role) (kind : Kind) [Holds kind.isLoose] : Fills (nameOf r kind) := by
  unfold nameOf
  refine fills_bind (h := fun _ => ?_)
  split <;> infer_instance

instance fills_primary : Fills (primary self) := by
  unfold primary
  refine fills_bind (h := fun _ => ?_)
  split <;> infer_instance

instance fills_construction : Fills (constructedRule.construction self) := by
  unfold constructedRule.construction
  infer_instance

instance fills_leftHandRule : Fills (leftHandRule self) := by
  unfold leftHandRule
  infer_instance

instance fills_unaryRule (dialect : Dialect) : Fills (unaryRule self dialect) := by
  unfold unaryRule
  refine fills_bind (h := fun _ => fills_bind (g := sound_bind (h := fun _ => ?_)))
  split <;> infer_instance

instance fills_binaryRule (allowIn : Bool) (level : Nat) : Fills (binaryRule self allowIn level) := by
  rw [binaryRule_eq]
  infer_instance

instance fills_assignmentRule (allowIn arrowTypes : Bool) :
    Fills (assignmentRule self allowIn arrowTypes) := by
  unfold assignmentRule
  refine fills_bind (h := fun _ => fills_ite _ (h := fills_bind (h := fun _ => fills_ite _
    (g := fills_attempt (k := ?_)))))
  all_goals infer_instance

instance fills_markupRule : Fills (markupRule self) := by
  unfold markupRule
  infer_instance

end Reader

end StoreBindings.Syntax
