import StoreBindings.Proofs.Syntax.Grammar.Expressions
import StoreBindings.Syntax.Grammar.Statements

/-!
# Classes and statements are read soundly
-/

namespace StoreBindings.Syntax

namespace Reader

-- the instance of a reader is as large as the reader
set_option synthInstance.maxSize 100000

variable (self : Grammar) [Proper self]

/-! ## Classes -/

instance sound_modifiers : Sound modifiers := by
  unfold modifiers
  refine sound_bind (h := fun _ => sound_bind (g := sound_repeatWhile (h := sound_bind
    (h := fun _ => sound_bind (h := fun _ => ?_)))))
  split
  · next w _ =>
    have hfree : Holds (if accessWords.contains w then Role.accessibility else .plain).isFree := by
      split <;> infer_instance
    infer_instance
  · infer_instance

instance sound_method : Sound (method self) := by
  unfold method
  infer_instance

instance sound_endsField : Sound endsField := by
  unfold endsField
  infer_instance

instance sound_field : Sound (field self) := by
  unfold field
  infer_instance

instance sound_aSign : Sound indexSignature.aSign := by
  unfold indexSignature.aSign
  infer_instance

instance sound_indexSignature : Sound (indexSignature self) := by
  unfold indexSignature
  infer_instance

instance sound_classPart : Sound (classPart self) := by
  unfold classPart
  refine sound_bind (h := fun _ => sound_bind (h := fun _ => sound_ite _ (h := sound_bind (h := fun _ =>
    sound_ite _ (h := sound_bind (h := fun _ => sound_bind (h := fun _ => ?_)))))))
  split <;> infer_instance

instance sound_classBody : Sound (classBody self) := by
  unfold classBody
  infer_instance

instance sound_heritage : Sound (heritage self) := by
  unfold heritage
  infer_instance

instance sound_classTailRule : Sound (classTailRule self) := by
  unfold classTailRule
  infer_instance

instance sound_classDeclaration : Sound (classDeclaration self) := by
  unfold classDeclaration
  infer_instance

/-- A property of the name of a decorator. -/
def decoratorProperty : Reader Bool := do
  if ← isSymbol "." then
    wrap .object .member do
      symbol "."
      propertyName self .property
    return true
  else return false

/-- The arguments of a decorator. -/
def decoratorCall : Reader Unit :=
  wrap .function .call do
    if ← atAngle then typeArguments self
    inRole .arguments (self .arguments)

/-- What a decorator is. -/
def decoratorExpression : Reader Unit := do
  if ← isSymbol "(" then parenthesized self
  else
    anyWord .plain .identifier
    repeatWhile (decoratorProperty self)
    if (← isSymbol "(") || (← atAngle) then decoratorCall self

omit [Proper self] in
lemma decoratorRule_eq : decoratorRule self = node .decorator (do
    symbol "@"
    decoratorExpression self) := rfl

instance sound_decoratorProperty : Sound (decoratorProperty self) := by
  unfold decoratorProperty
  infer_instance

instance argues_decoratorCall : Argues (do
    if ← atAngle then typeArguments self
    inRole .arguments (self .arguments)) := by
  infer_instance

instance sound_decoratorCall : Sound (decoratorCall self) := by
  unfold decoratorCall
  infer_instance

instance sound_decoratorExpression : Sound (decoratorExpression self) := by
  unfold decoratorExpression
  infer_instance

/-- A call goes on with the name that is called. -/
lemma callsName_decoratorCall {c c' : Cursor} {t : Tree} {outside : List Tree} (hc : c.Good)
    (hdone : c.done = t :: outside) (ht : t.kind = .identifier ∨ t.kind = .member)
    (hread : decoratorCall self c = some ((), c')) :
    ∃ e, c'.done = e :: outside ∧ e.kind.counts = true ∧ e.CallsName := by
  obtain ⟨first, outside', c₁, hdone', hcall, rfl⟩ := wrap_eq_some hread
  obtain ⟨rfl, rfl⟩ := List.cons.inj (hdone.symm.trans hdone')
  obtain ⟨kind, inside, ts, hargued, -, -⟩ := Argues.argues (good_inside rfl hc hdone) hcall
  refine ⟨_, rfl, rfl, fun _ => ⟨t.withRole .function, ts.reverse ++ [.node .arguments kind inside],
    ?_, Tree.role_withRole _ _, ?_⟩⟩
  · show c₁.done.reverse = _
    rw [hargued]
    simp
  · rwa [Tree.kind_withRole]

omit [Proper self] in
/-- A property of a name is a name. -/
lemma names_decoratorProperty {c c' : Cursor} {b : Bool} {outside : List Tree}
    (hname : ∃ t, c.done = t :: outside ∧ (t.kind = .identifier ∨ t.kind = .member))
    (hread : decoratorProperty self c = some (b, c')) :
    ∃ t, c'.done = t :: outside ∧ (t.kind = .identifier ∨ t.kind = .member) := by
  obtain ⟨t, hdone, ht⟩ := hname
  obtain ⟨_, _, hpoint, hread⟩ := bind_eq_some hread
  cases hpoint
  split at hread
  · obtain ⟨_, c₁, hwrap, hread⟩ := bind_eq_some hread
    cases hread
    obtain ⟨first, outside', c₂, hdone', -, rfl⟩ := wrap_eq_some hwrap
    obtain ⟨rfl, rfl⟩ := List.cons.inj (hdone.symm.trans hdone')
    exact ⟨_, rfl, .inr rfl⟩
  · cases hread
    exact ⟨t, hdone, ht⟩

/-- A decorator is an expression in parentheses, a name, or a call of a name. -/
lemma lays_decoratorExpression :
    Lays (fun e => e.kind.counts = true ∧ e.CallsName) (decoratorExpression self) := by
  intro c c' hc hread
  obtain ⟨_, _, hopen, hread⟩ := bind_eq_some hread
  cases hopen
  split at hread
  · obtain ⟨e, hdone, parts, rfl⟩ := lays_isNode _ _ hc hread
    exact ⟨_, hdone, rfl, fun hcall => by cases hcall⟩
  · obtain ⟨_, c₁, hword, hread⟩ := bind_eq_some hread
    have hc₁ := Sound.good hc hword
    obtain ⟨_, c₂, hproperties, hread⟩ := bind_eq_some hread
    have hc₂ := Sound.good hc₁ hproperties
    have hname : ∃ t, c₂.done = t :: c.doneWithBlanks ∧
        (t.kind = .identifier ∨ t.kind = .member) := by
      -- each further property makes a member of what has been read
      refine repeatWhile_keeps (p := decoratorProperty self) (I := fun d =>
        ∃ t, d.done = t :: c.doneWithBlanks ∧ (t.kind = .identifier ∨ t.kind = .member))
        ?_ hc₁ ?_ hproperties
      · exact fun _ hname hstep => names_decoratorProperty self hname hstep
      · obtain ⟨-, htake⟩ := anyWord_eq_some hword
        cases htake
        exact ⟨_, rfl, .inl rfl⟩
    obtain ⟨t, hdone, ht⟩ := hname
    obtain ⟨_, _, hparenthesis, hread⟩ := bind_eq_some hread
    cases hparenthesis
    obtain ⟨_, _, hangle, hread⟩ := bind_eq_some hread
    obtain rfl := (Looks.looks hangle).symm
    split at hread
    · exact callsName_decoratorCall self hc₂ hdone ht hread
    · cases hread
      refine ⟨t, hdone, ?_, fun hcall => ?_⟩
      · rcases ht with ht | ht <;> rw [ht] <;> rfl
      · rcases ht with ht | ht <;> cases ht.symm.trans hcall

instance sound_decoratorRule : Sound (decoratorRule self) := by
  rw [decoratorRule_eq]
  refine sound_nodeBy_of fun {c c' kind} hc hdone hread => ?_
  obtain ⟨_, _, hp, hpure⟩ := bind_eq_some hread
  cases hpure
  obtain ⟨_, c₁, hmark, hexpression⟩ := bind_eq_some hp
  obtain ⟨_, hmarked, rfl⟩ := lays_symbol "@" hc hmark
  have hc₁ := Sound.good hc hmark
  obtain ⟨e, hlaid, hcounts, hcalls⟩ := lays_decoratorExpression self hc₁ hexpression
  refine ⟨rfl, c₁.blanks, e, ?_, hc₁.blanks, hcounts, hcalls⟩
  rw [hlaid, Cursor.doneWithBlanks, hmarked, hdone]
  simp

/-! ## Declarations -/

instance sound_functionDeclaration : Sound (functionDeclaration self) := by
  unfold functionDeclaration
  infer_instance

instance sound_declarator (allowIn : Bool) : Sound (declarator self allowIn) := by
  unfold declarator
  infer_instance

lemma isLoose_of_variableKind? {w : String} {kind : Kind} (h : variableKind? w = some kind) :
    kind.isLoose = true := by
  unfold variableKind? at h
  split at h <;> cases h <;> rfl

instance sound_variableList (inLoop : Bool) : Sound (variableList self inLoop) := by
  unfold variableList
  refine sound_bind (h := fun _ => ?_)
  split
  · next w =>
    split
    · next kind hkind =>
      have hloose : Holds kind.isLoose := ⟨isLoose_of_variableKind? hkind⟩
      infer_instance
    · infer_instance
  · infer_instance

instance sound_usingDeclaration (inLoop : Bool) : Sound (usingDeclaration self inLoop) := by
  unfold usingDeclaration
  infer_instance

instance sound_atVariables : Sound atVariables := by
  unfold atVariables
  refine sound_bind (h := fun _ => sound_bind (h := fun _ => ?_))
  repeat' split
  all_goals infer_instance

instance sound_enumeration : Sound (enumeration self) := by
  unfold enumeration
  infer_instance

instance sound_interfaceDeclaration : Sound (interfaceDeclaration self) := by
  unfold interfaceDeclaration
  infer_instance

instance sound_typeAlias : Sound (typeAlias self) := by
  unfold typeAlias
  infer_instance

instance sound_moduleDeclaration : Sound (moduleDeclaration self) := by
  unfold moduleDeclaration
  refine sound_node (h := sound_bind (h := fun _ => sound_ite _ (g := sound_bind (h := fun _ =>
    sound_bind (h := fun _ => ?_))) (h := sound_bind (h := fun _ => ?_))))
  all_goals split <;> infer_instance

instance sound_contextualDeclaration? : Sound (contextualDeclaration? self) := by
  unfold contextualDeclaration?
  refine sound_bind (h := fun _ => sound_bind (h := fun _ => ?_))
  split <;> infer_instance

instance sound_atAmbient : Sound atAmbient := by
  unfold atAmbient
  refine sound_bind (h := fun _ => sound_bind (h := fun _ => ?_))
  split <;> infer_instance

instance sound_ambientDeclaration : Sound (ambientDeclaration self) := by
  unfold ambientDeclaration
  infer_instance

instance sound_moduleAttributes : Sound (moduleAttributes self) := by
  unfold moduleAttributes
  infer_instance

instance sound_moduleNames : Sound moduleNames := by
  unfold moduleNames
  refine sound_node (h := sound_bind (h := fun _ => sound_listUntil _ _ (h := sound_node
    (h := sound_repeatWhile (h := sound_bind (h := fun _ => ?_))))))
  split <;> infer_instance

instance sound_aString : Sound aString := by
  unfold aString
  infer_instance

instance sound_importStatement : Sound (importStatement self) := by
  unfold importStatement
  refine sound_node (h := sound_bind (h := fun _ => sound_bind (h := fun _ => ?_)))
  repeat' first
    | infer_instance
    | split
    | refine sound_bind (h := fun _ => ?_)

instance sound_abstractClass : Sound (abstractClass self) := by
  unfold abstractClass
  infer_instance

instance sound_defaultDeclaration : Sound (defaultDeclaration self) := by
  unfold defaultDeclaration
  refine sound_bind (h := fun _ => sound_bind (h := fun _ => ?_))
  split <;> infer_instance

instance sound_fromModule : Sound (exportStatement.fromModule self) := by
  unfold exportStatement.fromModule
  infer_instance

instance sound_names : Sound (exportStatement.names self) := by
  unfold exportStatement.names
  infer_instance

instance sound_exportStatement : Sound (exportStatement self) := by
  unfold exportStatement
  refine sound_node (h := sound_bind (h := fun _ => sound_bind (h := fun _ => sound_bind
    (h := fun _ => sound_bind (h := fun _ => ?_)))))
  split <;> infer_instance

/-! ## Statements -/

instance sound_condition : Sound (condition self) := by
  unfold condition
  infer_instance

instance sound_ifStatement : Sound (ifStatement self) := by
  unfold ifStatement
  infer_instance

instance sound_loopStart : Sound (loopStart self) := by
  unfold loopStart
  infer_instance

instance sound_forStatement : Sound (forStatement self) := by
  unfold forStatement
  infer_instance

instance sound_doStatement : Sound (doStatement self) := by
  unfold doStatement
  infer_instance

instance sound_switchStatement : Sound (switchStatement self) := by
  unfold switchStatement
  infer_instance

instance sound_tryStatement : Sound (tryStatement self) := by
  unfold tryStatement
  infer_instance

instance sound_goesOn : Sound goesOn := by
  unfold goesOn
  infer_instance

instance sound_wordStatement (kind : Kind) [Holds kind.isLoose] (word : String) :
    Sound (wordStatement self kind word) := by
  unfold wordStatement
  infer_instance

instance sound_expressionStatement : Sound (expressionStatement self) := by
  unfold expressionStatement
  infer_instance

instance sound_decoratedStatement : Sound (decoratedStatement self) := by
  unfold decoratedStatement
  infer_instance

instance sound_statementRule : Sound (statementRule self) := by
  unfold statementRule
  refine sound_bind (h := fun _ => sound_bind (h := fun _ => ?_))
  split <;> try infer_instance
  refine sound_ite _ (h := sound_bind (h := fun _ => sound_ite _ (h := sound_bind (h := fun _ => ?_))))
  repeat' first
    | infer_instance
    | split

instance sound_statements : Sound (statements self) := by
  unfold statements
  infer_instance

instance sound_blockRule : Sound (blockRule self) := by
  unfold blockRule
  infer_instance

end Reader

end StoreBindings.Syntax
