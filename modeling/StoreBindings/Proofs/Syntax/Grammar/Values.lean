import StoreBindings.Proofs.Syntax.Grammar.Expressions

/-!
# Expressions lay values

What begins with a name, a bracket, a quote or a word lays a part where no number stands. Operands
lay numbers (`values_primary`), and the operators in front of them lay signs together with what is
behind them (`valuesAt_sign`). All that may follow only widens what was laid: arguments and
properties, operators, and assignments (`values_assignmentRule`).
-/

namespace StoreBindings.Syntax

namespace Reader

-- the instance of a reader is as large as the reader
set_option synthInstance.maxSize 100000

variable (self : Grammar) [Proper self]

/-! ## What stands behind a value -/

instance takes_typeArguments : Takes (typeArguments self) := by
  unfold typeArguments
  infer_instance

instance takes_templateOf {inside : Reader Unit} [Sound inside] : Takes (templateOf inside) := by
  rw [templateOf_eq]
  infer_instance

instance takes_argumentsRule : Takes (argumentsRule self) := by
  rw [argumentsRule_eq]
  infer_instance

instance takes_callArguments : Takes (callArguments self) := by
  unfold callArguments
  infer_instance

instance looks_endsInstantiation : Looks endsInstantiation := by
  unfold endsInstantiation
  refine looks_bind (h := fun _ => looks_ite _ (h := looks_bind (h := fun _ => ?_)))
  split <;> infer_instance

instance widens_property? : Widens (property? self) := by
  unfold property?
  refine widens_bind (h := fun _ => ?_)
  split <;> infer_instance

instance widens_callOrProperty? : Widens (callOrProperty? self) := by
  unfold callOrProperty?
  refine widens_bind (h := fun _ => widens_ite _ (h := widens_bind (h := fun _ => ?_)))
  split <;> try infer_instance
  refine widens_bind (h := fun _ => ?_)
  split <;> infer_instance

instance widens_choice (allowIn arrowTypes : Bool) : Widens (choice self allowIn arrowTypes) := by
  unfold choice
  infer_instance

/-- The next characters, of which there are some. -/
def takeSome (r : Role) (k : Kind) (n : Nat) : Reader Unit := do
  guard ((← token) ≠ .stop)
  takeChars r k n

lemma takeSome_eq {c : Cursor} (h : c.token ≠ .stop) (r : Role) (k : Kind) (n : Nat) :
    takeSome r k n c = takeChars r k n c := by
  have hguard : takeSome r k n c = (do guard (c.token ≠ .stop); takeChars r k n : Reader Unit) c := rfl
  rw [hguard, guard, if_pos h]
  rfl

instance sound_takeSome (r : Role) (k : Kind) (n : Nat) [Holds r.isFree] [Holds k.isFree] :
    Sound (takeSome r k n) := by
  unfold takeSome
  infer_instance

lemma takes_takeSome (r : Role) (k : Kind) {n : Nat} (hn : 0 < n) : Takes (takeSome r k n) where
  takes {c _ _} hc hread := by
    obtain ⟨_, _, htoken, hread⟩ := bind_eq_some hread
    cases htoken
    obtain ⟨_, _, hguard, htake⟩ := bind_eq_some hread
    obtain ⟨hstop, rfl⟩ := guard_eq_some hguard
    cases htake
    exact takes_leaf _ _ _ (hc.shows_take hstop hn) _

/-- An operator or mark that comes next, and what is behind it, go on with what is before it. -/
lemma widens_takeChars {c c' : Cursor} {u : Unit} {kind k : Kind} {n : Nat} {p : Reader Unit}
    [Sound p] {t : Tree} {outside : List Tree} (hk : k.isFree = true) (hn : 0 < n)
    (hstop : c.token ≠ .stop) (hc : c.Good)
    (hread : wrap .plain kind (do takeChars .plain k n; p) c = some (u, c'))
    (hdone : c.done = t :: outside) : ∃ t', c'.done = t' :: outside ∧ t.Extends t' := by
  have hfree : Holds k.isFree := ⟨hk⟩
  have htakes : Takes (takeSome .plain k n) := takes_takeSome _ _ hn
  have hwidens : Widens (wrap .plain kind (do takeSome .plain k n; p)) := inferInstance
  refine hwidens.widens hc (Eq.trans ?_ hread) hdone
  exact wrap_congr fun done => bind_congr_left (takeSome_eq (c := { c with done }) hstop ..) _

instance widens_operation (allowIn : Bool) (level : Nat) :
    Widens (operation self allowIn level) where
  widens {c c' a t outside} hc hread hdone := by
    obtain ⟨op?, c₁, hoperator, hread⟩ := bind_eq_some hread
    obtain ⟨hc₁, hop⟩ := operator?_eq_some hoperator
    obtain rfl := hc₁.symm
    cases op? with
    | none =>
      cases hread
      exact ⟨t, hdone, .inl rfl⟩
    | some op =>
      obtain ⟨hkind, hchars, hstop⟩ := hop op rfl
      dsimp only at hread
      split at hread
      · cases hread
        exact ⟨t, hdone, .inl rfl⟩
      · split at hread
        all_goals
          obtain ⟨_, c₂, hwrap, hread⟩ := bind_eq_some hread
          cases hread
          exact widens_takeChars hkind hchars hstop hc hwrap hdone

/-- A mark that assigns is looked for without moving on, and it has characters. -/
lemma assigning?_eq_some {c c' : Cursor} {n? : Option Nat}
    (h : assigning? c = some (n?, c')) : c' = c ∧ ∀ n ∈ n?, 0 < n ∧ c.token ≠ .stop := by
  obtain ⟨_, _, hget, h⟩ := bind_eq_some h
  cases hget
  revert h
  generalize htoken : c.token = token
  generalize c.front = front
  intro h
  split at h
  · cases h
    simp
  · cases h
    simp
  · next s _ _ =>
    cases h
    refine ⟨rfl, fun n hn => ⟨?_, by simp⟩⟩
    split at hn
    · next hmark =>
      cases hn
      refine Nat.pos_of_ne_zero fun hlength => ?_
      rw [String.length_eq_zero_iff.1 hlength] at hmark
      exact absurd hmark (by decide)
    · cases hn
  · cases h
    simp

instance widens_assigned (allowIn arrowTypes : Bool) : Widens (do
    match ← assigning? with
    | some n =>
      wrap .plain .other do
        takeChars .plain .symbol n
        self (.assignment allowIn arrowTypes)
    | none => pure ()) where
  widens {c c' a t outside} hc hread hdone := by
    obtain ⟨n?, c₁, hassigning, hread⟩ := bind_eq_some hread
    obtain ⟨hc₁, hn⟩ := assigning?_eq_some hassigning
    obtain rfl := hc₁.symm
    cases n? with
    | none =>
      cases hread
      exact ⟨t, hdone, .inl rfl⟩
    | some n =>
      obtain ⟨hchars, hstop⟩ := hn n rfl
      exact widens_takeChars rfl hchars hstop hc hread hdone

/-- A mark behind a value that is counted up or down. -/
def counting : Reader Unit := do
  if ((← isSymbol "++") || (← isSymbol "--")) && !(← atLineStart) then
    wrap .plain .other (take .plain .symbol)

instance sound_counting : Sound counting := by
  unfold counting
  infer_instance

instance widens_counting : Widens counting where
  widens {c c' a t outside} hc hread hdone := by
    have hmark {s : String} (hs : c.token = .symbol s)
        (hwrap : wrap .plain .other (take .plain .symbol) c = some (a, c')) :
        ∃ t', c'.done = t' :: outside ∧ t.Extends t' := by
      have hwidens : Widens (wrap .plain .other (symbol s)) := inferInstance
      refine hwidens.widens hc (Eq.trans ?_ hwrap) hdone
      exact wrap_congr fun done => symbol_eq_take (c := { c with done }) hs
    obtain ⟨_, _, hup, hread⟩ := bind_eq_some hread
    cases hup
    obtain ⟨_, _, hdown, hread⟩ := bind_eq_some hread
    cases hdown
    obtain ⟨_, _, hstart, hread⟩ := bind_eq_some hread
    cases hstart
    split at hread
    · next h =>
      obtain ⟨h, -⟩ := Bool.and_eq_true _ _ ▸ h
      rcases Bool.or_eq_true _ _ ▸ h with h | h
      · exact hmark (eq_of_beq h) hread
      · exact hmark (eq_of_beq h) hread
    · cases hread
      exact ⟨t, hdone, .inl rfl⟩

/-! ## Where a value begins -/

instance laysOne_nameOf (r : Role) (kind : Kind) : LaysOne (nameOf r kind) :=
  laysOne_of_lays (lays_nameOf r kind)

instance laysOne_markup : LaysOne (self .markup) := laysOne_of_lays Proper.markup

instance laysOne_regex : LaysOne regex := by
  unfold regex
  refine laysOne_bind (h := fun _ => ?_)
  repeat' split
  all_goals infer_instance

instance laysOne_parenthesized : LaysOne (parenthesized self) := laysOne_node ..

instance laysOne_array : LaysOne (array self) := laysOne_node ..

instance laysOne_object : LaysOne (object self) := laysOne_node ..

instance laysOne_templateOf (inside : Reader Unit) : LaysOne (templateOf inside) := laysOne_node ..

instance laysOne_functionExpression : LaysOne (functionExpression self) := laysOne_node ..

instance laysOne_classExpression : LaysOne (classExpression self) := laysOne_node ..

instance laysOne_arrowFunction (allowIn arrowTypes : Bool) :
    LaysOne (arrowFunction self allowIn arrowTypes) := laysOne_node ..

instance laysOne_construction : LaysOne (constructedRule.construction self) := laysOne_nodeBy _

instance laysOne_primary : LaysOne (primary self) := by
  unfold primary
  refine laysOne_bind (h := fun _ => ?_)
  split <;> infer_instance

instance values_primary : Values (primary self) where
  values {c} hc c' hread := by
    by_cases hnumber : c.token = .number
    · obtain ⟨_, _, htoken, htake⟩ := bind_eq_some hread
      cases htoken
      rw [hnumber] at htake
      refine ⟨c, .leaf .plain .number c.chars, hc, Sound.leads hc hread, ?_, fun t ht => ?_, fun _ => rfl⟩
      · cases htake
        rfl
      · rcases token_of_numeralAt hc ht with ⟨-, rfl⟩ | ⟨s, -, hsign, -⟩
        · exact .inl rfl
        · rw [hnumber] at hsign
          cases hsign
    · -- no operand begins with a sign
      have hsign {s : String} (hs : s = "+" ∨ s = "-") : c.token ≠ .symbol s := by
        intro hsymbol
        obtain ⟨_, _, htoken, hread⟩ := bind_eq_some hread
        cases htoken
        rw [hsymbol] at hread
        rcases hs with rfl | rfl <;> cases hread
      exact valuesAt_of_laysOne hc (not_numeralAt hc hnumber (hsign (.inl rfl)) (hsign (.inr rfl)))
        hread

/-- Where no remark stands none is taken. -/
lemma takeRemarks_eq_self {c c' : Cursor} {u : Unit} (h : remark? c.front = none)
    (hread : takeRemarks c = some (u, c')) : c' = c := by
  obtain ⟨_, _, hget, hloop⟩ := bind_eq_some hread
  cases hget
  obtain ⟨b, c₁, hstep, hrest⟩ := bind_eq_some hloop
  obtain ⟨_, _, hget, hstep⟩ := bind_eq_some hstep
  cases hget
  rw [h] at hstep
  cases hstep
  cases hrest
  rfl

instance values_remarks {f : Unit → Reader Unit} [h : ∀ u, Values (f u)] :
    Values (takeRemarks >>= f) where
  values {c} hc c' hread := by
    obtain ⟨_, c₁, hremarks, hf⟩ := bind_eq_some hread
    obtain ⟨c₀, v, hc₀, hleads, hdone, hbegins, hremark⟩ :=
      (h _).values (Sound.good hc hremarks) hf
    refine ⟨c₀, v, hc₀, hleads, hdone, hbegins, fun hnone => ?_⟩
    obtain rfl := takeRemarks_eq_self hnone hremarks
    exact hremark hnone

lemma not_numeralAt_of_word {c : Cursor} (hc : c.Good) {w : String} (h : c.token = .word w) :
    ∀ t, ¬NumeralAt c.front t :=
  not_numeralAt hc (by simp [h]) (by simp [h]) (by simp [h])

instance values_leftHandRule : Values (leftHandRule self) := by
  unfold leftHandRule
  refine values_remarks (h := fun _ => ⟨fun {c} hc c' hread => ?_⟩)
  obtain ⟨_, _, hnew, hread⟩ := bind_eq_some hread
  cases hnew
  split at hread
  · next hnew =>
    have hvalues : ValuesAt (constructedRule.construction self) c :=
      valuesAt_of_laysOne hc (not_numeralAt_of_word hc (eq_of_beq hnew))
    exact valuesAt_bind hc hvalues hread
  · exact valuesAt_bind hc (Values.values hc) hread

/-! ## Operators -/

/-- Whether an operator stands before an operand here. -/
def isOperator : Reader Bool := do
  match ← token with
  | .symbol s => return unaryMarks.contains s
  | .word "await" => return beginsOperand (← second).1
  | .word w => return unaryWords.contains w
  | _ => return false

omit [Proper self] in
lemma unaryRule_eq (dialect : Dialect) : unaryRule self dialect = (do
    takeRemarks
    if ← isOperator then
      node .other do
        take .plain .keyword
        self .unary
    else if dialect == .plain && (← isSymbol "<") then
      node .other do
        typeArguments self
        self .unary
    else
      self .leftHand
      counting) := rfl

instance looks_isOperator : Looks isOperator := by
  unfold isOperator
  refine looks_bind (h := fun _ => ?_)
  split <;> infer_instance

/-- A number is no operator. -/
lemma isOperator_of_number {c c' : Cursor} {b : Bool} (h : c.token = .number)
    (hread : isOperator c = some (b, c')) : b = false := by
  obtain ⟨_, _, htoken, hread⟩ := bind_eq_some hread
  cases htoken
  rw [h] at hread
  cases hread
  rfl

/-- Where no blanks follow a token, what is behind it comes next when it is taken. -/
lemma behind_of_take {r : Role} {k : Kind} {c c' : Cursor} {u : Unit}
    (hread : take r k c = some (u, c')) (hblank : blank? c.rest = none) :
    c'.front = c.rest ∧ c'.doneWithBlanks = .leaf r k c.chars :: c.doneWithBlanks := by
  have hskip := skipBlanks_of_blank? hblank c.rest.length
  cases hread
  have hblanks : (Cursor.before (.leaf r k c.chars :: c.doneWithBlanks) c.rest).blanks = [] :=
    congrArg Prod.fst hskip
  refine ⟨by rw [Cursor.front_before, hskip], ?_⟩
  rw [Cursor.doneWithBlanks, hblanks]
  rfl

/-- Behind a sign right in front of a number nothing stands before the number. -/
theorem valuesAt_sign {p : Reader Unit} [Sound p] [h : Values p] {c : Cursor} (hc : c.Good)
    (hnumber : c.token ≠ .number) :
    ValuesAt (node .other (do take .plain .keyword; p)) c := by
  intro c' hread
  have hleads := Sound.leads hc hread
  obtain ⟨_, c₂, hp, rfl⟩ := nodeBy_eq_some hread
  obtain ⟨_, _, hp, hpure⟩ := bind_eq_some hp
  cases hpure
  obtain ⟨_, c₁, htake, hoperand⟩ := bind_eq_some hp
  have hgood := Sound.good (good_opened hc) htake
  refine ⟨c, _, hc, hleads, rfl, fun t ht => ?_, fun _ => rfl⟩
  -- no number begins here, so a numeral at this place begins with the sign
  rcases token_of_numeralAt hc ht with ⟨htoken, -⟩ | ⟨s, -, -, hchars, hstarts, rfl⟩
  · exact absurd htoken hnumber
  obtain ⟨hblank, hremark⟩ := nothing_before_number hstarts
  obtain ⟨hfront, hlaid⟩ : c₁.front = c.rest ∧
      c₁.doneWithBlanks = [.leaf .plain .keyword c.chars] := behind_of_take htake hblank
  obtain ⟨c₀, v, -, -, hdone, hbegins, hstays⟩ := h.values hgood hoperand
  obtain rfl := hstays (hfront.symm ▸ hremark)
  have hparts : c₂.done.reverse = [.leaf .plain .keyword [s], v] := by
    rw [hdone, hlaid, hchars]
    rfl
  rw [hfront] at hbegins
  rw [hparts]
  rcases hbegins _ (.number hstarts) with rfl | ⟨more, hshows, hmore⟩
  · exact .inl rfl
  · exact .inr ⟨more, hshows, by simp [Tree.chars, Tree.charsOfAll, hmore]⟩

instance values_unaryRule (dialect : Dialect) : Values (unaryRule self dialect) := by
  rw [unaryRule_eq]
  refine values_remarks (h := fun _ => ⟨fun {c} hc c' hread => ?_⟩)
  obtain ⟨b, c₁, hoperator, hread⟩ := bind_eq_some hread
  obtain rfl := (Looks.looks hoperator).symm
  cases b with
  | true =>
    refine valuesAt_sign hc (fun hnumber => ?_) hread
    cases isOperator_of_number hnumber hoperator
  | false =>
    obtain ⟨_, _, hangle, hread⟩ := bind_eq_some hread
    cases hangle
    split at hread
    · next hangle =>
      have htoken : c.token = .symbol "<" := eq_of_beq (Bool.and_eq_true _ _ ▸ hangle).2
      refine valuesAt_of_laysOne hc (not_numeralAt hc ?_ ?_ ?_) hread <;> simp [htoken]
    · exact valuesAt_bind hc (Values.values hc) hread

instance values_binaryRule (allowIn : Bool) (level : Nat) :
    Values (binaryRule self allowIn level) := by
  rw [binaryRule_eq]
  infer_instance

/-- An expression that is no arrow function, and what is assigned to it. -/
def assigned (allowIn arrowTypes : Bool) : Reader Unit := do
  self (.binary allowIn 0)
  if ← isSymbol "?" then choice self allowIn arrowTypes
  match ← assigning? with
  | some n =>
    wrap .plain .other do
      takeChars .plain .symbol n
      self (.assignment allowIn arrowTypes)
  | none => pure ()

omit [Proper self] in
lemma assignmentRule_eq (allowIn arrowTypes : Bool) : assignmentRule self allowIn arrowTypes = (do
    if ← isWord "yield" then
      node .other do
        keyword "yield"
        discard (symbol? "*")
        if !(← atLineStart) && beginsOperand (← token) then
          self (.assignment allowIn arrowTypes)
      return
    if ← mayBeArrow then
      if ← attempt (arrowFunction self allowIn arrowTypes) then return
    assigned self allowIn arrowTypes) := rfl

instance values_assigned (allowIn arrowTypes : Bool) :
    Values (assigned self allowIn arrowTypes) := by
  unfold assigned
  infer_instance

instance looks_mayBeArrow : Looks mayBeArrow := by
  unfold mayBeArrow
  refine looks_bind (h := fun _ => looks_bind (h := fun _ => ?_))
  split <;> infer_instance

/-- No numeral stands where an arrow function could begin. -/
lemma not_numeralAt_of_mayBeArrow {c c' : Cursor} (hc : c.Good)
    (hread : mayBeArrow c = some (true, c')) : ∀ t, ¬NumeralAt c.front t := by
  obtain ⟨_, _, htoken, hread⟩ := bind_eq_some hread
  cases htoken
  obtain ⟨following, _, -, hread⟩ := bind_eq_some hread
  refine not_numeralAt hc (fun h => ?_) (fun h => ?_) (fun h => ?_)
  all_goals
    rw [h] at hread
    cases hread

instance values_assignmentRule (allowIn arrowTypes : Bool) :
    Values (assignmentRule self allowIn arrowTypes) := by
  rw [assignmentRule_eq]
  refine ⟨fun {c} hc c' hread => ?_⟩
  obtain ⟨_, _, hyield, hread⟩ := bind_eq_some hread
  cases hyield
  split at hread
  · next hyield =>
    obtain ⟨_, c₁, hnode, hpure⟩ := bind_eq_some hread
    cases hpure
    exact valuesAt_of_laysOne hc (not_numeralAt_of_word hc (eq_of_beq hyield)) hnode
  · obtain ⟨b, c₁, hmay, hread⟩ := bind_eq_some hread
    obtain rfl := (Looks.looks hmay).symm
    cases b with
    | false => exact (values_assigned self allowIn arrowTypes).values hc hread
    | true =>
      obtain ⟨_, c₂, hattempt, hread⟩ := bind_eq_some hread
      unfold attempt at hattempt
      split at hattempt
      · next harrow =>
        cases hattempt
        cases hread
        exact valuesAt_of_laysOne hc (not_numeralAt_of_mayBeArrow hc hmay) harrow
      · cases hattempt
        exact (values_assigned self allowIn arrowTypes).values hc hread

end Reader

end StoreBindings.Syntax
