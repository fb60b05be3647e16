import StoreBindings.Proofs.Syntax.Values

/-!
# The grammar is read soundly: what all rules share

A rule is read by readers that read other rules, so whether it is read soundly is asked of a grammar
that does so for the rules it names (`Proper`). One instance for each reader, in the order in which
the readers are defined, then says that it is sound. There is an argument in one of them only where
a member, a call, its arguments or a template is put together, since these are the nodes that
`Tree.Fits` says something about, or where the reader looks at what comes next to go on.
-/

namespace StoreBindings.Syntax

/-- The rules for what has a value, apart from expressions joined by commas. -/
@[reducible] def Rule.isValue : Rule → Bool
  | .assignment .. | .binary .. | .unary | .leftHand | .markup => true
  | _ => false

/-- The rules for values that may be numbers. -/
@[reducible] def Rule.isExpression : Rule → Bool
  | .assignment .. | .binary .. | .unary | .leftHand => true
  | _ => false

namespace Reader

-- the instance of a reader is as large as the reader
set_option synthInstance.maxSize 100000

/-- A grammar whose rules are read soundly. -/
class Proper (self : Grammar) : Prop where
  sound : ∀ r, Sound (self r)
  fills : ∀ r, r.isValue = true → Fills (self r)
  values : ∀ r, r.isExpression = true → Values (self r)
  arguments : Lays (·.IsNode .arguments) (self .arguments)
  takes : Takes (self .arguments)
  markup : Lays (·.IsNode .other) (self .markup)
  binding : Lays Tree.IsTelling (self .binding)

instance sound_rule (self : Grammar) [Proper self] (r : Rule) : Sound (self r) := Proper.sound r

instance fills_rule (self : Grammar) [Proper self] (r : Rule) [k : Holds r.isValue] :
    Fills (self r) := Proper.fills r k.holds

instance values_rule (self : Grammar) [Proper self] (r : Rule) [k : Holds r.isExpression] :
    Values (self r) := Proper.values r k.holds

instance takes_arguments (self : Grammar) [Proper self] : Takes (self .arguments) := Proper.takes

variable (self : Grammar) [Proper self]

/-! ## Names and marks -/

instance sound_nameOf (r : Role) (kind : Kind) [Holds r.isNamed] [Holds kind.isFree] :
    Sound (nameOf r kind) := by
  unfold nameOf
  refine sound_of_token fun c => ?_
  cases htoken : c.token with
  | word w =>
    exact ⟨do guard (!reserved.contains w); anyWord r kind, inferInstance,
      guard_bind_congr (anyWord_eq_take htoken).symm⟩
  | _ => exact ⟨failure, inferInstance, rfl⟩

omit [Proper self] in
/-- A name lays a leaf that tells something. -/
lemma lays_nameOf (r : Role) (kind : Kind) : Lays Tree.IsTelling (nameOf r kind) := by
  refine lays_of_token fun c => ?_
  cases htoken : c.token with
  | word w =>
    refine ⟨do guard (!reserved.contains w); anyWord r kind, fun {c c'} hc hread => ?_,
      guard_bind_congr (anyWord_eq_take htoken).symm⟩
    obtain ⟨_, _, hguard, hword⟩ := bind_eq_some hread
    obtain ⟨-, rfl⟩ := guard_eq_some hguard
    exact lays_anyWord r kind hc hword
  | _ => exact ⟨failure, lays_failure, rfl⟩

/-- A given word that is taken for a name. -/
instance sound_ifWord {α : Type} (w : String) (r : Role) (kind : Kind) {f : Unit → Reader α}
    {q : Reader α} [Holds r.isNamed] [Holds kind.isFree] [∀ u, Sound (f u)] [Sound q] :
    Sound (isWord w >>= fun b => if b = true then take r kind >>= f else q) := by
  refine sound_of_apply fun c => ?_
  have hstep : (isWord w >>= fun b => if b = true then take r kind >>= f else q) c =
      (if (c.token == .word w) = true then take r kind >>= f else q) c := rfl
  by_cases htoken : (c.token == .word w) = true
  · refine ⟨anyWord r kind >>= f, inferInstance, ?_⟩
    rw [hstep, if_pos htoken]
    exact (bind_congr_left (anyWord_eq_take (eq_of_beq htoken)) f).symm
  · refine ⟨q, inferInstance, ?_⟩
    rw [hstep, if_neg htoken]

instance sound_atAngle : Sound atAngle := by
  unfold atAngle
  infer_instance

instance sound_openAngle : Sound openAngle := by
  unfold openAngle
  infer_instance

instance sound_oneExpression : Sound (oneExpression self) :=
  inferInstanceAs (Sound (self _))

instance fills_oneExpression : Fills (oneExpression self) :=
  inferInstanceAs (Fills (self (.assignment true true)))

instance values_oneExpression : Values (oneExpression self) :=
  inferInstanceAs (Values (self (.assignment true true)))

instance sound_typeClause : Sound (typeClause self) := by
  unfold typeClause
  infer_instance

instance sound_typeClause? : Sound (typeClause? self) := by
  unfold typeClause?
  infer_instance

instance sound_initializer? : Sound (initializer? self) := by
  unfold initializer?
  infer_instance

instance sound_typeArguments : Sound (typeArguments self) := by
  unfold typeArguments
  infer_instance

instance sound_typeParameters : Sound (typeParameters self) := by
  unfold typeParameters
  refine sound_node (h := sound_bind (h := fun _ => sound_listUntil _ _ (h := sound_node
    (h := sound_bind (g := sound_repeatWhile (h := sound_bind (h := fun _ =>
      sound_bind (h := fun _ => ?_))))))))
  split <;> infer_instance

instance sound_typeParameters? : Sound (typeParameters? self) := by
  unfold typeParameters?
  infer_instance

instance sound_callSignature : Sound (callSignature self) := by
  unfold callSignature
  infer_instance

instance sound_propertyName (r : Role) [Holds r.isFree] : Sound (propertyName self r) := by
  unfold propertyName
  refine sound_of_token fun c => ?_
  generalize htoken : c.token = t
  split
  case h_4 => exact ⟨_, sound_takeNumber r, (takeNumber_eq_take htoken).symm⟩
  all_goals exact ⟨_, inferInstance, rfl⟩

omit [Proper self] in
/-- The name of a property is laid in its role. -/
lemma lays_propertyName (r : Role) : Lays (fun t => t.role = r) (propertyName self r) := by
  refine lays_token fun _ => ?_
  split
  case h_5 =>
    intro c c' hc hread
    obtain ⟨t, hdone, t', -, rfl⟩ := lays_inRole r (lays_isNode _ _) hc hread
    exact ⟨_, hdone, Tree.role_withRole r t'⟩
  case h_6 =>
    intro c c' _ hread
    cases hread
  all_goals exact lays_take r _

instance sound_decorators : Sound (decorators self) := by
  unfold decorators
  infer_instance

/-! ## Parts between marks -/

/-- What has been read behind an opening mark: something that counts, or nothing but white space,
comments and commas. -/
def Opens (opening : String) (c : Cursor) : Prop :=
  c.Counts ∨ ∃ inside, c.done.reverse = .mark opening :: inside ∧
    ∀ t ∈ inside, t.IsGap ∨ t = .mark ","

/-- What is read between two marks is enclosed by them, if each step says what it adds. -/
lemma enclosed_of_opens {opening closing : String} {p : Reader Bool} [Sound p]
    (hstep : ∀ {c c' : Cursor} {b : Bool}, c.Good → Opens opening c → p c = some (b, c') →
      Opens opening c') {c c' : Cursor} (hc : c.Good) (hdone : c.doneWithBlanks = [])
    (hread : (do symbol opening; repeatWhile p; symbol closing) c = some ((), c')) :
    Tree.Enclosed opening closing c'.done.reverse := by
  obtain ⟨_, c₁, hopen, hrest⟩ := bind_eq_some hread
  obtain ⟨_, c₂, hinside, hclose⟩ := bind_eq_some hrest
  have hc₁ := Sound.good hc hopen
  have hc₂ := Sound.good hc₁ hinside
  obtain ⟨_, hdone₁, rfl⟩ := lays_symbol opening hc hopen
  obtain ⟨_, hdone', rfl⟩ := lays_symbol closing hc₂ hclose
  rw [hdone] at hdone₁
  have hopens : Opens opening c₁ := .inr ⟨[], by rw [hdone₁]; rfl, by simp⟩
  rcases repeatWhile_keeps hstep hc₁ hopens hinside with ⟨t, ht, hcounts⟩ | ⟨inside, hinside, hgaps⟩
  · refine .inl ⟨t, ?_, hcounts⟩
    simp [hdone', Cursor.doneWithBlanks, ht]
  · refine .inr ⟨inside ++ c₂.blanks, ?_, fun t ht => ?_⟩
    · simp [hdone', Cursor.doneWithBlanks, hinside]
    · rcases List.mem_append.1 ht with ht | ht
      · exact hgaps t ht
      · exact .inl (hc₂.blanks t ht)

/-! ## Templates -/

/-- The text of a template is cut in two. -/
lemma templateText_append (escaped : Bool) (cs : List Char) :
    (templateOf.templateText escaped cs).1 ++ (templateOf.templateText escaped cs).2 = cs := by
  fun_induction templateOf.templateText escaped cs <;> simp_all

instance cuts_templateText (escaped : Bool) : Cuts (templateOf.templateText escaped) :=
  ⟨templateText_append escaped⟩

/-- An insertion in a template, if one begins the text ahead. -/
def insertion (inside : Reader Unit) : List Char → Reader Bool
  | '$' :: '\x7b' :: _ => do
    node .other do
      takeChars .plain .symbol 2
      inside
      symbol "\x7d"
    return true
  | _ => return false

/-- A stretch of the text of a template, and the insertion behind it. -/
def stretch (inside : Reader Unit) : Reader Bool := do
  takeRaw .plain .other (templateOf.templateText false)
  let c ← get
  insertion inside c.ahead

/-- A template is stretches between two backquotes. -/
lemma templateOf_eq (inside : Reader Unit) : templateOf inside = node .template (do
    symbol "\x60"
    repeatWhile (stretch inside)
    symbol "\x60") := rfl

instance sound_insertion {inside : Reader Unit} [Sound inside] (ahead : List Char) :
    Sound (insertion inside ahead) := by
  unfold insertion
  split <;> infer_instance

instance sound_stretch {inside : Reader Unit} [Sound inside] : Sound (stretch inside) := by
  unfold stretch
  infer_instance

/-- Text that is taken as it is counts as something inside. -/
lemma opens_takeRaw {opening : String} {split : List Char → List Char × List Char}
    {c c' : Cursor} {u : Unit} (h : Opens opening c)
    (hread : takeRaw .plain .other split c = some (u, c')) : Opens opening c' := by
  cases hread
  dsimp only
  by_cases hempty : (split c.ahead).1.isEmpty = true
  · rwa [if_pos hempty]
  · rw [if_neg hempty]
    exact .inl ⟨_, List.mem_cons_self, rfl⟩

/-- So does a stretch of a template. -/
lemma opens_stretch {opening : String} {inside : Reader Unit} [Sound inside] {c c' : Cursor}
    {b : Bool} (hc : c.Good) (h : Opens opening c)
    (hread : stretch inside c = some (b, c')) : Opens opening c' := by
  obtain ⟨_, c₁, htext, hrest⟩ := bind_eq_some hread
  obtain ⟨_, _, hget, hinsertion⟩ := bind_eq_some hrest
  cases hget
  revert hinsertion
  fun_cases insertion inside c₁.ahead with
  | case1 =>
    intro hinsertion
    obtain ⟨_, c₂, hnode, hrest⟩ := bind_eq_some hinsertion
    cases hrest
    exact .inl (Fills.counts (Sound.good hc htext) hnode)
  | case2 =>
    intro hinsertion
    cases hinsertion
    exact opens_takeRaw h htext

instance sound_templateOf {inside : Reader Unit} [Sound inside] : Sound (templateOf inside) := by
  rw [templateOf_eq]
  refine sound_nodeBy_of fun hc hdone hread => ?_
  obtain ⟨_, _, hp, hpure⟩ := bind_eq_some hread
  cases hpure
  exact ⟨rfl, enclosed_of_opens opens_stretch hc hdone hp⟩

/-! ## Parameters and patterns -/

instance sound_bindingRule : Sound (bindingRule self) := by
  unfold bindingRule
  refine sound_bind (h := fun _ => ?_)
  split <;> infer_instance

/-- What is bound has a telling character. -/
lemma lays_bindingRule : Lays Tree.IsTelling (bindingRule self) := by
  refine lays_of_token fun c => ?_
  generalize htoken : c.token = t
  split
  · split
    · exact ⟨anyWord .plain .other, lays_anyWord _ _, (anyWord_eq_take htoken).symm⟩
    · exact ⟨_, lays_nameOf _ _, rfl⟩
  · exact ⟨_, lays_telling_mark rfl (by decide), rfl⟩
  · exact ⟨_, lays_telling_mark rfl (by decide), rfl⟩
  · exact ⟨failure, lays_failure, rfl⟩

instance gives_binding : Gives .pattern (self .binding) := gives_of_lays rfl Proper.binding

instance gives_rest : Gives .pattern (node .other (do symbol "..."; self .binding)) :=
  gives_of_lays rfl (lays_telling_node Proper.binding)

instance sound_parameter : Sound (parameter self) := by
  unfold parameter
  refine sound_nodeBy (g := sound_bind (h := fun _ => sound_bind (g := sound_repeatWhile
    (h := sound_bind (h := fun _ => sound_bind (h := fun _ => ?_))))))
  split <;> infer_instance

instance sound_parametersRule : Sound (parametersRule self) := by
  unfold parametersRule
  infer_instance

/-! ## Properties and calls -/

/-- An angle bracket is laid as a mark. -/
lemma lays_openAngle : Lays (fun t => t = .mark "<") openAngle := by
  intro c c' hc hread
  obtain ⟨_, _, hone, hread⟩ := bind_eq_some hread
  cases hone
  obtain ⟨_, _, htwo, hread⟩ := bind_eq_some hread
  cases htwo
  obtain ⟨_, _, hguard, htake⟩ := bind_eq_some hread
  obtain ⟨htoken, rfl⟩ := guard_eq_some hguard
  cases htake
  refine ⟨_, rfl, ?_⟩
  -- of a mark that goes on behind the angle bracket only the bracket is taken
  rcases Bool.or_eq_true _ _ ▸ htoken with htoken | htoken <;>
    simp [Tree.mark, Cursor.front, hc.chars (eq_of_beq htoken)]

omit [Proper self] in
/-- A point and a name behind it are what a property is made of. -/
lemma fits_member {c c' : Cursor} {first : Tree} {s : String} (hs : s = "." ∨ s = "?.")
    (hc : c.Good) (hrole : first.role = .object) (hdone : c.done = [first])
    (hread : (do symbol s; propertyName self .property) c = some ((), c')) :
    Tree.Fits .member c'.done.reverse := by
  obtain ⟨_, c₁, hpoint, hname⟩ := bind_eq_some hread
  obtain ⟨_, hpoint', rfl⟩ := lays_symbol s hc hpoint
  have hc₁ := Sound.good hc hpoint
  obtain ⟨name, hname', hproperty⟩ := lays_propertyName self .property hc₁ hname
  refine ⟨first, c.blanks, s, c₁.blanks, name, ?_, hrole, hproperty, hs, hc.blanks, hc₁.blanks⟩
  rw [hname', Cursor.doneWithBlanks, hpoint', Cursor.doneWithBlanks, hdone]
  simp

instance sound_property : Sound (wrap .object .member (do symbol "."; propertyName self .property)) :=
  sound_wrap_of rfl rfl (fits_member self (.inl rfl))

instance sound_optionalProperty :
    Sound (wrap .object .member (do symbol "?."; propertyName self .property)) :=
  sound_wrap_of rfl rfl (fits_member self (.inr rfl))

/-- A reader that lays only what can stand between a function and its arguments. -/
class Fences {α : Type} (p : Reader α) : Prop where
  fences : ∀ {c c' : Cursor} {a : α}, c.Good → p c = some (a, c') →
    ∃ ts, c'.done = ts ++ c.done ∧ ∀ t ∈ ts, t.IsBetween

instance fences_isSymbol (s : String) : Fences (isSymbol s) where
  fences _ hread := by
    cases hread
    exact ⟨[], rfl, by simp⟩

instance fences_atAngle : Fences atAngle where
  fences _ hread := by
    cases hread
    exact ⟨[], rfl, by simp⟩

/-- A part that can stand between a function and its arguments, with the blanks before it. -/
lemma fences_of_lays {P : Tree → Prop} {p : Reader Unit} (h : Lays P p)
    (hP : ∀ t, P t → t.IsBetween) : Fences p where
  fences {c _ _} hc hread := by
    obtain ⟨t, hdone, ht⟩ := h hc hread
    refine ⟨t :: c.blanks.reverse, hdone, fun t' ht' => ?_⟩
    rcases List.mem_cons.1 ht' with rfl | ht'
    · exact hP t' ht
    · exact .inl (hc.blanks t' (List.mem_reverse.1 ht'))

instance fences_optional : Fences (symbol "?.") :=
  fences_of_lays (lays_symbol "?.") fun _ h => .inr (.inl h)

instance fences_typeArguments : Fences (typeArguments self) :=
  fences_of_lays (lays_node fun hc hdone hread => head?_of_lays lays_openAngle hc hdone hread rfl)
    fun _ h => .inr (.inr h)

/-- A reader that lays the arguments of a function last, behind what can stand before them. -/
class Argues (p : Reader Unit) : Prop where
  argues : ∀ {c c' : Cursor}, c.Good → p c = some ((), c') →
    ∃ kind inside ts, c'.done = .node .arguments kind inside :: (ts ++ c.done) ∧
      (kind = .arguments ∨ kind = .template) ∧ ∀ t ∈ ts, t.IsBetween

/-- Arguments are what a reader of lists or of templates lays in their role. -/
lemma argues_of_lays {kind : Kind} {p : Reader Unit} (hkind : kind = .arguments ∨ kind = .template)
    (h : Lays (·.IsNode kind) p) : Argues (inRole .arguments p) where
  argues {c _} hc hread := by
    obtain ⟨_, hdone, _, ⟨parts, rfl⟩, rfl⟩ := lays_inRole .arguments h hc hread
    exact ⟨kind, parts, c.blanks.reverse, hdone, hkind,
      fun t ht => .inl (hc.blanks t (List.mem_reverse.1 ht))⟩

instance argues_arguments : Argues (inRole .arguments (self .arguments)) :=
  argues_of_lays (.inl rfl) Proper.arguments

instance argues_template {inside : Reader Unit} : Argues (inRole .arguments (templateOf inside)) :=
  argues_of_lays (.inr rfl) (lays_isNode _ _)

instance argues_bind {α : Type} {p : Reader α} {f : α → Reader Unit} [Sound p] [g : Fences p]
    [h : ∀ a, Argues (f a)] : Argues (p >>= f) where
  argues hc hread := by
    obtain ⟨a, c₁, hp, hf⟩ := bind_eq_some hread
    obtain ⟨ts, hdone, hts⟩ := g.fences hc hp
    obtain ⟨kind, inside, ts', hdone', hkind, hts'⟩ := (h a).argues (Sound.good hc hp) hf
    refine ⟨kind, inside, ts' ++ ts, by rw [hdone', hdone, List.append_assoc], hkind, ?_⟩
    intro t ht
    rcases List.mem_append.1 ht with ht | ht
    · exact hts' t ht
    · exact hts t ht

instance argues_ite (b : Prop) [Decidable b] {p q : Reader Unit} [g : Argues p] [h : Argues q] :
    Argues (if b then p else q) := by
  split <;> assumption

/-- A call of what stands before. -/
instance sound_call {p : Reader Unit} [Sound p] [h : Argues p] : Sound (wrap .function .call p) := by
  refine sound_wrap_of rfl rfl fun {c c' first} hc hrole hdone hread => ?_
  obtain ⟨kind, inside, ts, hdone', hkind, hts⟩ := h.argues hc hread
  refine ⟨first, ts.reverse, kind, inside, ?_, hrole, hkind, fun t ht => hts t (List.mem_reverse.1 ht)⟩
  rw [hdone', hdone]
  simp

end Reader

end StoreBindings.Syntax
