import StoreBindings.Proofs.Syntax.Shell
import StoreBindings.Proofs.Syntax.Spans

/-!
# What a source shows to others

The interface of a declaration is its outline without places, and without what only its own class or
function has to know. The interfaces of the declarations of a source can be read off the shell of its
tree: `TopLevel.map_interface_ofRoot_shell`.
-/

namespace StoreBindings.Syntax

open StoreBindings.Syntax.Tree (shell shellPart quotes hides)

/-! ## Interfaces -/

/-- A name, unless it is computed. -/
def MemberName.outward : MemberName → MemberName
  | .computed _ => .computed ""
  | name => name

/-- A member without its place, and without what its class alone has to know: what it is given if it
is not `vueBinding`, what it returns if it is not the getter of `state`, and a computed name if it is
no setter. -/
def Member.interface (m : Member) : Member :=
  { m with
    name := if m.accessor = some .setter then m.name else m.name.outward
    span := default
    literal := if m.identifier? = some "vueBinding" then m.literal else none
    returned :=
      if m.identifier? = some "state" ∧ m.accessor = some .getter then m.returned else none }

def BodyPart.interface : BodyPart → BodyPart
  | .member m => .member m.interface
  | p => p

def ClassDeclaration.interface (c : ClassDeclaration) : ClassDeclaration :=
  { c with span := default, body := c.body.map BodyPart.interface }

def Declaration.interface : Declaration → Declaration
  | .classes c => .classes c.interface
  | d => d

def TopLevel.interface (d : TopLevel) : TopLevel := { d with declaration := d.declaration.interface }

/-- A computed name is no identifier, whatever is computed. -/
@[simp] lemma MemberName.identifier?_outward (n : MemberName) :
    n.outward.identifier? = n.identifier? := by
  cases n <;> rfl

/-- Members keep the identifiers that they are known by. -/
@[simp] lemma Member.identifier?_interface (m : Member) :
    m.interface.identifier? = m.identifier? := by
  unfold Member.interface Member.identifier?
  dsimp only
  split
  · rfl
  · exact m.name.identifier?_outward

section

variable (m : Member)

@[simp] lemma Member.kind_interface : m.interface.kind = m.kind := rfl
@[simp] lemma Member.isStatic_interface : m.interface.isStatic = m.isStatic := rfl
@[simp] lemma Member.access_interface : m.interface.access = m.access := rfl
@[simp] lemma Member.accessor_interface : m.interface.accessor = m.accessor := rfl

end

/-- Decorators wait for the same members in the interfaces of the parts. -/
lemma BodyPart.membersFrom_interface (waiting : List Decorator) (ps : List BodyPart) :
    membersFrom waiting (ps.map interface) = (membersFrom waiting ps).map Member.interface := by
  fun_induction membersFrom waiting ps with
  | case1 => rfl
  | case2 _ _ _ ih | case3 _ _ ih | case4 _ _ ih => exact ih
  | case5 waiting m ps ih =>
    rw [List.map_cons, interface, membersFrom, ih]
    rfl

/-- The members of an interface are the interfaces of the members. -/
lemma ClassDeclaration.members_interface (c : ClassDeclaration) :
    c.interface.members = c.members.map Member.interface :=
  BodyPart.membersFrom_interface [] c.body

/-! ## Nodes and their trees -/

namespace Node

/-- Placing trees behind one another leaves them as they are. -/
lemma map_tree_placed (start : Nat) (ts : List Tree) : (placed start ts).map tree = ts := by
  induction ts generalizing start with
  | nil => rfl
  | cons t ts ih => rw [placed, List.map_cons, ih]

/-- The parts of a node are those of its tree, placed. -/
lemma map_tree_parts (n : Node) : n.parts.map tree = n.tree.parts := map_tree_placed _ _

/-- The children of a node are those of its tree, placed. -/
lemma map_tree_children (n : Node) : n.children.map tree = n.tree.children := by
  rw [Tree.children, ← map_tree_parts, List.filter_map]
  rfl

/-- The part of a node in a role is that of its tree, placed. -/
lemma map_tree_part? (n : Node) (r : Role) : (n.part? r).map tree = n.tree.part? r := by
  rw [Tree.part?, ← map_tree_parts, List.find?_map]
  rfl

end Node

/-! ## Members -/

section

variable {t p : Tree}

/-- A name is known to others by what the shell of a tree keeps of it. -/
lemma outward_ofTree_shellPart (h : hides t p = false) :
    (MemberName.ofTree (shellPart quotes t p)).outward = (MemberName.ofTree p).outward := by
  unfold MemberName.ofTree
  rw [Tree.kind_shellPart h]
  split
  · next hkind => rw [Tree.shellPart_of_token h (by simp [hkind, Kind.isToken])]
  · next hkind => rw [Tree.shellPart_of_token h (by simp [hkind, Kind.isToken])]
  · rfl

/-- The name of a member, as far as others have to know it. -/
lemma outward_name_shell (t : Tree) :
    ((((shell quotes t).part? .name).map MemberName.ofTree).getD (.computed "")).outward =
      (((t.part? .name).map MemberName.ofTree).getD (.computed "")).outward := by
  rw [Tree.part?_shell]
  cases hname : t.part? .name with
  | none => rfl
  | some p =>
    have hrole := Tree.role_of_part? hname
    exact outward_ofTree_shellPart (Tree.hides_of_role (by simp [hrole]) (by simp [hrole]))

/-- The name of a member is no content. -/
lemma memberName?_shell (t : Tree) : (shell quotes t).memberName? = t.memberName? := by
  unfold Tree.memberName?
  rw [← MemberName.identifier?_outward, outward_name_shell, MemberName.identifier?_outward]

/-- A name that is quoted is that of the shell. -/
lemma part?_name_shell (h : ∀ p, p.role = .name → quotes t p = true) :
    (shell quotes t).part? .name = t.part? .name := by
  rw [Tree.part?_shell]
  cases hname : t.part? .name with
  | none => rfl
  | some p =>
    have hrole := Tree.role_of_part? hname
    exact congrArg some (Tree.shellPart_of_quoted
      (Tree.hides_of_role (by simp [hrole]) (by simp [hrole])) (h p hrole))

/-- Decorators are quoted whole in a shell. -/
lemma decorators_shell (t : Tree) :
    ((shell quotes t).children.filter fun p => p.kind == .decorator).map Decorator.ofTree =
      (t.children.filter fun p => p.kind == .decorator).map Decorator.ofTree := by
  rw [Tree.filter_kind_children_shell (by decide), List.map_map]
  refine List.map_congr_left fun p hp => ?_
  rw [Function.comp_apply, Tree.shellPart_of_decorator (by simpa using (List.mem_filter.1 hp).2)]

/-- The text that a member is given is not hidden if the member is `vueBinding`. -/
lemma literal_shell (hkind : t.kind = .method ∨ t.kind = .field)
    (hname : t.memberName? = some "vueBinding") :
    (((shell quotes t).part? .value).bind fun v =>
      if v.kind = .string then some (String.ofList (unquoted v.chars)) else none) =
      (t.part? .value).bind fun v =>
        if v.kind = .string then some (String.ofList (unquoted v.chars)) else none := by
  rw [Tree.part?_shell]
  cases hvalue : t.part? .value with
  | none => rfl
  | some v =>
    have hrole := Tree.role_of_part? hvalue
    refine Tree.string_shellPart ?_
    rcases hkind with hkind | hkind <;> simp [hides, hkind, hrole, hname]

/-- What the getter of the state returns is not hidden. -/
lemma returned_shell (hkind : t.kind = .method) (hget : t.hasKeyword "get" = true)
    (hname : t.memberName? = some "state") :
    ((shell quotes t).part? .body).bind returnedKeys? = (t.part? .body).bind returnedKeys? := by
  rw [Tree.part?_shell]
  cases t.part? .body with
  | none => rfl
  | some b =>
    exact Tree.read_shellPart (Tree.returnedKeys?_shell b) (by simp [hides, hkind, hget, hname])

/-- Only a method can be a getter or a setter, and then a keyword says so. -/
lemma Member.of_accessor_ofNode {kind : MemberKind} {n : Node} {accessor : Accessor}
    (h : (Member.ofNode kind n).accessor = some accessor) : kind = .method ∧
      n.tree.hasKeyword (match accessor with | .getter => "get" | .setter => "set") = true := by
  unfold Member.ofNode at h
  dsimp only at h
  split at h
  · cases h
  · next hmethod =>
    refine ⟨by simpa using hmethod, ?_⟩
    split at h
    · next hget =>
      cases h
      exact hget
    · split at h
      · next hset =>
        cases h
        exact hset
      · cases h

/-- The interface of a member can be read off the shell of its tree, wherever it stands. -/
lemma Member.interface_ofNode_shell {kind : MemberKind}
    (h : t.kind = .method ∧ kind = .method ∨ t.kind = .field ∧ kind = .field) (start start' : Nat) :
    (Member.ofNode kind ⟨start, shell quotes t⟩).interface =
      (Member.ofNode kind ⟨start', t⟩).interface := by
  let m := Member.ofNode kind ⟨start', t⟩
  let m' := Member.ofNode kind ⟨start, shell quotes t⟩
  have hmethod : kind = .method → t.kind = .method := fun hkind => by
    rcases h with h | h
    · exact h.1
    · rw [h.2] at hkind
      cases hkind
  have haccessor : m'.accessor = m.accessor := by
    simp only [m, m', Member.ofNode, Tree.hasKeyword_shell]
  have hid : m'.identifier? = m.identifier? := memberName?_shell t
  -- the three parts that an interface has under a condition: the condition is why they are not hidden
  have hname : (if m.accessor = some .setter then m'.name else m'.name.outward) =
      if m.accessor = some .setter then m.name else m.name.outward := by
    split
    · next hsetter =>
      obtain ⟨hkind, hset⟩ := Member.of_accessor_ofNode hsetter
      have hpart : (shell quotes t).part? .name = t.part? .name :=
        part?_name_shell fun p hrole => by simp [quotes, hrole, hmethod hkind, hset]
      simp only [m, m', Member.ofNode, hpart]
    · exact outward_name_shell t
  have hliteral : (if m.identifier? = some "vueBinding" then m'.literal else none) =
      if m.identifier? = some "vueBinding" then m.literal else none := by
    split
    · next hname => exact literal_shell (h.imp And.left And.left) hname
    · rfl
  have hreturned : (if m.identifier? = some "state" ∧ m.accessor = some .getter then m'.returned
      else none) =
      if m.identifier? = some "state" ∧ m.accessor = some .getter then m.returned else none := by
    split
    · next hstate =>
      obtain ⟨hkind, hget⟩ := Member.of_accessor_ofNode hstate.2
      exact returned_shell (hmethod hkind) hget hstate.1
    · rfl
  -- the other parts are quoted
  have haccess : m'.access = m.access := by
    have hpart : (shell quotes t).part? .accessibility = t.part? .accessibility :=
      Tree.part?_shell_of_quoted (by simp)
    simp only [m, m', Member.ofNode, hpart]
  have hstatic : m'.isStatic = m.isStatic := Tree.hasKeyword_shell "static"
  have hdecorators : m'.decorators = m.decorators := decorators_shell t
  have hparameters : m'.parameters = m.parameters := by
    simp only [m, m', Member.ofNode, Tree.ofFunction_shell]
  show m'.interface = m.interface
  unfold Member.interface
  rw [haccessor, hid, hname, hliteral, hreturned]
  simp only [haccess, hstatic, hdecorators, hparameters, Member.mk.injEq, and_true]
  rfl

/-! ## Class bodies -/

/-- The interface of a part of a class body, wherever it stands. -/
def BodyPart.interfaceOf? (p : Tree) : Option BodyPart := (ofNode? ⟨0, p⟩).map interface

/-- The interface of a part does not depend on where it stands. -/
lemma BodyPart.map_interface_ofNode? (n : Node) :
    (ofNode? n).map interface = interfaceOf? n.tree := by
  obtain ⟨start, p⟩ := n
  simp only [interfaceOf?, ofNode?, Node.kind]
  split <;> rfl

/-- The interface of a part can be read off its shell. -/
lemma BodyPart.interfaceOf?_shellPart (b p : Tree) :
    interfaceOf? (shellPart quotes b p) = interfaceOf? p := by
  cases hhides : hides b p with
  | true =>
    -- what is hidden is another part of the class body, and stays one
    obtain ⟨hshell, hkind⟩ := Tree.kind_shellPart_of_hidden quotes hhides
    simp only [interfaceOf?, ofNode?, Node.kind, hshell]
    split <;> first | rfl | simp_all [Kind.isContent, Kind.counts]
  | false =>
    -- a decorator is recorded with its text, so its shell will not do
    by_cases hdecorator : p.kind = .decorator
    · rw [Tree.shellPart_of_decorator hdecorator]
    · refine Tree.read_shellPart ?_ hhides
      simp only [interfaceOf?, ofNode?, Node.kind, Tree.kind_shell]
      split
      · contradiction
      · rfl
      · next hkind =>
        exact congrArg (some ∘ BodyPart.member)
          (Member.interface_ofNode_shell (.inl ⟨hkind, rfl⟩) 0 0)
      · next hkind =>
        exact congrArg (some ∘ BodyPart.member)
          (Member.interface_ofNode_shell (.inr ⟨hkind, rfl⟩) 0 0)
      all_goals rfl

/-! ## Classes -/

namespace ClassDeclaration

/-- The names of the functions that a heritage names. -/
def factoriesOf (h : Tree) : List String :=
  (h.children.flatMap fun p => if p.kind = .extendsClause then p.children else [p]).filterMap factory?

/-- The interfaces of the parts of a class body. -/
def bodyOf (b : Tree) : List BodyPart := b.parts.filterMap BodyPart.interfaceOf?

/-- The names of the functions that an `extends` clause names. -/
def basesOf (p : Tree) : List String := p.children.filterMap factory?

/-- The functions that a heritage names are found child by child. -/
lemma factoriesOf_eq (h : Tree) : factoriesOf h =
    h.children.flatMap fun p => if p.kind = .extendsClause then basesOf p else (factory? p).toList := by
  unfold factoriesOf
  rw [List.filterMap_flatMap]
  congr 1
  funext p
  split
  · rfl
  · cases hp : factory? p <;> simp [hp]

/-- The functions that an `extends` clause names are in its shell. -/
lemma basesOf_shell {p : Tree} (hp : p.kind = .extendsClause) :
    basesOf (shell quotes p) = basesOf p := by
  simp only [basesOf, Tree.children_shell, List.filterMap_map]
  exact List.filterMap_congr fun c _ =>
    Tree.read_shellPart (Tree.factory?_shell c) (by simp [hides, hp])

/-- The functions that a heritage names are in its shell. -/
lemma factoriesOf_shell {h : Tree} (hkind : h.kind = .heritage) :
    factoriesOf (shell quotes h) = factoriesOf h := by
  rw [factoriesOf_eq, factoriesOf_eq, Tree.children_shell, List.flatMap_map]
  congr 1
  funext p
  have hfactory : factory? (shellPart quotes h p) = factory? p :=
    Tree.read_shellPart (Tree.factory?_shell p) (by simp [hides, hkind])
  exact Tree.ite_shellPart (g := fun p => (factory? p).toList) (by decide) basesOf_shell
    (congrArg Option.toList hfactory)

/-- The interface of a class is made of four parts of its tree, wherever it stands. -/
lemma interface_ofNode (n : Node) : (ofNode n).interface =
    ⟨((n.tree.part? .name).map Tree.text).getD "", default,
      (n.tree.children.filter fun p => p.kind == .heritage).flatMap factoriesOf,
      ((n.tree.part? .body).map bodyOf).getD []⟩ := by
  have hbody : ∀ b : Node, (b.parts.filterMap BodyPart.ofNode?).map BodyPart.interface =
      bodyOf b.tree := fun b => by
    rw [List.map_filterMap, bodyOf, ← Node.map_tree_parts, List.filterMap_map]
    exact List.filterMap_congr fun p _ => BodyPart.map_interface_ofNode? p
  unfold ofNode interface
  dsimp only
  rw [List.filterMap_flatMap, ← Node.map_tree_part? n .body]
  cases n.part? .body with
  | none => rfl
  | some b =>
    rw [Option.map_some, Option.map_some, Option.map_some, Option.getD_some, Option.getD_some, hbody]
    rfl

/-- The interface of a class can be read off the shell of its tree, wherever it stands. -/
lemma interface_ofNode_shell {t : Tree} (hkind : t.kind = .classDeclaration) (start start' : Nat) :
    (ofNode ⟨start, shell quotes t⟩).interface = (ofNode ⟨start', t⟩).interface := by
  -- what is hidden is inside the parts of a class and is not one of them
  have hkept : ∀ p, hides t p = false := fun p => by simp [hides, hkind]
  have hname : (shell quotes t).part? .name = t.part? .name :=
    part?_name_shell fun p hrole => by simp [quotes, hrole, hkind]
  have hfactories : ((shell quotes t).children.filter fun p => p.kind == .heritage).flatMap
      factoriesOf = (t.children.filter fun p => p.kind == .heritage).flatMap factoriesOf := by
    rw [Tree.filter_kind_children_shell (by decide), List.flatMap_map]
    refine List.flatMap_congr fun h hh => ?_
    have hheritage : h.kind = .heritage := by simpa using (List.mem_filter.1 hh).2
    exact Tree.read_shellPart (factoriesOf_shell hheritage) (hkept h)
  have hbodyOf : ∀ b : Tree, bodyOf (shell quotes b) = bodyOf b := fun b => by
    rw [bodyOf, Tree.parts_shell, List.filterMap_map]
    exact List.filterMap_congr fun p _ => BodyPart.interfaceOf?_shellPart b p
  have hbody : ((shell quotes t).part? .body).map bodyOf = (t.part? .body).map bodyOf := by
    rw [Tree.part?_shell]
    cases t.part? .body with
    | none => rfl
    | some b => exact congrArg some (Tree.read_shellPart (hbodyOf b) (hkept b))
  rw [interface_ofNode, interface_ofNode, hname, hfactories, hbody]

end ClassDeclaration

/-! ## Declarations -/

namespace Declaration

/-- The interface of a declaration, wherever it stands. -/
def interfaceOf? (p : Tree) : Option Declaration := (ofNode? ⟨0, p⟩).map interface

/-- The interface of a declaration does not depend on where it stands. -/
lemma map_interface_ofNode? (n : Node) : (ofNode? n).map interface = interfaceOf? n.tree := by
  obtain ⟨start, p⟩ := n
  simp only [interfaceOf?, ofNode?, Node.kind]
  split
  · simp only [Option.map_some, interface, ClassDeclaration.interface_ofNode]
  all_goals rfl

/-- What is known of a function is in its shell. -/
lemma functionOf_shell {t : Tree}
    (hkind : t.kind = .functionDeclaration ∨ t.kind = .functionSignature) (hasBody : Bool) :
    functionOf (shell quotes t) hasBody = functionOf t hasBody := by
  have hname : (shell quotes t).part? .name = t.part? .name :=
    part?_name_shell fun p hrole => by rcases hkind with h | h <;> simp [quotes, hrole, h]
  rw [functionOf, functionOf, hname, Tree.ofFunction_shell]

/-- What is known of variables that are declared together is in the shell of their declaration. -/
lemma groupOf_shell {t : Tree}
    (hkind : t.kind = .lexicalDeclaration ∨ t.kind = .variableDeclaration) (isLexical : Bool) :
    groupOf (shell quotes t) isLexical = groupOf t isLexical := by
  have hkept : ∀ p, hides t p = false := fun p => by rcases hkind with h | h <;> simp [hides, h]
  rw [groupOf, groupOf, Tree.hasKeyword_shell, Tree.filter_kind_children_shell (by decide),
    List.map_map]
  congr 1
  refine List.map_congr_left fun p hp => ?_
  have hdeclarator : p.kind = .declarator := by simpa using (List.mem_filter.1 hp).2
  exact Tree.read_shellPart (Tree.ofTree_shell hdeclarator) (hkept p)

/-- The interface of a declaration can be read off its shell. -/
lemma interfaceOf?_shellPart (t p : Tree) :
    interfaceOf? (shellPart quotes t p) = interfaceOf? p := by
  cases hhides : hides t p with
  | true =>
    -- what is hidden declares nothing, and neither does what is left of it
    obtain ⟨hshell, hkind⟩ := Tree.kind_shellPart_of_hidden quotes hhides
    simp only [interfaceOf?, ofNode?, Node.kind, hshell]
    split <;> first | rfl | simp_all [Kind.isContent]
  | false =>
    refine Tree.read_shellPart ?_ hhides
    simp only [interfaceOf?, ofNode?, Node.kind, Tree.kind_shell]
    split
    · next hkind =>
      exact congrArg (some ∘ Declaration.classes) (ClassDeclaration.interface_ofNode_shell hkind 0 0)
    · next hkind => rw [groupOf_shell (.inl hkind)]
    · next hkind => rw [groupOf_shell (.inr hkind)]
    · next hkind => rw [functionOf_shell (.inl hkind)]
    · next hkind => rw [functionOf_shell (.inr hkind)]
    · rfl

end Declaration

/-! ## Whole sources -/

namespace TopLevel

/-- The interfaces of what a tree declares, `declare` looked through. -/
def declaredIn (t : Tree) : List Declaration :=
  (if t.kind = .ambientDeclaration then t.children else [t]).filterMap Declaration.interfaceOf?

/-- The interfaces of what a statement declares, exported or not. -/
def interfacesOf (s : Tree) : List TopLevel :=
  (if s.kind = .exportStatement then ((s.part? .declaration).map declaredIn).getD []
  else declaredIn s).map (TopLevel.mk (s.kind = .exportStatement))

/-- What a node declares has the interfaces that its tree declares. -/
lemma filterMap_declared (n : Node) :
    ((declared n).filterMap Declaration.ofNode?).map Declaration.interface = declaredIn n.tree := by
  rw [List.map_filterMap, declaredIn]
  have hmap : (declared n).map Node.tree =
      if n.tree.kind = .ambientDeclaration then n.tree.children else [n.tree] := by
    unfold declared Node.kind
    split
    · exact n.map_tree_children
    · rfl
  rw [← hmap, List.filterMap_map]
  exact List.filterMap_congr fun p _ => Declaration.map_interface_ofNode? p

/-- The interfaces of the declarations of a source are those of its statements. -/
lemma map_interface_ofRoot (root : Node) :
    (ofRoot root).map interface = root.tree.children.flatMap interfacesOf := by
  rw [ofRoot_eq, List.map_flatMap, ← Node.map_tree_children, List.flatMap_map]
  congr 1
  funext s
  have hnodes : ((nodesOf s).filterMap Declaration.ofNode?).map Declaration.interface =
      if s.tree.kind = .exportStatement then ((s.tree.part? .declaration).map declaredIn).getD []
      else declaredIn s.tree := by
    unfold nodesOf Node.kind
    split
    · rw [← Node.map_tree_part?]
      cases s.part? .declaration with
      | none => rfl
      | some d => exact filterMap_declared d
    · exact filterMap_declared s
  rw [interfacesOf, ← hnodes, List.map_map, List.map_map]
  rfl

/-- The interfaces of all declarations in an ambient one. -/
def ambientIn (p : Tree) : List Declaration := p.children.filterMap Declaration.interfaceOf?

/-- The interfaces of what an exported statement declares. -/
def exportedIn (s : Tree) : List Declaration := ((s.part? .declaration).map declaredIn).getD []

/-- `declare` stands in front of several declarations, everything else is one. -/
lemma declaredIn_eq (t : Tree) : declaredIn t =
    if t.kind = .ambientDeclaration then ambientIn t else (Declaration.interfaceOf? t).toList := by
  unfold declaredIn
  split
  · rfl
  · cases ht : Declaration.interfaceOf? t <;> simp [ht]

/-- What an ambient declaration declares is in its shell. -/
lemma ambientIn_shell (p : Tree) : ambientIn (shell quotes p) = ambientIn p := by
  simp only [ambientIn, Tree.children_shell, List.filterMap_map]
  exact List.filterMap_congr fun c _ => Declaration.interfaceOf?_shellPart p c

/-- What a part declares is in its shell. -/
lemma declaredIn_shellPart (t p : Tree) : declaredIn (shellPart quotes t p) = declaredIn p := by
  rw [declaredIn_eq, declaredIn_eq]
  exact Tree.ite_shellPart (g := fun p => (Declaration.interfaceOf? p).toList) (by decide)
    (fun _ => ambientIn_shell p) (congrArg Option.toList (Declaration.interfaceOf?_shellPart t p))

/-- What a statement exports is in its shell. -/
lemma exportedIn_shell (s : Tree) : exportedIn (shell quotes s) = exportedIn s := by
  simp only [exportedIn, Tree.part?_shell]
  cases s.part? .declaration with
  | none => rfl
  | some d => exact declaredIn_shellPart s d

/-- A statement declares what it exports, or what it is. -/
lemma interfacesOf_eq (s : Tree) : interfacesOf s =
    (if s.kind = .exportStatement then exportedIn s else declaredIn s).map
      (TopLevel.mk (s.kind = .exportStatement)) := rfl

/-- What a statement declares is in its shell. -/
lemma interfacesOf_shellPart (t s : Tree) :
    interfacesOf (shellPart quotes t s) = interfacesOf s := by
  have hexport : (shellPart quotes t s).kind = .exportStatement ↔ s.kind = .exportStatement :=
    Tree.kind_shellPart_eq_iff (by decide)
  have hdeclared := Tree.ite_shellPart (t := t) (f := exportedIn) (g := declaredIn)
    (k := .exportStatement) (by decide) (fun _ => exportedIn_shell s) (declaredIn_shellPart t s)
  rw [interfacesOf_eq, interfacesOf_eq, hdeclared, decide_eq_decide.2 hexport]

/-- The interfaces of what a source declares can be read off the shell of its tree, wherever it
begins. -/
theorem map_interface_ofRoot_shell (t : Tree) (start start' : Nat) :
    (ofRoot ⟨start, shell quotes t⟩).map interface = (ofRoot ⟨start', t⟩).map interface := by
  rw [map_interface_ofRoot, map_interface_ofRoot, Tree.children_shell, List.flatMap_map]
  congr 1
  funext s
  exact interfacesOf_shellPart t s

end TopLevel

end

end StoreBindings.Syntax
