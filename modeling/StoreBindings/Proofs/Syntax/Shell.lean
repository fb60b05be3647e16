import Mathlib.Data.List.Basic
import StoreBindings.Syntax.Outline

/-!
# The shell of a tree

What a declaration offers to others stands in its head. The shell of a tree is what is left when the
insides are taken out: the bodies of methods and functions, but for that of the getter of the state,
the values of fields, but for `vueBinding`, and the values, but not the keys, of object literals.

Some parts are quoted in what is generated, with all of their text, so nothing is taken out of them:
decorators, lists of parameters, and the names of setters.

* `Tree.shell` — the shell, given which parts are quoted.
* `Tree.read_shellPart` — what is asked of the parts of a tree is asked of the parts of its shell.
* `Tree.returnedKeys?_shell`, `Tree.ofFunction_shell`, `Tree.ofTree_shell` — the questions that the
  outline of a source asks of its trees have the same answer for the shell.
-/

namespace StoreBindings.Syntax

/-- Whether a part of this kind can be a body or a value: neither a declaration, a member, a
statement or a piece of one, nor what does not count. -/
def Kind.isContent : Kind → Bool
  | .decorator | .method | .field | .heritage | .extendsClause | .classDeclaration
  | .exportStatement | .ambientDeclaration | .lexicalDeclaration | .variableDeclaration
  | .declarator | .functionDeclaration | .functionSignature | .functionType | .returnStatement
  | .requiredParameter | .optionalParameter | .pair | .shorthandName => false
  | k => k.counts

/-- Whether a part of this kind is a single word or literal. -/
def Kind.isToken : Kind → Bool
  | .keyword | .identifier | .typeName | .propertyName | .privateName | .shorthandName | .number
  | .string => true
  | _ => false

/-- Contents count as children. -/
lemma Kind.counts_of_isContent {k : Kind} (h : k.isContent = true) : k.counts = true := by
  cases k <;> first | rfl | cases h

namespace Tree

/-- The name of a class member, if it is an identifier. -/
def memberName? (t : Tree) : Option String :=
  (((t.part? .name).map MemberName.ofTree).getD (.computed "")).identifier?

/-- Whether a part is inside what it is part of, and no matter of anybody else. -/
def hides (t p : Tree) : Bool :=
  p.kind.isContent &&
    match t.kind with
    -- the keys of the state are read off the body of its getter
    | .method => p.role == .body && !(t.hasKeyword "get" && t.memberName? == some "state")
    | .field => p.role == .value && t.memberName? != some "vueBinding"
    | .pair => p.role == .value
    | .functionDeclaration | .functionExpression | .arrowFunction => p.role == .body
    | _ => false

/-- Whether a part is recorded with all of its text. -/
def quotes (t p : Tree) : Bool :=
  p.kind.isToken || p.kind == .decorator ||
    match p.role with
    | .parameters | .parameter | .accessibility => true
    | .name =>
      match t.kind with
      | .classDeclaration | .functionDeclaration | .functionSignature => true
      | .method => t.hasKeyword "set"
      | _ => false
    | _ => false

/-- A role that is looked up in a tree is that of the part that is found. -/
lemma role_of_part? {t p : Tree} {r : Role} (h : t.part? r = some p) : p.role = r := by
  simpa using List.find?_some h

section

variable (quoted : Tree → Tree → Bool)

mutual

/-- A tree without what is hidden in its parts, as far as these are not quoted. -/
def shell : Tree → Tree
  | leaf r k cs => leaf r k cs
  | node r k ps => node r k (shells (node r k ps) ps)

/-- Parts of a tree as they are in its shell. -/
def shells (t : Tree) : List Tree → List Tree
  | [] => []
  | p :: ps =>
    (if hides t p then leaf p.role .other [] else if quoted t p then p else shell p) :: shells t ps

end

/-- A part of a tree as it is in the shell of the tree. -/
def shellPart (t p : Tree) : Tree :=
  if hides t p then leaf p.role .other [] else if quoted t p then p else shell quoted p

/-- The shells of the parts are taken part by part. -/
lemma shells_eq (t : Tree) (ps : List Tree) : shells quoted t ps = ps.map (shellPart quoted t) := by
  induction ps with
  | nil => rfl
  | cons p ps ih => rw [shells, ih, List.map_cons, shellPart]

/-- A shell has the role of its tree. -/
@[simp] lemma role_shell (t : Tree) : (shell quoted t).role = t.role := by
  cases t <;> simp [shell, role]

/-- A shell has the kind of its tree. -/
@[simp] lemma kind_shell (t : Tree) : (shell quoted t).kind = t.kind := by
  cases t <;> simp [shell, kind]

/-- The parts of a shell are the shells of the parts. -/
lemma parts_shell (t : Tree) : (shell quoted t).parts = t.parts.map (shellPart quoted t) := by
  cases t with
  | leaf r k cs => simp [shell, parts]
  | node r k ps => simp [shell, parts, shells_eq]

variable {quoted} {t p : Tree}

/-! ## Parts of a shell -/

/-- Only contents are hidden. -/
lemma hides_of_kind (h : p.kind.isContent = false) : hides t p = false := by simp [hides, h]

/-- Only a body and a value are hidden. -/
lemma hides_of_role (hbody : p.role ≠ .body) (hvalue : p.role ≠ .value) : hides t p = false := by
  unfold hides
  rw [Bool.and_eq_false_iff]
  right
  split <;> simp [hbody, hvalue]

/-- What a part that is not hidden answers to a question is what it answers in the shell, if it is
the same for the part and its own shell. -/
theorem read_shellPart {α : Type} {f : Tree → α} (hf : f (shell quoted p) = f p)
    (h : hides t p = false) : f (shellPart quoted t p) = f p := by
  unfold shellPart
  rw [h]
  cases quoted t p
  · exact hf
  · rfl

/-- A part that is quoted and not hidden stays as it is. -/
lemma shellPart_of_quoted (h : hides t p = false) (hquoted : quoted t p = true) :
    shellPart quoted t p = p := by
  simp [shellPart, h, hquoted]

/-- Hidden or not, a part keeps its role. -/
@[simp] lemma role_shellPart : (shellPart quoted t p).role = p.role := by
  unfold shellPart
  split
  · rfl
  · split <;> simp

/-- A part that is not hidden keeps its kind. -/
lemma kind_shellPart (h : hides t p = false) : (shellPart quoted t p).kind = p.kind :=
  read_shellPart (kind_shell _ p) h

/-- A hidden part is of the kind of nothing that is looked for. -/
lemma kind_shellPart_of_hidden (quoted : Tree → Tree → Bool) (h : hides t p = true) :
    (shellPart quoted t p).kind = .other ∧ p.kind.isContent = true := by
  refine ⟨by simp [shellPart, h, kind], ?_⟩
  unfold hides at h
  exact (Bool.and_eq_true_iff.1 h).1

/-- What is no content can be told by the shell. -/
lemma kind_shellPart_eq_iff {k : Kind} (hk : k.isContent = false) :
    (shellPart quoted t p).kind = k ↔ p.kind = k := by
  cases h : hides t p with
  | false => rw [kind_shellPart h]
  | true =>
    obtain ⟨hshell, hkind⟩ := kind_shellPart_of_hidden quoted h
    rw [hshell]
    constructor <;> rintro rfl
    · cases hk
    · rw [hk] at hkind
      cases hkind

/-- What is asked of a part of one kind, and of a part of any other kind, if none of that kind is ever
hidden. -/
lemma ite_shellPart {α : Type} {f g : Tree → α} {k : Kind} (hk : k.isContent = false)
    (hf : p.kind = k → f (shell quoted p) = f p) (hg : g (shellPart quoted t p) = g p) :
    (if (shellPart quoted t p).kind = k then f (shellPart quoted t p) else g (shellPart quoted t p)) =
      if p.kind = k then f p else g p := by
  by_cases h : p.kind = k
  · rw [if_pos h, if_pos ((kind_shellPart_eq_iff hk).2 h)]
    exact read_shellPart (hf h) (hides_of_kind (by rw [h, hk]))
  · rw [if_neg h, if_neg fun hp => h ((kind_shellPart_eq_iff hk).1 hp), hg]

/-- What is hidden counts as it did before. -/
@[simp] lemma counts_shellPart : (shellPart quoted t p).kind.counts = p.kind.counts := by
  cases h : hides t p with
  | false => rw [kind_shellPart h]
  | true =>
    obtain ⟨hshell, hkind⟩ := kind_shellPart_of_hidden quoted h
    rw [hshell, Kind.counts_of_isContent hkind]
    rfl

/-- The part of a shell in a role is the shell of the part. -/
lemma part?_shell (r : Role) : (shell quoted t).part? r = (t.part? r).map (shellPart quoted t) := by
  unfold part?
  rw [parts_shell, List.find?_map]
  congr 2
  funext p
  simp

/-- The children of a shell are the shells of the children. -/
lemma children_shell : (shell quoted t).children = t.children.map (shellPart quoted t) := by
  unfold children
  rw [parts_shell, List.filter_map]
  congr 2
  funext p
  simp

/-- The first child of a shell is the shell of the first child. -/
lemma firstChild?_shell :
    (shell quoted t).firstChild? = t.firstChild?.map (shellPart quoted t) := by
  rw [firstChild?, children_shell, List.head?_map, firstChild?]

/-- The parts of a kind that can be looked for are those parts in the shell. -/
lemma filter_kind_children_shell {k : Kind} (hk : k.isContent = false) :
    (shell quoted t).children.filter (fun p => p.kind == k) =
      (t.children.filter fun p => p.kind == k).map (shellPart quoted t) := by
  rw [children_shell, List.filter_map]
  congr 2
  funext p
  rw [Function.comp_apply, Bool.eq_iff_iff, beq_iff_eq, beq_iff_eq, kind_shellPart_eq_iff hk]

end

/-! ## Parts that are quoted -/

section

variable {t p : Tree}

/-- A token has no parts that could be hidden. -/
lemma shellPart_of_token (h : hides t p = false) (hkind : p.kind.isToken = true) :
    shellPart quotes t p = p := shellPart_of_quoted h (by simp [quotes, hkind])

/-- A decorator is quoted whole. -/
lemma shellPart_of_decorator (h : p.kind = .decorator) : shellPart quotes t p = p :=
  shellPart_of_quoted (hides_of_kind (by simp [h, Kind.isContent])) (by simp [quotes, h])

/-- A part in a role in which it is quoted everywhere is found in the shell as it is. -/
lemma part?_shell_of_quoted {r : Role} (hr : r = .parameters ∨ r = .parameter ∨ r = .accessibility) :
    (shell quotes t).part? r = t.part? r := by
  rw [part?_shell]
  cases hp : t.part? r with
  | none => rfl
  | some p =>
    have hrole := role_of_part? hp
    refine congrArg some (shellPart_of_quoted (hides_of_role ?_ ?_) ?_)
    all_goals rcases hr with rfl | rfl | rfl <;> simp [quotes, hrole]

/-- The keywords of a tree are those of its shell. -/
lemma hasKeyword_shell (word : String) : (shell quotes t).hasKeyword word = t.hasKeyword word := by
  unfold hasKeyword
  rw [parts_shell, List.any_map]
  congr 1
  funext p
  rw [Function.comp_apply]
  by_cases h : p.kind = .keyword
  · rw [shellPart_of_token (hides_of_kind (by simp [h, Kind.isContent, Kind.counts]))
      (by simp [h, Kind.isToken])]
  · have hshell : (shellPart quotes t p).kind ≠ .keyword :=
      fun hk => h ((kind_shellPart_eq_iff (by decide)).1 hk)
    rw [beq_false_of_ne h, beq_false_of_ne hshell, Bool.false_and, Bool.false_and]

/-- A part that is an identifier has its text in the shell. -/
lemma identifier_shellPart (h : hides t p = false) :
    (if (shellPart quotes t p).kind = .identifier then some (shellPart quotes t p).text else none) =
      if p.kind = .identifier then some p.text else none := by
  rw [kind_shellPart h]
  split
  · next hkind => rw [shellPart_of_token h (by simp [hkind, Kind.isToken])]
  · rfl

/-- A part that is a string has its text in the shell. -/
lemma string_shellPart (h : hides t p = false) :
    (if (shellPart quotes t p).kind = .string then
      some (String.ofList (unquoted (shellPart quotes t p).chars)) else none) =
      if p.kind = .string then some (String.ofList (unquoted p.chars)) else none := by
  rw [kind_shellPart h]
  split
  · next hkind => rw [shellPart_of_token h (by simp [hkind, Kind.isToken])]
  · rfl

end

/-! ## Parentheses and casts -/

mutual

/-- A question that has the same answer for all trees and their shells has it for what stands in
parentheses. -/
theorem read_unwrapped {α : Type} {f : Tree → α} (hf : ∀ t, f (shell quotes t) = f t) :
    ∀ t : Tree, f (shell quotes t).unwrapped = f t.unwrapped
  | leaf .. => rfl
  | node r k ps => by
    by_cases hk : k = .parenthesized ∨ k = .cast
    · -- nothing is hidden directly in parentheses, so the expression in them is found in the shell
      have hkept : ∀ p, hides (node r k ps) p = false := fun p => by
        rcases hk with rfl | rfl <;> simp [hides, kind]
      have hfirst := read_firstUnwrapped hf hkept ps
      rw [shell, unwrapped, unwrapped, if_pos hk, if_pos hk, shells_eq]
      cases hps : firstUnwrapped ps with
      | none =>
        rw [hps, Option.map_none, Option.map_eq_none_iff] at hfirst
        rw [hfirst, ← shells_eq, Option.getD_none, Option.getD_none, ← hf (node r k ps), shell]
      | some e =>
        rw [hps, Option.map_some, Option.map_eq_some_iff] at hfirst
        obtain ⟨e', he', heq⟩ := hfirst
        rw [he', Option.getD_some, Option.getD_some, heq]
    · rw [shell, unwrapped, unwrapped, if_neg hk, if_neg hk, ← hf (node r k ps), shell]

/-- What can be read off shells can be read off the shell of what stands in parentheses. -/
theorem read_firstUnwrapped {α : Type} {f : Tree → α} (hf : ∀ t, f (shell quotes t) = f t)
    {t : Tree} (ht : ∀ p, hides t p = false) : ∀ ps : List Tree,
      (firstUnwrapped (ps.map (shellPart quotes t))).map f = (firstUnwrapped ps).map f
  | [] => rfl
  | p :: ps => by
    rw [List.map_cons, firstUnwrapped, firstUnwrapped, counts_shellPart]
    split
    · exact congrArg some
        (read_shellPart (f := fun p => f p.unwrapped) (read_unwrapped hf p) (ht p))
    · exact read_firstUnwrapped hf ht ps

end

/-! ## The questions of the outline -/

/-- The key of a property is in the shell of its part. -/
lemma objectKey?_shellPart {o p : Tree} (h : hides o p = false) :
    objectKey? (shellPart quotes o p) = objectKey? p := by
  unfold objectKey?
  rw [kind_shellPart h]
  -- a key is a token and is not hidden, and tokens are their own shells
  split
  · next hkind => rw [shellPart_of_token h (by simp [hkind, Kind.isToken])]
  · refine read_shellPart (f := fun p => (p.part? .key).bind _) ?_ h
    rw [part?_shell]
    cases hkey : p.part? .key with
    | none => rfl
    | some k =>
      have hrole := role_of_part? hkey
      have hkept : hides p k = false := hides_of_role (by simp [hrole]) (by simp [hrole])
      rw [Option.map_some, Option.bind_some, Option.bind_some, kind_shellPart hkept]
      split
      all_goals first
        | rfl
        | next hk => rw [shellPart_of_token hkept (by simp [hk, Kind.isToken])]
  · rfl

/-- The keys of an object literal. -/
def objectKeys? (o : Tree) : Option (List String) :=
  if o.kind = .object then some (o.children.filterMap objectKey?) else none

/-- The keys of the object literal that a statement returns. -/
def keysOfReturn? (s : Tree) : Option (List String) :=
  s.firstChild?.bind fun e => objectKeys? e.unwrapped

/-- A getter returns keys if its body is a `return` and nothing else. -/
lemma returnedKeys?_eq (b : Tree) : returnedKeys? b =
    match b.children with
    | [s] => if s.kind = .returnStatement then keysOfReturn? s else none
    | _ => none := rfl

/-- An object literal keeps its pairs: what is hidden is the value in a pair. -/
lemma objectKeys?_shell (o : Tree) : objectKeys? (shell quotes o) = objectKeys? o := by
  unfold objectKeys?
  rw [kind_shell]
  split
  · next ho =>
    rw [children_shell, List.filterMap_map]
    refine congrArg some (List.filterMap_congr fun p _ => ?_)
    exact objectKey?_shellPart (by simp [hides, ho])
  · rfl

/-- The keys of an object that is returned are in the shell of the statement. -/
lemma keysOfReturn?_shell {s : Tree} (hs : s.kind = .returnStatement) :
    keysOfReturn? (shell quotes s) = keysOfReturn? s := by
  unfold keysOfReturn?
  rw [firstChild?_shell]
  cases s.firstChild? with
  | none => rfl
  | some e =>
    exact read_shellPart (f := fun e => objectKeys? e.unwrapped)
      (read_unwrapped objectKeys?_shell e) (by simp [hides, hs])

/-- The keys of the object that a body returns can be read off its shell. -/
theorem returnedKeys?_shell (b : Tree) : returnedKeys? (shell quotes b) = returnedKeys? b := by
  rw [returnedKeys?_eq, returnedKeys?_eq, children_shell]
  match b.children with
  | [] => rfl
  | [s] => exact ite_shellPart (g := fun _ => none) (by decide) keysOfReturn?_shell rfl
  | s :: s' :: ss => rfl

/-- The parameters of a function are in its shell. -/
theorem ofFunction_shell (t : Tree) :
    Parameter.ofFunction (shell quotes t) = Parameter.ofFunction t := by
  unfold Parameter.ofFunction
  rw [part?_shell_of_quoted (by simp), part?_shell_of_quoted (by simp)]

/-- The name of a function that is called in a heritage is in its shell. -/
lemma factory?_shell (t : Tree) :
    ClassDeclaration.factory? (shell quotes t) = ClassDeclaration.factory? t := by
  unfold ClassDeclaration.factory?
  rw [kind_shell, part?_shell]
  split
  · next hkind =>
    cases t.part? .function with
    | none => rfl
    | some g => exact identifier_shellPart (by simp [hides, hkind])
  · rfl

/-- The class of which an expression makes a new instance, if it makes one. -/
def constructed? (v : Tree) : Option (Option String) :=
  if v.kind = .construction then
    some ((v.part? .constructed).bind fun c => if c.kind = .identifier then some c.text else none)
  else none

/-- The parameters of a value that is a function. -/
def function? (v : Tree) : Option (List Parameter) :=
  if Variable.isFunction v.kind then some (Parameter.ofFunction v) else none

/-- The parameters of the function that a type announces. -/
def announced? (t : Tree) : Option (List Parameter) :=
  t.firstChild?.bind fun c => if c.kind = .functionType then some (Parameter.ofFunction c) else none

/-- What is known of a variable is made of its name, its value and its type. -/
lemma ofTree_eq (t : Tree) : Variable.ofTree t =
    ⟨(t.part? .name).bind fun n => if n.kind = .identifier then some n.text else none,
      (t.part? .value).bind fun v => constructed? v.unwrapped,
      match t.part? .value with
      | some v => function? v
      | none => (t.part? .type).bind announced?⟩ := by
  unfold Variable.ofTree announced?
  cases t.part? .value with
  | none => cases t.part? .type <;> rfl
  | some v => rfl

/-- The class that a `new` names is in its shell. -/
lemma constructed?_shell (v : Tree) : constructed? (shell quotes v) = constructed? v := by
  unfold constructed?
  rw [kind_shell, part?_shell]
  split
  · next hkind =>
    cases v.part? .constructed with
    | none => rfl
    | some c => exact congrArg some (identifier_shellPart (by simp [hides, hkind]))
  · rfl

/-- The parameters of a function that is a value are in its shell. -/
lemma function?_shell (v : Tree) : function? (shell quotes v) = function? v := by
  unfold function?
  rw [kind_shell, ofFunction_shell]

/-- The parameters that a type announces are in its shell. -/
lemma announced?_shell (t : Tree) : announced? (shell quotes t) = announced? t := by
  unfold announced?
  rw [firstChild?_shell]
  cases t.firstChild? with
  | none => rfl
  | some c =>
    exact ite_shellPart (f := fun c => some (Parameter.ofFunction c)) (g := fun _ => none)
      (by decide) (fun _ => congrArg some (ofFunction_shell c)) rfl

/-- The variable that a declarator declares can be read off its shell. -/
theorem ofTree_shell {t : Tree} (h : t.kind = .declarator) :
    Variable.ofTree (shell quotes t) = Variable.ofTree t := by
  have hkept : ∀ p, hides t p = false := fun p => by simp [hides, h]
  rw [ofTree_eq, ofTree_eq]
  simp only [part?_shell, Variable.mk.injEq]
  refine ⟨?_, ?_, ?_⟩
  · cases t.part? .name with
    | none => rfl
    | some n => exact identifier_shellPart (hkept n)
  · cases t.part? .value with
    | none => rfl
    | some v =>
      exact read_shellPart (f := fun v => constructed? v.unwrapped)
        (read_unwrapped constructed?_shell v) (hkept v)
  · cases t.part? .value with
    | some v => exact read_shellPart (function?_shell v) (hkept v)
    | none =>
      cases t.part? .type with
      | none => rfl
      | some type => exact read_shellPart (announced?_shell type) (hkept type)

end Tree

end StoreBindings.Syntax
