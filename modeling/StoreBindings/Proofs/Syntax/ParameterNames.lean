import StoreBindings.DecoratorIndex
import StoreBindings.Proofs.Syntax.Interface
import StoreBindings.Proofs.Syntax.Source

/-!
# The names of parameters

A parameter is called by its name, or by underscores and the number of its place. In either case there
is a character in what it is called by that is no digit (`exists_not_isDigit_of_mem_names`), since what
is a name in a source is no number.
-/

namespace StoreBindings

open Syntax (Node Tree Module)

namespace Syntax

/-! ## Parts of formed trees -/

namespace Tree

variable {t p : Tree}

/-- The parts of a well-formed tree are well-formed. -/
lemma Formed.of_mem_parts (h : t.Formed) (hp : p ∈ t.parts) : p.Formed := by
  cases h with
  | leaf => cases hp
  | node _ hparts => exact hparts p hp

lemma Formed.of_mem_children (h : t.Formed) (hp : p ∈ t.children) : p.Formed :=
  h.of_mem_parts (List.mem_filter.1 hp).1

/-- So is the part in a role. -/
lemma Formed.of_part? {r : Role} (h : t.Formed) (hp : t.part? r = some p) : p.Formed :=
  h.of_mem_parts (List.mem_of_find?_eq_some hp)

/-- So is the first child. -/
lemma Formed.of_firstChild? (h : t.Formed) (hp : t.firstChild? = some p) : p.Formed :=
  h.of_mem_children (List.mem_of_head? hp)

/-- The part in a role is one for that role. -/
lemma Formed.suits_of_part? {r : Role} (h : t.Formed) (hp : t.part? r = some p) : Suits r p := by
  have hrole : p.role = r := by simpa using List.find?_some hp
  exact hrole ▸ (h.of_part? hp).suits

end Tree

/-- The children of a well-formed node are well-formed. -/
lemma Node.formed_of_mem_children {n p : Node} (h : n.tree.Formed) (hp : p ∈ n.children) :
    p.tree.Formed :=
  h.of_mem_children (map_tree_children n ▸ List.mem_map_of_mem hp)

lemma Node.formed_of_part? {n p : Node} {r : Role} (h : n.tree.Formed) (hp : n.part? r = some p) :
    p.tree.Formed :=
  h.of_part? (by rw [← map_tree_part?, hp]; rfl)

/-! ## Names -/

/-- A telling character is no point, so it stays. -/
lemma mem_withoutPoints {c : Char} {cs : List Char} (hc : c ∈ cs) (h : isTelling c = true) :
    c ∈ withoutPoints cs := by
  simp only [isTelling, Bool.and_eq_true, bne_iff_ne, Bool.not_eq_true'] at h
  fun_induction withoutPoints cs with
  | case1 cs ih => exact ih (by simpa [h.1.1] using hc)
  | case2 cs _ => exact Text.mem_trim hc h.1.2

/-- A telling character is no digit. -/
lemma exists_not_isDigit_of_isTelling {cs : List Char} (h : ∃ c ∈ cs, isTelling c = true) :
    ∃ c ∈ cs, c.isDigit = false := by
  obtain ⟨c, hc, htelling⟩ := h
  simp only [isTelling, Bool.and_eq_true, Bool.not_eq_true'] at htelling
  exact ⟨c, hc, htelling.2⟩

namespace Parameter

/-- What stands for a missing name begins with underscores, which are no digits. -/
lemma exists_not_isDigit_nameAt (place : Nat) {p : Parameter}
    (h : ∀ name ∈ p.name, ∃ c ∈ name.toList, c.isDigit = false) :
    ∃ c ∈ (p.nameAt place).toList, c.isDigit = false := by
  rw [nameAt]
  cases hname : p.name with
  | some name => exact h name hname
  | none =>
    have hmarks : (toString "__").toList = ['_', '_'] := rfl
    exact ⟨'_', by simp [hmarks], rfl⟩

/-- The name of a parameter, if it has one, is no number. -/
lemma exists_not_isDigit_ofTree {t : Tree} (ht : t.Formed) {name : String}
    (h : (ofTree t).name = some name) : ∃ c ∈ name.toList, c.isDigit = false := by
  obtain ⟨pattern, hpattern, h⟩ := Option.bind_eq_some_iff.1 h
  have htelling : pattern.IsTelling := ht.suits_of_part? hpattern
  refine exists_not_isDigit_of_isTelling ?_
  split at h
  · cases h
    rw [Tree.text, String.toList_ofList]
    exact htelling
  · split at h
    · cases h
      obtain ⟨c, hc, htelling⟩ := htelling
      exact ⟨c, by simpa using mem_withoutPoints hc htelling, htelling⟩
    · cases h

/-- A parameter of a function is its only one, without a list, or a part of the list. -/
lemma exists_of_mem_ofFunction {t : Tree} (ht : t.Formed) {p : Parameter} (hp : p ∈ ofFunction t) :
    (∃ sole, t.part? .parameter = some sole ∧ p = ⟨some sole.text, false, none, none⟩) ∨
      ∃ child : Tree, child.Formed ∧ p = ofTree child := by
  unfold ofFunction at hp
  split at hp
  · next sole hsole => exact .inl ⟨sole, hsole, List.mem_singleton.1 hp⟩
  · cases hlist : t.part? .parameters with
    | none =>
      rw [hlist] at hp
      cases hp
    | some list =>
      rw [hlist] at hp
      obtain ⟨child, hchild, rfl⟩ := List.mem_map.1 hp
      exact .inr ⟨child, (ht.of_part? hlist).of_mem_children (List.mem_filter.1 hchild).1, rfl⟩

/-- The name of a parameter of a function is no number. -/
lemma exists_not_isDigit_ofFunction {t : Tree} (ht : t.Formed) {p : Parameter}
    (hp : p ∈ ofFunction t) {name : String} (h : p.name = some name) :
    ∃ c ∈ name.toList, c.isDigit = false := by
  rcases exists_of_mem_ofFunction ht hp with ⟨sole, hsole, rfl⟩ | ⟨child, hchild, rfl⟩
  · cases h
    have htelling : sole.IsTelling := ht.suits_of_part? hsole
    rw [Tree.text, String.toList_ofList]
    exact exists_not_isDigit_of_isTelling htelling
  · exact exists_not_isDigit_ofTree hchild h

/-- No parameter of a function is called by a number. -/
theorem exists_not_isDigit_of_mem_names {t : Tree} (ht : t.Formed) {name : String}
    (h : name ∈ names (ofFunction t)) : ∃ c ∈ name.toList, c.isDigit = false := by
  obtain ⟨place, hplace, rfl⟩ := List.mem_mapIdx.1 h
  exact exists_not_isDigit_nameAt place fun name hname =>
    exists_not_isDigit_ofFunction ht (List.getElem_mem hplace) hname

end Parameter

/-! ## Declared functions -/

/-- What a well-formed tree declares is well-formed. -/
lemma TopLevel.formed_of_mem_declared {n d : Node} (hn : n.tree.Formed) (hd : d ∈ declared n) :
    d.tree.Formed := by
  unfold declared at hd
  split at hd
  · exact Node.formed_of_mem_children hn hd
  · rwa [List.mem_singleton.1 hd]

/-- The parameters of a variable are those of a tree that is formed with the variable. -/
lemma Variable.exists_ofFunction {t : Tree} (ht : t.Formed) {ps : List Parameter}
    (h : (ofTree t).function = some ps) : ∃ f : Tree, f.Formed ∧ ps = Parameter.ofFunction f := by
  dsimp only [ofTree] at h
  split at h
  · next value hvalue =>
    split at h
    · cases h
      exact ⟨value, ht.of_part? hvalue, rfl⟩
    · cases h
  · obtain ⟨type, htype, h⟩ := Option.bind_eq_some_iff.1 h
    obtain ⟨clause, hclause, htype⟩ := Option.bind_eq_some_iff.1 htype
    split at h
    · cases h
      exact ⟨type, (ht.of_part? hclause).of_firstChild? htype, rfl⟩
    · cases h

/-- The names of parameters that are taken from a declaration are those of a formed tree. -/
lemma Declaration.exists_ofFunction {n : Node} (hn : n.tree.Formed) {d : Declaration}
    (hd : Declaration.ofNode? n = some d) {exported : Bool} {f : String × List String}
    (hf : f ∈ TopLevel.functions ⟨exported, d⟩) :
    ∃ t : Tree, t.Formed ∧ f.2 = Parameter.names (Parameter.ofFunction t) := by
  have hgroup {isLexical : Bool}
      (hf : f ∈ TopLevel.functions ⟨exported, .group (groupOf n.tree isLexical)⟩) :
      ∃ t : Tree, t.Formed ∧ f.2 = Parameter.names (Parameter.ofFunction t) := by
    obtain ⟨v, hv, hf⟩ := List.mem_filterMap.1 hf
    obtain ⟨child, hchild, rfl⟩ := List.mem_map.1 hv
    have hformed := hn.of_mem_children (List.mem_filter.1 hchild).1
    obtain ⟨name, -, hf⟩ := Option.bind_eq_some_iff.1 hf
    obtain ⟨ps, hps, hf⟩ := Option.bind_eq_some_iff.1 hf
    cases hf
    obtain ⟨t, ht, rfl⟩ := Variable.exists_ofFunction hformed hps
    exact ⟨t, ht, rfl⟩
  unfold Declaration.ofNode? at hd
  split at hd
  all_goals cases hd
  · cases hf
  · exact hgroup hf
  · exact hgroup hf
  · exact ⟨n.tree, hn, by rw [List.mem_singleton.1 hf]; rfl⟩
  · exact ⟨n.tree, hn, by rw [List.mem_singleton.1 hf]; rfl⟩

end Syntax

/-- No parameter of a function that a source declares is called by a number. -/
lemma DecoratorIndex.exists_not_isDigit_ofModules {sources : List (Path × List Char)}
    {d : DeclaredDecorator}
    (hd : d ∈ (ofModules (sources.map fun s => Module.read s.1 s.2)).declared) {name : String}
    (hname : name ∈ d.parameters) : ∃ c ∈ name.toList, c.isDigit = false := by
  rw [declared_ofModules, List.flatMap_map] at hd
  obtain ⟨⟨path, text⟩, -, hd⟩ := List.mem_flatMap.1 hd
  obtain ⟨f, hf, rfl⟩ := List.mem_map.1 hd
  obtain ⟨⟨exported, declaration⟩, htop, hf⟩ := List.mem_flatMap.1 hf
  obtain ⟨statement, hstatement, htop⟩ := List.mem_flatMap.1 htop
  have hroot : (Module.read path text).root.tree.Formed := Syntax.formed_parse _ _
  have hformed := Node.formed_of_mem_children hroot hstatement
  obtain ⟨_, htop, heq⟩ := List.mem_map.1 htop
  cases heq
  obtain ⟨n, hn, hdeclaration⟩ := List.mem_filterMap.1 htop
  -- both the statement and what it exports are parts of the formed tree
  have hn : n.tree.Formed := by
    split at hn
    · cases hexported : statement.part? .declaration with
      | none =>
        rw [hexported] at hn
        cases hn
      | some inside =>
        rw [hexported] at hn
        exact Syntax.TopLevel.formed_of_mem_declared (Node.formed_of_part? hformed hexported) hn
    · exact Syntax.TopLevel.formed_of_mem_declared hformed hn
  obtain ⟨t, ht, hnames⟩ := Syntax.Declaration.exists_ofFunction hn hdeclaration hf
  exact Syntax.Parameter.exists_not_isDigit_of_mem_names ht (hnames ▸ hname)

end StoreBindings
