import StoreBindings.Proofs.Store.Decorations
import StoreBindings.Proofs.Syntax.ParameterNames
import StoreBindings.Proofs.Syntax.Places

/-!
# The arguments of a decorator

The arguments of a decorator are kept in a map: each by the name of the parameter at its place, or by
the number of the place where none is declared. A parameter that were called by a number could take
the place of an argument behind it. But what is read from a source has no such names, so names that
differ among themselves are enough for all arguments to be kept in order: `arguments_of_call`.
-/

namespace StoreBindings.Store

open Syntax (Tree)

/-! ## Keys -/

/-- A declared name is no number of a place. -/
lemma getElem_ne_toString {declared : List String} {i j : Nat}
    (hdigits : ∀ name ∈ declared, ∃ c ∈ name.toList, c.isDigit = false)
    (hi : i < declared.length) : declared[i] ≠ toString j := by
  intro heq
  obtain ⟨c, hc, hdigit⟩ := hdigits _ (List.getElem_mem hi)
  rw [heq] at hc
  rw [Text.isDigit_of_mem_toString hc] at hdigit
  cases hdigit

/-- Different places have different keys. -/
lemma keyAt_inj {declared : List String} (hnodup : declared.Nodup)
    (hdigits : ∀ name ∈ declared, ∃ c ∈ name.toList, c.isDigit = false) {i j : Nat}
    (h : Decoration.keyAt declared i = Decoration.keyAt declared j) : i = j := by
  unfold Decoration.keyAt at h
  -- a key is a declared name or a number, and never both
  by_cases hi : i < declared.length <;> by_cases hj : j < declared.length
  · rw [List.getElem?_eq_getElem hi, List.getElem?_eq_getElem hj] at h
    exact (hnodup.getElem_inj_iff).1 h
  · rw [List.getElem?_eq_getElem hi, List.getElem?_eq_none (by omega)] at h
    cases getElem_ne_toString hdigits hi h
  · rw [List.getElem?_eq_none (by omega), List.getElem?_eq_getElem hj] at h
    cases getElem_ne_toString hdigits hj h.symm
  · rw [List.getElem?_eq_none (by omega), List.getElem?_eq_none (by omega)] at h
    exact Text.toString_inj h

/-- The arguments of one decorator have different keys. -/
lemma nodup_keys {declared arguments : List String} (hnodup : declared.Nodup)
    (hdigits : ∀ name ∈ declared, ∃ c ∈ name.toList, c.isDigit = false) :
    ((arguments.mapIdx fun place a => (Decoration.keyAt declared place, a)).map Prod.fst).Nodup := by
  rw [List.Nodup, List.pairwise_iff_getElem]
  intro i j hi hj hij heq
  simp only [List.getElem_map, List.getElem_mapIdx] at heq
  exact absurd (keyAt_inj hnodup hdigits heq) (Nat.ne_of_lt hij)

/-! ## What a decorator is declared with -/

/-- The parameters that are declared under a name: the first declaration in a module counts, else the
first one at all. -/
def declaredWith (ix : DecoratorIndex) (name : String) (file : Path) : List String :=
  (((ix.declared.find? fun d => d.name == name && d.file.same file).or
    (ix.declared.find? fun d => d.name == name)).map DeclaredDecorator.parameters).getD []

/-- Looking a name up gives the parameters that it is declared with. -/
lemma getD_lookup (ix : DecoratorIndex) (name : String) (file : Path) :
    (ix.lookup name file).getD [] = declaredWith ix name file := by
  have hfirst : ((ix.declared.filter fun d => d.name == name).find? fun d => d.file.same file) =
      ix.declared.find? fun d => d.name == name && d.file.same file := by
    rw [List.find?_filter]
    exact congrArg (List.find? · ix.declared) (funext fun d => by
      rw [Bool.decide_and, Bool.decide_eq_true, Bool.decide_eq_true])
  rw [declaredWith, DecoratorIndex.lookup, hfirst, List.head?_filter]

lemma mem_declared_of_declaredWith {ix : DecoratorIndex} {name p : String} {file : Path}
    (h : p ∈ declaredWith ix name file) : ∃ d ∈ ix.declared, p ∈ d.parameters := by
  unfold declaredWith at h
  cases hfound : (ix.declared.find? fun d => d.name == name && d.file.same file).or
      (ix.declared.find? fun d => d.name == name) with
  | none =>
    rw [hfound] at h
    cases h
  | some d =>
    rw [hfound] at h
    refine ⟨d, ?_, h⟩
    rcases Option.or_eq_some_iff.1 hfound with hfirst | ⟨-, hany⟩
    · exact List.mem_of_find?_eq_some hfirst
    · exact List.mem_of_find?_eq_some hany

/-! ## Calls -/

/-- A decorator that is a call has a name and arguments. -/
lemma exists_of_call {t e : Tree} (ht : t.Formed) (hkind : t.kind = .decorator)
    (he : t.firstChild? = some e) (hcall : e.kind = .call) :
    ∃ name a, (e.part? .function).bind Syntax.Decorator.reference? = some name ∧
      e.part? .arguments = some a := by
  have hformed := ht.of_firstChild? he
  -- the grammar allows only names to be called in a decorator
  have hcalls : e.CallsName := by
    cases ht with
    | leaf => cases he
    | @node r k parts hfits hparts =>
      cases hkind
      obtain ⟨before, expression, rfl, hbefore, hcounts, hcalls⟩ := hfits
      rw [← List.cons_append, Tree.firstChild?_append (fun t ht => ?_) hcounts] at he
      · exact Option.some.inj he ▸ hcalls
      · rcases List.mem_cons.1 ht with rfl | ht
        · rfl
        · exact Tree.counts_of_isGap (hbefore t ht)
  obtain ⟨function, rest, hparts, hrole, hname⟩ := hcalls hcall
  cases hformed with
  | leaf => cases hparts
  | @node r k parts hfits _ =>
    cases hcall
    obtain ⟨function', between, kind, inside, rfl, hrole', -, hbetween⟩ := hfits
    obtain ⟨rfl, rfl⟩ := List.cons.inj hparts
    refine ⟨function'.text, _, ?_, Tree.part?_arguments hrole' hbetween⟩
    rw [Tree.part?_cons hrole', Option.bind_some, Syntax.Decorator.reference?, if_pos hname]

lemma ofTree_of_call {t e a : Tree} {name : String} (he : t.firstChild? = some e)
    (hcall : e.kind = .call)
    (hname : (e.part? .function).bind Syntax.Decorator.reference? = some name)
    (ha : e.part? .arguments = some a) :
    Syntax.Decorator.ofTree t = ⟨t.text, some name, some (a.children.map Tree.text)⟩ := by
  simp [Syntax.Decorator.ofTree, he, hcall, hname, ha]

/-- What is recorded of a decorator that is a call, in the source with a given path: its name, and
each argument in order, under the name of the parameter at its place or, where no parameter is
declared, under the number of the place. -/
theorem arguments_of_call (sources : List (Path × List Char)) {path : Path}
    {text before after : List Char} {t e : Tree}
    (ht : Tree.PartAt before t after (Syntax.Module.read path text).tree)
    (hkind : t.kind = .decorator) (he : t.firstChild? = some e) (hcall : e.kind = .call) :
    let ix := DecoratorIndex.ofModules (sources.map fun s => Syntax.Module.read s.1 s.2)
    ∃ name a, (e.part? .function).bind Syntax.Decorator.reference? = some name ∧
      e.part? .arguments = some a ∧
      ((declaredWith ix (Syntax.Decorator.shortName name) path).Nodup →
        ∃ d : Decoration, Decoration.ofSyntax? ix path (.ofTree t) = some d ∧ d.name = name ∧
          d.arguments.entries = (a.children.map Tree.text).mapIdx (fun place argument =>
            (((declaredWith ix (Syntax.Decorator.shortName name) path)[place]?).getD (toString place),
              argument)) ∧
          ∀ member : Syntax.Member, Syntax.Decorator.ofTree t ∈ member.decorators →
            d ∈ Decoration.ofMember ix path member) := by
  intro ix
  have hformed : t.Formed := ht.formed (Syntax.formed_parse _ _)
  obtain ⟨name, a, hname, ha⟩ := exists_of_call hformed hkind he hcall
  refine ⟨name, a, hname, ha, fun hnodup => ?_⟩
  have hrecorded : Decoration.ofSyntax? ix path (.ofTree t) =
      some ⟨name, Decoration.argumentsOf (declaredWith ix (Syntax.Decorator.shortName name) path)
        (a.children.map Tree.text)⟩ := by
    rw [ofTree_of_call he hcall hname ha, Decoration.ofSyntax?, ← getD_lookup]
    rfl
  refine ⟨_, hrecorded, rfl, ?_, fun member hmember => List.mem_filterMap.2 ⟨_, hmember, hrecorded⟩⟩
  -- a parameter called by a number could take the place of an argument behind it
  have hdigits : ∀ p ∈ declaredWith ix (Syntax.Decorator.shortName name) path,
      ∃ c ∈ p.toList, c.isDigit = false := by
    intro p hp
    obtain ⟨d, hd, hp⟩ := mem_declared_of_declaredWith hp
    exact DecoratorIndex.exists_not_isDigit_ofModules hd hp
  exact OrderedMap.entries_ofList (nodup_keys hnodup hdigits)

namespace Sample

/-- A decorator with two parameters that is called with three arguments. -/
def called : String := "function On(a,b)\x7b\x7dclass S extends Store()\x7b@On(1,2,3)a()\x7b\x7d\x7d"

/-- The decorators of a text. -/
abbrev index (text : String) : DecoratorIndex :=
  .ofModules ([(file, text.toList)].map fun s => Syntax.Module.read s.1 s.2)

/-- Whether a node is a decorator that is called with some arguments, on a member of a class. -/
def isCallIn (classes : List Syntax.ClassDeclaration) (arguments : List String)
    (n : Syntax.Node) : Bool :=
  n.tree.kind = .decorator &&
    (n.tree.firstChild?.any fun e => e.kind = .call &&
      (e.part? .arguments).map (fun a => a.children.map Tree.text) = some arguments) &&
    classes.any fun c => c.members.any fun member =>
      member.decorators.contains (.ofTree n.tree)

end Sample

/-- The first two arguments have the names of the parameters, the third one the number of its place. -/
theorem arguments_of_called : ∃ c ∈ Sample.classes Sample.called, ∃ member ∈ c.members,
    ∃ d ∈ Decoration.ofMember (Sample.index Sample.called) Sample.file member,
      d.arguments.entries = [("a", "1"), ("b", "2"), ("2", "3")] := by
  have hplaces : Syntax.Node.placesIn
      (Sample.isCallIn (Sample.classes Sample.called) ["1", "2", "3"]) 0
      (Sample.module Sample.called).tree ≠ [] := by decide +kernel
  have hdeclared : ∀ c ∈ Sample.classes Sample.called, ∀ member ∈ c.members,
      ∀ d ∈ member.decorators, ∀ name ∈ d.name, declaredWith (Sample.index Sample.called)
        (Syntax.Decorator.shortName name) Sample.file = ["a", "b"] := by decide +kernel
  obtain ⟨before, t, after, hpart, hcall⟩ := Syntax.Node.exists_partAt_of_places hplaces
  simp only [Sample.isCallIn, Bool.and_eq_true, decide_eq_true_eq, Option.any_eq_true,
    List.any_eq_true, List.contains_iff_mem] at hcall
  obtain ⟨⟨hkind, e, he, hcall, harguments⟩, c, hc, member, hmember, hdecorator⟩ := hcall
  obtain ⟨name, a, hname, ha, hentries⟩ := arguments_of_call
    [(Sample.file, Sample.called.toList)] hpart hkind he hcall
  rw [ha] at harguments
  have htexts : a.children.map Tree.text = ["1", "2", "3"] := Option.some.inj harguments
  have hnamed : (Syntax.Decorator.ofTree t).name = some name := by
    rw [ofTree_of_call he hcall hname ha]
  rw [htexts, hdeclared c hc member hmember _ hdecorator name hnamed] at hentries
  obtain ⟨d, -, -, hentries, hrecorded⟩ := hentries (by decide)
  exact ⟨c, hc, member, hmember, d, hrecorded member hdecorator, hentries.trans (by decide)⟩

end StoreBindings.Store
