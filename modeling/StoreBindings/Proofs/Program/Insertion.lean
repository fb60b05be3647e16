import Mathlib.Data.List.Flatten
import StoreBindings.Program
import StoreBindings.Proofs.Store.Findings

/-!
# What one more module changes

The modules of a program share the index of decorators, and nothing else. A decorator that is called
in a store class is looked up under its name: a function that the module itself declares counts
first, else the first one of that name in the order of the modules (`lookup_of_insertion`). So a new
module changes what is found only under names that it declares, that the using module does not
declare, and that no module before the new one declares. Away from these names the other modules give
what they gave before, in their old order: `extractions_insertion`.
-/

namespace StoreBindings

open Report (Recorder)
open Syntax (ClassDeclaration Decorator Member Module TopLevel)

/-! ## Names of decorators -/

/-- The name under which a decorator that is a call is looked up. -/
def Syntax.Decorator.calledName? (d : Decorator) : Option String :=
  if d.arguments.isSome then d.name.map Decorator.shortName else none

namespace Syntax.Module

/-- The names of the functions that a module declares. -/
def declaredNames (m : Module) : List String :=
  (DecoratorIndex.ofModule m).map DeclaredDecorator.name

/-- The names under which the decorators of the store classes of a module are looked up. -/
def calledNames (m : Module) : List String :=
  (Store.Extraction.storeClasses (TopLevel.ofRoot m.root)).flatMap fun c =>
    c.members.flatMap fun member => member.decorators.filterMap Decorator.calledName?

lemma file_of_mem_ofModule {m : Module} {d : DeclaredDecorator}
    (h : d ∈ DecoratorIndex.ofModule m) : d.file = m.path := by
  obtain ⟨f, -, rfl⟩ := List.mem_map.1 h
  rfl

end Syntax.Module

/-! ## Looking up -/

namespace DecoratorIndex

/-- Declarations of another file do not matter to a look-up if there are none under its name, or if
the file itself or an earlier place has one. -/
theorem lookup_of_insertion {before inserted after : List DeclaredDecorator} {name : String}
    {file : Path} (hfile : ∀ d ∈ inserted, d.file.same file = false)
    (hname : (∀ d ∈ inserted, d.name ≠ name) ∨
      (∃ d ∈ before ++ after, d.name = name ∧ d.file.same file = true) ∨
      ∃ d ∈ before, d.name = name) :
    lookup ⟨before ++ (inserted ++ after)⟩ name file = lookup ⟨before ++ after⟩ name file := by
  let named := List.filter fun d : DeclaredDecorator => d.name == name
  -- the file's own declaration is the same in any case
  have hown : (named (before ++ (inserted ++ after))).find? (fun d => d.file.same file) =
      (named (before ++ after)).find? fun d => d.file.same file := by
    have hnone : (named inserted).find? (fun d => d.file.same file) = none := by
      rw [List.find?_eq_none]
      intro d hd
      simpa using hfile d (List.mem_filter.1 hd).1
    simp only [named, List.filter_append, List.find?_append] at hnone ⊢
    rw [hnone, Option.none_or]
  unfold lookup
  dsimp only
  rw [hown]
  rcases hname with hnone | ⟨d, hd, hname, hsame⟩ | ⟨d, hd, hname⟩
  · have hempty : named inserted = [] := by
      rw [List.filter_eq_nil_iff]
      intro d hd
      simpa using hnone d hd
    simp only [named, List.filter_append] at hempty ⊢
    rw [hempty, List.nil_append]
  · -- the file's own declaration is found, so the first one does not count
    have hmem : d ∈ named (before ++ after) := List.mem_filter.2 ⟨hd, by simpa using hname⟩
    obtain ⟨own, hfound⟩ := Option.isSome_iff_exists.1
      (List.find?_isSome.2 ⟨d, hmem, hsame⟩ :
        ((named (before ++ after)).find? fun d => d.file.same file).isSome = true)
    rw [hfound, Option.some_or, Option.some_or]
  · -- the first one stands before all that is inserted
    have hmem : d ∈ named before := List.mem_filter.2 ⟨hd, by simpa using hname⟩
    obtain ⟨first, rest, hfirst⟩ := List.exists_cons_of_ne_nil (List.ne_nil_of_mem hmem)
    simp only [named, List.filter_append] at hfirst ⊢
    rw [hfirst, List.cons_append, List.cons_append, List.head?_cons, List.head?_cons]

end DecoratorIndex

/-! ## What a class makes of an index -/

namespace Store

/-- By two indexes the same is found under the name of each decorator that a member calls. -/
def SameLookups (ix ix' : DecoratorIndex) (file : Path) (m : Member) : Prop :=
  ∀ name ∈ m.decorators.filterMap Decorator.calledName?, ix.lookup name file = ix'.lookup name file

lemma Decoration.ofSyntax?_congr {ix ix' : DecoratorIndex} {file : Path} {d : Decorator}
    (h : ∀ name, d.calledName? = some name → ix.lookup name file = ix'.lookup name file) :
    Decoration.ofSyntax? ix file d = Decoration.ofSyntax? ix' file d := by
  unfold Decoration.ofSyntax?
  cases hname : d.name with
  | none => rfl
  | some name =>
    cases harguments : d.arguments with
    | none => rfl
    | some arguments =>
      have hcalled : d.calledName? = some (Decorator.shortName name) := by
        simp [Decorator.calledName?, harguments, hname]
      rw [Option.map_some, Option.map_some, h _ hcalled]

lemma Decoration.ofMember_congr {ix ix' : DecoratorIndex} {file : Path} {m : Member}
    (h : SameLookups ix ix' file m) :
    Decoration.ofMember ix file m = Decoration.ofMember ix' file m :=
  List.filterMap_congr fun d hd => ofSyntax?_congr fun _ hname =>
    h _ (List.mem_filterMap.2 ⟨d, hd, hname⟩)

lemma addMember_congr {ix ix' : DecoratorIndex} {m : Metadata} {member : Member}
    (h : SameLookups ix ix' m.file member) (className : String) (all : List Member) :
    addMember ix className all m member = addMember ix' className all m member := by
  unfold addMember addMethod
  rw [Decoration.ofMember_congr h]

lemma addMembers_congr {ix ix' : DecoratorIndex} {m : Metadata} {members : List Member}
    (h : ∀ member ∈ members, SameLookups ix ix' m.file member) (className : String)
    (all : List Member) :
    addMembers ix className all m members = addMembers ix' className all m members := by
  induction members generalizing m with
  | nil => rfl
  | cons member rest ih =>
    -- the look-ups are those of the file of the store, which no member changes
    have hfile : (addMember ix' className all m member).1.file = m.file :=
      (adds_addMember ix' className all m member).head.file
    rw [addMembers, addMembers, addMember_congr (h member List.mem_cons_self)]
    dsimp only
    rw [ih]
    intro member' hmember'
    rw [hfile]
    exact h member' (List.mem_cons_of_mem _ hmember')

/-- A module gives the same by two indexes in which it finds the same. -/
lemma Extraction.ofModule_congr {ix ix' : DecoratorIndex} {m : Module}
    (h : ∀ name ∈ m.calledNames, ix.lookup name m.path = ix'.lookup name m.path)
    (dirs : Directories) : ofModule ix dirs m = ofModule ix' dirs m := by
  -- the index is asked for the names that are called in a member, and for no other
  have hclass : ∀ c ∈ storeClasses (TopLevel.ofRoot m.root),
      (Metadata.ofFile dirs m.path).addClass ix c = (Metadata.ofFile dirs m.path).addClass ix' c := by
    intro c hc
    refine addMembers_congr (fun member hmember name hname => h name ?_) c.name c.members
    exact List.mem_flatMap.2 ⟨c, hc, List.mem_flatMap.2 ⟨member, hmember, hname⟩⟩
  have hstores : (ofModule ix dirs m).stores = (ofModule ix' dirs m).stores := by
    rw [stores_ofModule, stores_ofModule]
    refine List.map_congr_left fun c hc => ?_
    rw [storeOf, storeOf, hclass c hc]
  have hmessages : (ofModule ix dirs m).diagnostics = (ofModule ix' dirs m).diagnostics := by
    rw [messages_ofModule, messages_ofModule]
    refine List.flatMap_congr fun c hc => ?_
    rw [messagesOf, messagesOf, findingsOf, findingsOf, storeOf, storeOf, hclass c hc]
  cases hofModule : ofModule ix dirs m
  cases hofModule' : ofModule ix' dirs m
  rw [hofModule, hofModule'] at hstores hmessages
  cases hstores
  cases hmessages
  rfl

end Store

/-! ## One more module -/

namespace Program

open Store (Directories Extraction)

/-- What another module calls is found as before. -/
lemma lookup_insertion {before after : List Module} {x m : Module} {name : String}
    (hm : m ∈ before ++ after) (hpath : x.path.same m.path = false)
    (hname : name ∉ x.declaredNames ∨ name ∈ m.declaredNames ∨
      ∃ m' ∈ before, name ∈ m'.declaredNames) :
    (decorators ⟨before ++ x :: after⟩).lookup name m.path =
      (decorators ⟨before ++ after⟩).lookup name m.path := by
  have hindex : ∀ ms : List Module,
      decorators ⟨ms⟩ = ⟨ms.flatMap DecoratorIndex.ofModule⟩ := fun ms =>
    congrArg DecoratorIndex.mk (DecoratorIndex.declared_ofModules ms)
  rw [hindex, hindex, List.flatMap_append, List.flatMap_append, List.flatMap_cons]
  refine DecoratorIndex.lookup_of_insertion ?_ ?_
  · intro d hd
    rw [Module.file_of_mem_ofModule hd]
    exact hpath
  · -- the name is not declared by the new module, or it is where the search looks first
    rcases hname with hnew | hown | ⟨m', hm', hearlier⟩
    · exact .inl fun d hd h => hnew (List.mem_map.2 ⟨d, hd, h⟩)
    · obtain ⟨d, hd, hname⟩ := List.mem_map.1 hown
      refine .inr (.inl ⟨d, ?_, hname, ?_⟩)
      · rw [← List.flatMap_append]
        exact List.mem_flatMap.2 ⟨m, hm, hd⟩
      · rw [Module.file_of_mem_ofModule hd]
        exact beq_self_eq_true _
    · obtain ⟨d, hd, hname⟩ := List.mem_map.1 hearlier
      exact .inr (.inr ⟨d, List.mem_flatMap.2 ⟨m', hm', hd⟩, hname⟩)

/-- A module that is inserted among others leaves what the others give as it was, and in its order,
if under each name by which one of them calls a decorator it declares nothing, or the calling module
or one before the new one declares something. -/
theorem extractions_insertion (dirs : Directories) {before after : List Module} {x : Module}
    (hpath : ∀ m ∈ before ++ after, x.path.same m.path = false)
    (hnames : ∀ m ∈ before ++ after, ∀ name ∈ m.calledNames, name ∉ x.declaredNames ∨
      name ∈ m.declaredNames ∨ ∃ m' ∈ before, name ∈ m'.declaredNames) :
    let program : Program := ⟨before ++ after⟩
    let larger : Program := ⟨before ++ x :: after⟩
    ∃ first last, program.extractions dirs = first ++ last ∧ first.length = before.length ∧
      larger.extractions dirs = first ++ Extraction.ofModule larger.decorators dirs x :: last ∧
      (stores (program.extractions dirs)).Sublist (stores (larger.extractions dirs)) := by
  intro program larger
  -- module by module nothing changes, so the two lists of results differ by one entry
  have hmodule : ∀ m ∈ before ++ after, Extraction.ofModule larger.decorators dirs m =
      Extraction.ofModule program.decorators dirs m := fun m hm =>
    Extraction.ofModule_congr
      (fun name hname => lookup_insertion hm (hpath m hm) (hnames m hm name hname)) dirs
  let first := before.map (Extraction.ofModule program.decorators dirs)
  let last := after.map (Extraction.ofModule program.decorators dirs)
  have hprogram : program.extractions dirs = first ++ last := List.map_append
  have hlarger : larger.extractions dirs =
      first ++ Extraction.ofModule larger.decorators dirs x :: last := by
    have hfirst : before.map (Extraction.ofModule larger.decorators dirs) = first :=
      List.map_congr_left fun m hm => hmodule m (List.mem_append_left _ hm)
    have hlast : after.map (Extraction.ofModule larger.decorators dirs) = last :=
      List.map_congr_left fun m hm => hmodule m (List.mem_append_right _ hm)
    rw [← hfirst, ← hlast, ← List.map_cons, ← List.map_append]
    rfl
  refine ⟨first, last, hprogram, List.length_map _, hlarger, ?_⟩
  rw [hprogram, hlarger]
  have hsublist : (first ++ last).Sublist
      (first ++ Extraction.ofModule larger.decorators dirs x :: last) :=
    (List.sublist_cons_self _ _).append_left first
  exact ((hsublist.flatMap _).filter _).map _

namespace Sample

/-- A source at the root with a given name and text. -/
def source (name text : String) : Module := .read (.ofString name) text.toList

/-- A function that can be used as a decorator. -/
def shared : Module := source "/a.ts" "function On(event)\x7b\x7d"

/-- A store that calls this function, one of its own and one that nobody declares. -/
def user : Module := source "/s.ts"
  ("function Off(time)\x7b\x7dclass S extends Store()\x7b@On(1)@Off(2)@Use(3)a()\x7b\x7d" ++
    "get state()\x7breturn\x7b\x7d\x7d\x7dexport const s=new S()")

/-- A module that declares two functions of the same names. -/
def rival : Module := source "/m.ts" "function On(a)\x7b\x7dfunction Off(b)\x7b\x7d"

def directories : Directories := ⟨.ofString "/", .ofString "/"⟩

end Sample

/-- The decorators of the store are still those of the first module and of its own. -/
theorem insertion_of_rival :
    let program : Program := ⟨[Sample.shared] ++ [Sample.user]⟩
    let larger : Program := ⟨[Sample.shared] ++ Sample.rival :: [Sample.user]⟩
    (∀ m ∈ program.modules, Sample.rival.path.same m.path = false) ∧
      (∀ m ∈ program.modules, ∀ name ∈ m.calledNames, name ∉ Sample.rival.declaredNames ∨
        name ∈ m.declaredNames ∨ ∃ m' ∈ [Sample.shared], name ∈ m'.declaredNames) ∧
      Sample.user.calledNames = ["On", "Off", "Use"] ∧
      (stores (program.extractions Sample.directories)).length = 1 ∧
      (stores (program.extractions Sample.directories)).Sublist
        (stores (larger.extractions Sample.directories)) := by
  intro program larger
  have hread : (∀ m ∈ program.modules, Sample.rival.path.same m.path = false) ∧
      (∀ m ∈ program.modules, ∀ name ∈ m.calledNames, name ∉ Sample.rival.declaredNames ∨
        name ∈ m.declaredNames ∨ ∃ m' ∈ [Sample.shared], name ∈ m'.declaredNames) ∧
      Sample.user.calledNames = ["On", "Off", "Use"] ∧
      (stores (program.extractions Sample.directories)).length = 1 := by
    decide +kernel
  obtain ⟨hpath, hnames, hcalled, hlength⟩ := hread
  obtain ⟨_, _, -, -, -, hsublist⟩ := extractions_insertion Sample.directories hpath hnames
  exact ⟨hpath, hnames, hcalled, hlength, hsublist⟩

end Program

end StoreBindings
