import Mathlib.Data.List.Forall2
import Mathlib.Data.List.Nodup
import StoreBindings.Generate.Modules
import StoreBindings.Program
import StoreBindings.Proofs.Text.Quoted

/-!
# What the declarations say of each store

The declarations are read back here, line by line: an import gives a name and the module that it
comes from (`importsOf`), a property its own name and the name whose type it has (`propertiesOf`).
What is read is one import and one property for each valid store, in the order of the stores
(`importsOf_declarations`, `propertiesOf_declarations`).

The two are tied by the exported name alone. Nothing keeps it from being that of another store, in
another file, and nothing keeps two stores from being called alike by components; so a property has
the type of its own store exactly as long as no names meet: `typesApart_iff`.
-/

namespace StoreBindings

/-! ## What components call a store -/

namespace Store.Metadata

variable {m n : Metadata}

/-- The name that components call a store by, without its sign. -/
def calledName (m : Metadata) : String :=
  match m.binding with
  | some b => if b.toList.head? = some '$' then String.ofList b.toList.tail else b
  | none => String.ofList (Text.lowerFirst (Naming.stem (m.className.getD "").toList))

/-- A binding has one sign in front, whether it had one or not. -/
lemma signed_eq (b : String) :
    signed b = "$" ++ (if b.toList.head? = some '$' then String.ofList b.toList.tail else b) := by
  unfold signed
  split
  · next h =>
    -- the sign that is taken off is put back
    obtain ⟨rest, hrest⟩ := List.head?_eq_some_iff.1 h
    apply String.toList_injective
    rw [hrest, List.tail_cons, String.toList_append, String.toList_ofList (l := rest)]
    rfl
  · rfl

/-- A valid store is bound to the name that components call it by, with the sign. -/
lemma binding_settle (h : m.isValid = true) : m.settle.binding = some ("$" ++ m.calledName) := by
  unfold isValid at h
  simp only [Bool.and_eq_true, Option.isSome_iff_exists] at h
  obtain ⟨⟨⟨className, hclass⟩, -⟩, -⟩ := h
  unfold settle calledName
  dsimp only
  cases m.binding with
  | some b => rw [Option.map_some, Option.some_or, signed_eq]
  | none =>
    rw [hclass]
    refine congrArg some (String.toList_injective ?_)
    simp [Naming.binding]

/-- A valid store is exported under a name. -/
lemma exportName_eq (h : m.isValid = true) : m.exportName = some (m.exportName.getD "") := by
  unfold isValid at h
  simp only [Bool.and_eq_true, Option.isSome_iff_exists] at h
  obtain ⟨⟨-, name, hname⟩, -⟩ := h
  rw [hname, Option.getD_some]

/-- A class and the class of that name with the customary ending are called alike, unless one of them
says otherwise. -/
lemma calledName_eq_of_ending {name : String} (hm : m.binding = none) (hn : n.binding = none)
    (hmname : m.className = some name)
    (hnname : n.className = some (name ++ String.ofList Naming.customaryEnding)) (hname : name ≠ "")
    (hending : ¬Naming.customaryEnding <:+ name.toList) : m.calledName = n.calledName := by
  have hstem : Naming.stem name.toList = name.toList := by
    rw [Naming.stem, if_neg]
    simp [hending]
  have hlonger : Naming.stem (name.toList ++ Naming.customaryEnding) = name.toList := by
    have hlength : 0 < name.toList.length :=
      List.length_pos_iff.2 fun h => hname (String.toList_eq_nil_iff.1 h)
    rw [Naming.stem, if_pos]
    · simp
    · rw [Bool.and_eq_true, List.isSuffixOf_iff_suffix, decide_eq_true_eq, List.length_append]
      exact ⟨List.suffix_append _ _, by omega⟩
  unfold calledName
  rw [hm, hn, hmname, hnname]
  simp [hstem, hlonger]

end Store.Metadata

namespace Generate

open Store (Metadata)

/-! ## Reading lines -/

/-- An import as it is read: a name and the specifier of the module that it comes from. -/
structure Import where
  name : String
  specifier : String
deriving DecidableEq, Repr

/-- A property as it is read: a name and the name of what it has the type of. -/
structure TypedName where
  name : String
  typeOf : String
deriving DecidableEq, Repr

/-- The import of a single name that a line is. -/
def importOf? (line : List Char) : Option Import := do
  let rest ← line.dropPrefix? ("    ".toList ++ "import \x7b ".toList)
  let name := rest.takeWhile (· != ' ')
  let quoted ← (rest.dropWhile (· != ' ')).dropPrefix? (" \x7d from ".toList ++ ['"'])
  let (specifier, _) ← Json.readText quoted
  return ⟨String.ofList name, ← specifier⟩

/-- The property that a line is. A binding can hold all but a new line, so what follows it is looked
for from the end. -/
def propertyOf? (line : List Char) : Option TypedName := do
  let rest ← line.dropPrefix? "        ".toList
  let rest ← rest.reverse.dropPrefix? [';']
  let typeOf := rest.takeWhile (· != ' ')
  let name ← (rest.dropWhile (· != ' ')).dropPrefix? ": typeof ".toList.reverse
  return ⟨String.ofList name.reverse, String.ofList typeOf.reverse⟩

def importsOf (text : String) : List Import := (text.toList.splitOn '\n').filterMap importOf?

def propertiesOf (text : String) : List TypedName :=
  (text.toList.splitOn '\n').filterMap propertyOf?

/-- Lines are read back from a text in which each of them is ended. -/
lemma splitOn_ended {lines : List (List Char)} (h : ∀ l ∈ lines, '\n' ∉ l) :
    (lines.flatMap (· ++ ['\n'])).splitOn '\n' = lines ++ [[]] := by
  induction lines with
  | nil => rfl
  | cons l lines ih =>
    rw [List.forall_mem_cons] at h
    have hl : ∀ c ∈ l, (c == '\n') = false := fun c hc => by
      rw [beq_eq_false_iff_ne]
      rintro rfl
      exact h.1 hc
    rw [List.flatMap_cons, List.append_assoc, List.singleton_append, List.splitOn_eq_splitOnP,
      List.splitOnP_append_cons_of_forall_mem hl _ (beq_self_eq_true _),
      ← List.splitOn_eq_splitOnP, ih h.2, List.cons_append]

/-- What stands before the first blank, and what begins with it. -/
lemma span_blank {cs : List Char} (h : ' ' ∉ cs) (rest : List Char) :
    (cs ++ ' ' :: rest).takeWhile (· != ' ') = cs ∧
      (cs ++ ' ' :: rest).dropWhile (· != ' ') = ' ' :: rest := by
  have hcs : ∀ c ∈ cs, (c != ' ') = true := fun c hc => by
    rw [bne_iff_ne]
    rintro rfl
    exact h hc
  rw [List.takeWhile_append_of_pos hcs, List.dropWhile_append_of_pos hcs]
  simp

namespace Binding

/-- The specifier of the module that a binding is imported from. -/
def specifier (b : Binding) : String := String.ofList (Path.importSpecifier b.path.toList)

/-- The import and the property that a binding is declared by. -/
def toImport (b : Binding) : Import := ⟨b.exportName, b.specifier⟩

def toTypedName (b : Binding) : TypedName := ⟨b.name, b.exportName⟩

/-- The names of a binding can be told from what stands around them: both stand in one line, and the
exported name holds no blank. -/
def IsLegible (b : Binding) : Prop :=
  ' ' ∉ b.exportName.toList ∧ '\n' ∉ b.exportName.toList ∧ '\n' ∉ b.name.toList

instance (b : Binding) : Decidable b.IsLegible := inferInstanceAs (Decidable (_ ∧ _ ∧ _))

/-- The line of the import, without its end. -/
def importChars (b : Binding) : List Char :=
  ("    ".toList ++ "import \x7b ".toList) ++ (b.exportName.toList ++
    ((" \x7d from ".toList ++ ['"']) ++
      (b.specifier.toList.flatMap Text.escape ++ '"' :: ";".toList)))

/-- The line of the property, without its end. -/
def propertyChars (b : Binding) : List Char :=
  "        ".toList ++ (b.name.toList ++ (": typeof ".toList ++ (b.exportName.toList ++ [';'])))

lemma toList_importLine (b : Binding) : b.importLine.toList = b.importChars ++ ['\n'] := by
  have hend : "\n".toList = ['\n'] := by decide
  simp only [importLine, relativeImport, namedImport, importChars, Text.quote, Text.quoted, specifier,
    String.toList_append, String.toList_ofList, String.intercalate_singleton, List.append_assoc,
    List.cons_append, List.nil_append, hend]

lemma toList_propertyLine (b : Binding) : b.propertyLine.toList = b.propertyChars ++ ['\n'] := by
  have hend : ";\n".toList = [';'] ++ ['\n'] := by decide
  unfold propertyLine propertyChars
  simp only [String.toList_append, List.append_assoc, hend]

/-- An import is read back. -/
lemma importOf?_importChars {b : Binding} (h : b.IsLegible) :
    importOf? b.importChars = some b.toImport := by
  have hfrom : ∀ rest, " \x7d from ".toList ++ rest = ' ' :: ("\x7d from ".toList ++ rest) := fun _ =>
    rfl
  unfold importOf? importChars
  rw [List.dropPrefix?_append_of_beq _ (beq_self_eq_true _)]
  simp only [Option.bind_eq_bind, Option.bind_some]
  rw [List.append_assoc, hfrom, (span_blank h.1 _).1, (span_blank h.1 _).2, ← hfrom,
    ← List.append_assoc, List.dropPrefix?_append_of_beq _ (beq_self_eq_true _)]
  simp only [Option.bind_some]
  rw [Text.readText_escaped]
  simp [toImport]

/-- A property is read back. -/
lemma propertyOf?_propertyChars {b : Binding} (h : b.IsLegible) :
    propertyOf? b.propertyChars = some b.toTypedName := by
  have hname : ' ' ∉ b.exportName.toList.reverse := by
    rw [List.mem_reverse]
    exact h.1
  have htype : ": typeof ".toList.reverse = ' ' :: ": typeof".toList.reverse := by decide
  -- the export name is read from the end of the line, up to the last blank
  have hline : (b.name.toList ++ (": typeof ".toList ++ (b.exportName.toList ++ [';']))).reverse =
      [';'] ++ (b.exportName.toList.reverse ++ ' ' :: (": typeof".toList.reverse ++
        b.name.toList.reverse)) := by
    simp only [List.reverse_append, List.append_assoc, htype, List.cons_append]
    rfl
  unfold propertyOf? propertyChars
  rw [List.dropPrefix?_append_of_beq _ (beq_self_eq_true _)]
  simp only [Option.bind_eq_bind, Option.bind_some]
  rw [hline, List.dropPrefix?_append_of_beq _ (beq_self_eq_true _)]
  simp only [Option.bind_some]
  rw [(span_blank hname _).1, (span_blank hname _).2, ← List.cons_append, ← htype,
    List.dropPrefix?_append_of_beq _ (beq_self_eq_true _)]
  simp [toTypedName]

/-- No import is taken for a property. -/
lemma propertyOf?_importChars (b : Binding) : propertyOf? b.importChars = none := rfl

/-- No property is taken for an import. -/
lemma importOf?_propertyChars (b : Binding) : importOf? b.propertyChars = none := rfl

/-- An import stays on its line. -/
lemma feed_not_mem_importChars {b : Binding} (h : b.IsLegible) : '\n' ∉ b.importChars := by
  intro hmem
  unfold importChars at hmem
  rcases List.mem_append.1 hmem with hmem | hmem
  · exact absurd hmem (by decide)
  rcases List.mem_append.1 hmem with hmem | hmem
  · exact h.2.1 hmem
  rcases List.mem_append.1 hmem with hmem | hmem
  · exact absurd hmem (by decide)
  rcases List.mem_append.1 hmem with hmem | hmem
  · exact Text.feed_not_mem_escaped _ hmem
  · exact absurd hmem (by decide)

/-- A property stays on its line. -/
lemma feed_not_mem_propertyChars {b : Binding} (h : b.IsLegible) : '\n' ∉ b.propertyChars := by
  intro hmem
  unfold propertyChars at hmem
  rcases List.mem_append.1 hmem with hmem | hmem
  · exact absurd hmem (by decide)
  rcases List.mem_append.1 hmem with hmem | hmem
  · exact h.2.2 hmem
  rcases List.mem_append.1 hmem with hmem | hmem
  · exact absurd hmem (by decide)
  rcases List.mem_append.1 hmem with hmem | hmem
  · exact h.2.1 hmem
  · exact absurd hmem (by decide)

end Binding

/-! ## Reading the whole text -/

/-- The lines of the declarations. -/
def declarationLines (bs : List Binding) : List (List Char) :=
  "declare module \"@vue/runtime-core\" \x7b".toList :: (bs.map Binding.importChars ++
    "    interface ComponentCustomProperties \x7b".toList :: (bs.map Binding.propertyChars ++
      ["    \x7d".toList, "\x7d".toList, "export \x7b\x7d;".toList]))

/-- The declarations are lines, each of them ended. -/
lemma toList_declarations (stores : List Metadata) : (declarations stores).toList =
    (declarationLines (bindings stores)).flatMap (· ++ ['\n']) := by
  have hfirst : "declare module \"@vue/runtime-core\" \x7b\n".toList =
      "declare module \"@vue/runtime-core\" \x7b".toList ++ ['\n'] := by decide
  have hmiddle : "    interface ComponentCustomProperties \x7b\n".toList =
      "    interface ComponentCustomProperties \x7b".toList ++ ['\n'] := by decide
  have hlast : "    \x7d\n\x7d\nexport \x7b\x7d;\n".toList =
      ["    \x7d".toList, "\x7d".toList, "export \x7b\x7d;".toList].flatMap (· ++ ['\n']) := by decide
  unfold declarations declarationLines
  simp only [String.toList_append, String.toList_join, List.flatMap_cons, List.flatMap_append,
    List.flatMap_map, List.append_assoc, hfirst, hmiddle, hlast, Binding.toList_importLine,
    Binding.toList_propertyLine]

variable {stores : List Metadata}

/-- Their lines are read back. -/
lemma splitOn_declarations (h : ∀ b ∈ bindings stores, b.IsLegible) :
    (declarations stores).toList.splitOn '\n' = declarationLines (bindings stores) ++ [[]] := by
  rw [toList_declarations]
  refine splitOn_ended ?_
  unfold declarationLines
  rw [List.forall_mem_cons, List.forall_mem_append, List.forall_mem_cons, List.forall_mem_append,
    List.forall_mem_map, List.forall_mem_map]
  exact ⟨by decide, fun b hb => Binding.feed_not_mem_importChars (h b hb), by decide,
    fun b hb => Binding.feed_not_mem_propertyChars (h b hb), by decide⟩

/-- What is read off the lines of the declarations, if nothing is read off those that are always
there. -/
lemma filterMap_declarationLines {α : Type} {f : List Char → Option α} (bs : List Binding)
    (h : ∀ l ∈ declarationLines [] ++ [[]], f l = none) :
    (declarationLines bs ++ [[]]).filterMap f =
      bs.filterMap (fun b => f b.importChars) ++ bs.filterMap fun b => f b.propertyChars := by
  simp only [declarationLines, List.map_nil, List.nil_append, List.cons_append, List.forall_mem_cons,
    List.not_mem_nil, false_imp_iff, implies_true, and_true] at h
  obtain ⟨hfirst, hmiddle, hinner, houter, hlast, hempty⟩ := h
  simp only [declarationLines, List.cons_append, List.append_assoc, List.nil_append,
    List.filterMap_append, List.filterMap_cons, List.filterMap_nil, List.filterMap_map,
    Function.comp_def, hfirst, hmiddle, hinner, houter, hlast, hempty, List.append_nil]

variable (h : ∀ b ∈ bindings stores, b.IsLegible)

include h

/-- One import is read for each binding. -/
theorem importsOf_declarations :
    importsOf (declarations stores) = (bindings stores).map Binding.toImport := by
  have himports : (bindings stores).filterMap (fun b => importOf? b.importChars) =
      (bindings stores).map Binding.toImport := by
    rw [← List.filterMap_eq_map]
    exact List.filterMap_congr fun b hb => Binding.importOf?_importChars (h b hb)
  have hproperties : (bindings stores).filterMap (fun b => importOf? b.propertyChars) = [] :=
    List.filterMap_eq_nil_iff.2 fun b _ => b.importOf?_propertyChars
  rw [importsOf, splitOn_declarations h, filterMap_declarationLines _ (by decide), himports,
    hproperties, List.append_nil]

/-- One property is read for each binding. -/
theorem propertiesOf_declarations :
    propertiesOf (declarations stores) = (bindings stores).map Binding.toTypedName := by
  have himports : (bindings stores).filterMap (fun b => propertyOf? b.importChars) = [] :=
    List.filterMap_eq_nil_iff.2 fun b _ => b.propertyOf?_importChars
  have hproperties : (bindings stores).filterMap (fun b => propertyOf? b.propertyChars) =
      (bindings stores).map Binding.toTypedName := by
    rw [← List.filterMap_eq_map]
    exact List.filterMap_congr fun b hb => Binding.propertyOf?_propertyChars (h b hb)
  rw [propertiesOf, splitOn_declarations h, filterMap_declarationLines _ (by decide), himports,
    hproperties, List.nil_append]

omit h

/-! ## Names that meet -/

/-- How a valid store is bound once it is settled. -/
def Binding.ofValid (m : Metadata) : Binding :=
  ⟨m.exportName.getD "", "$" ++ m.calledName, m.fromGenerated⟩

/-- A valid store has a binding. -/
lemma Binding.ofStore?_settle {m : Metadata} (h : m.isValid = true) :
    Binding.ofStore? m.settle = some (Binding.ofValid m) := by
  have hexport : m.settle.exportName = some (m.exportName.getD "") := Metadata.exportName_eq h
  rw [Binding.ofStore?, hexport, Metadata.binding_settle h]
  rfl

/-- The bindings of valid stores that are settled. -/
lemma bindings_settle {found : List Metadata} (h : ∀ m ∈ found, m.isValid = true) :
    bindings (found.map Metadata.settle) = found.map Binding.ofValid := by
  have hvalid : ∀ s ∈ found.map Metadata.settle, s.isValid = true := by
    rw [List.forall_mem_map]
    exact h
  rw [bindings, List.filter_eq_self.2 hvalid, List.filterMap_map, ← List.filterMap_eq_map]
  exact List.filterMap_congr fun m hm => Binding.ofStore?_settle (h m hm)

/-- Valid stores are exported under the names that they are imported by. -/
lemma nodup_exported {found : List Metadata} (h : ∀ m ∈ found, m.isValid = true) :
    (found.map fun m => (Binding.ofValid m).exportName).Nodup ↔
      (found.map Metadata.exportName).Nodup := by
  have hnames : found.map Metadata.exportName =
      (found.map fun m => (Binding.ofValid m).exportName).map some := by
    rw [List.map_map]
    exact List.map_congr_left fun m hm => Metadata.exportName_eq (h m hm)
  rw [hnames, List.nodup_map_iff (Option.some_injective String)]

/-- The sign tells no names apart. -/
lemma nodup_called (found : List Metadata) :
    (found.map fun m => (Binding.ofValid m).name).Nodup ↔ (found.map Metadata.calledName).Nodup := by
  have hnames : found.map (fun m => (Binding.ofValid m).name) =
      (found.map Metadata.calledName).map ("$" ++ ·) := by
    rw [List.map_map]
    rfl
  have hsign : Function.Injective fun name : String => "$" ++ name :=
    fun a b hab => (String.append_right_inj "$").1 hab
  rw [hnames, List.nodup_map_iff hsign]

/-- Under a name that is imported once, one import is found. -/
lemma filter_name_of_nodup {is : List Import} (h : (is.map Import.name).Nodup) {i : Import}
    (hi : i ∈ is) : is.filter (·.name == i.name) = [i] := by
  induction is with
  | nil => cases hi
  | cons j is ih =>
    rw [List.map_cons, List.nodup_cons] at h
    rcases List.mem_cons.1 hi with rfl | hi
    · have hrest : is.filter (·.name == i.name) = [] := by
        rw [List.filter_eq_nil_iff]
        intro k hk hname
        exact h.1 (List.mem_map.2 ⟨k, hk, beq_iff_eq.1 hname⟩)
      rw [List.filter_cons_of_pos (by simp), hrest]
    · have hne : j.name ≠ i.name := fun hname => h.1 (List.mem_map.2 ⟨i, hi, hname.symm⟩)
      rw [List.filter_cons_of_neg (by simpa using hne), ih h.2 hi]

/-- What the declarations must be for each binding to have the type of its own store: no name is
imported twice, no property is declared twice, and the name that a property has the type of is
imported from the file of its store. -/
structure TypesApart (text : String) (stores : List Metadata) : Prop where
  imports : ((importsOf text).map Import.name).Nodup
  properties : ((propertiesOf text).map TypedName.name).Nodup
  own : List.Forall₂ (fun s p => (importsOf text).filter (·.name == p.typeOf) =
    [⟨p.typeOf, String.ofList (Path.importSpecifier s.fromGenerated.toList)⟩]) stores
    (propertiesOf text)

/-- Of valid stores, settled as those of a session are, one import and one property each can be read
in the declarations, and each property has the type of its own store exactly if the exported names
differ, and the names that components call the stores by. -/
theorem typesApart_iff {found : List Metadata} (hvalid : ∀ m ∈ found, m.isValid = true)
    (hlegible : ∀ b ∈ bindings (found.map Metadata.settle), b.IsLegible) :
    let text := declarations (found.map Metadata.settle)
    importsOf text = found.map (fun m => (Binding.ofValid m).toImport) ∧
      propertiesOf text = found.map (fun m => (Binding.ofValid m).toTypedName) ∧
      (TypesApart text (found.map Metadata.settle) ↔
        (found.map Metadata.exportName).Nodup ∧ (found.map Metadata.calledName).Nodup) := by
  intro text
  have himports : importsOf text = found.map fun m => (Binding.ofValid m).toImport := by
    rw [importsOf_declarations hlegible, bindings_settle hvalid, List.map_map]
    rfl
  have hproperties : propertiesOf text = found.map fun m => (Binding.ofValid m).toTypedName := by
    rw [propertiesOf_declarations hlegible, bindings_settle hvalid, List.map_map]
    rfl
  have hexported : ((importsOf text).map Import.name).Nodup ↔
      (found.map Metadata.exportName).Nodup := by
    rw [himports, List.map_map]
    exact nodup_exported hvalid
  have hcalled : ((propertiesOf text).map TypedName.name).Nodup ↔
      (found.map Metadata.calledName).Nodup := by
    rw [hproperties, List.map_map]
    exact nodup_called found
  refine ⟨himports, hproperties, ⟨fun h => ⟨hexported.1 h.imports, hcalled.1 h.properties⟩,
    fun ⟨hexports, hcalls⟩ => ⟨hexported.2 hexports, hcalled.2 hcalls, ?_⟩⟩⟩
  -- a property and an import of one store share the exported name, which is imported once
  have hnodup := hexported.2 hexports
  rw [hproperties, List.forall₂_map_left_iff, List.forall₂_map_right_iff, List.forall₂_same]
  intro m hm
  refine filter_name_of_nodup hnodup (i := (Binding.ofValid m).toImport) ?_
  rw [himports]
  exact List.mem_map_of_mem hm

namespace Sample

/-- What two modules give, each of which declares one store class and exports an instance of it. -/
def extractions (className exportName className' exportName' : String) : List Store.Extraction :=
  let source := fun className exportName =>
    "class " ++ className ++ " extends Store()\x7bget state()\x7breturn\x7b\x7d\x7d\x7dexport const " ++
      exportName ++ "=new " ++ className ++ "()"
  Program.extractions ⟨[.read (.ofString "/a.ts") (source className exportName).toList,
    .read (.ofString "/b.ts") (source className' exportName').toList]⟩
      ⟨.ofString "/", .ofString "/"⟩

/-- The stores of two classes. -/
def valid (es : List Store.Extraction) : List Metadata :=
  (es.flatMap (·.stores)).filter Metadata.isValid

end Sample

/-- Two stores whose names do not meet have the types of their own exports. -/
theorem typesApart_of_two :
    let found := Sample.valid (Sample.extractions "UserStore" "user" "CartStore" "cart")
    (∀ m ∈ found, m.isValid = true) ∧
      (∀ b ∈ bindings (found.map Metadata.settle), b.IsLegible) ∧ found.length = 2 ∧
      TypesApart (declarations (found.map Metadata.settle)) (found.map Metadata.settle) := by
  intro found
  have hvalid : ∀ m ∈ found, m.isValid = true := fun m hm => (List.mem_filter.1 hm).2
  have hread : (∀ b ∈ bindings (found.map Metadata.settle), b.IsLegible) ∧ found.length = 2 ∧
      (found.map Metadata.exportName).Nodup ∧ (found.map Metadata.calledName).Nodup := by
    decide +kernel
  obtain ⟨hlegible, hlength, hnames⟩ := hread
  exact ⟨hvalid, hlegible, hlength, (typesApart_iff hvalid hlegible).2.2.2 hnames⟩

/-- Two files may export their stores under one name. Both bindings then have the type of whatever
that name is. -/
theorem not_typesApart_of_namesakes :
    let stores := Program.stores (Sample.extractions "UserStore" "store" "CartStore" "store")
    importsOf (declarations stores) = [⟨"store", "./a"⟩, ⟨"store", "./b"⟩] ∧
      propertiesOf (declarations stores) = [⟨"$user", "store"⟩, ⟨"$cart", "store"⟩] ∧
      ¬TypesApart (declarations stores) stores := by
  intro stores
  have hread : (∀ b ∈ bindings stores, b.IsLegible) ∧
      (bindings stores).map Binding.toImport = [⟨"store", "./a"⟩, ⟨"store", "./b"⟩] ∧
      (bindings stores).map Binding.toTypedName = [⟨"$user", "store"⟩, ⟨"$cart", "store"⟩] := by
    decide +kernel
  obtain ⟨hlegible, hbound, htyped⟩ := hread
  have himports := (importsOf_declarations hlegible).trans hbound
  have hproperties := (propertiesOf_declarations hlegible).trans htyped
  refine ⟨himports, hproperties, fun h => ?_⟩
  have hnodup := h.imports
  rw [himports] at hnodup
  exact absurd hnodup (by decide)

end Generate

end StoreBindings
