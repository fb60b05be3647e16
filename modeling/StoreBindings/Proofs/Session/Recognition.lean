import StoreBindings.Proofs.Path.Climbing
import StoreBindings.Proofs.Session.Coherence
import StoreBindings.Proofs.Session.Restart

/-!
# Recognizing generated files

The root of a project and the directory of its stores are resolved when the options are read, and the
paths of what is generated are not: they keep each `..` that the options hold. A path is resolved
before it is compared with the directory of the generated files, so nothing at all is recognized as
generated if that directory is not normal itself (`isGenerated_iff`).

`recognized_iff` says for which options the generated files are normal and recognized: nothing on the
way to them may climb back, and what is spelled from the root has to lie in the directory. What is
recognized is ignored when it changes and is never a source.
-/

namespace StoreBindings

open Files (Tree)

namespace Config

/-- The paths of all that is generated: the directory and the two files. -/
def Project.generatedPaths (p : Project) : List Path := p.generatedDirectory :: p.outputs

/-- A path lies in the directory of the generated files only if that directory is normal. -/
theorem Project.isGenerated_iff {p : Project} (h : p.generatedDirectory.isAbsolute = true)
    {q : Path} (hq : q.isAbsolute = true) : p.isGenerated q = true ↔
      p.generatedDirectory.IsNormal ∧ q.normalize.startsWith p.generatedDirectory = true :=
  ⟨fun hgen => ⟨(Path.isNormal_normalize hq).of_startsWith h hgen, hgen⟩, And.right⟩

/-- A path from the root that is normal itself is compared as it is. -/
lemma Project.isGenerated_of_isNormal (p : Project) {q : Path} (hq : q.IsNormal) :
    p.isGenerated q = q.startsWith p.generatedDirectory := by
  unfold isGenerated Path.startsWith
  rw [hq.components_eq]

namespace Options

variable {o : Options} {root : Path}

/-- The names that the options give to what is generated. -/
def generatedNames (o : Options) : List String := [o.generatedName, o.loaderName, o.declarationsName]

/-- Nothing on the way to the generated files climbs but from the root, and a generated file that is
spelled from the root is spelled as one in the directory of the generated files. -/
structure StaysBelow (o : Options) (root : Path) : Prop where
  climbs : ∀ f ∈ (o.resolve root).generatedPaths, Component.parent ∉ f.components.drop 2
  spelled : ∀ name ∈ [o.loaderName, o.declarationsName], (Path.ofString name).isAbsolute = true →
    (Path.ofString name).startsWith (o.resolve root).generatedDirectory = true

lemma root_resolve (h : root.isAbsolute = true) : (o.resolve root).root.IsNormal := by
  show ((o.projectRoot.map root.join).getD root).normalize.IsNormal
  apply Path.isNormal_normalize
  cases o.projectRoot with
  | none => exact h
  | some p => exact Path.isAbsolute_join_of_isAbsolute h p

lemma storesDirectory_resolve (h : root.isAbsolute = true) :
    (o.resolve root).storesDirectory.IsNormal := by
  apply Path.isNormal_normalize
  exact Path.isAbsolute_join_of_isAbsolute (root_resolve h).1 _

lemma generatedDirectory_resolve (h : root.isAbsolute = true) :
    (o.resolve root).generatedDirectory.isAbsolute = true :=
  Path.isAbsolute_join_of_isAbsolute (storesDirectory_resolve h).1 _

/-- What holds of a file of either name in the directory holds of the two generated files. -/
lemma forall_mem_outputs {motive : Path → Prop} : (∀ out ∈ (o.resolve root).outputs, motive out) ↔
    ∀ name ∈ [o.loaderName, o.declarationsName],
      motive ((o.resolve root).generatedDirectory.joinText name) := by
  simp only [Project.outputs, List.forall_mem_cons, List.not_mem_nil, false_implies, implies_true,
    and_true]
  rfl

lemma isAbsolute_of_mem_generatedPaths (h : root.isAbsolute = true) :
    ∀ f ∈ (o.resolve root).generatedPaths, f.isAbsolute = true := by
  have hdir := generatedDirectory_resolve (o := o) h
  refine List.forall_mem_cons.2 ⟨hdir, forall_mem_outputs.2 fun name _ => ?_⟩
  exact Path.isAbsolute_join_of_isAbsolute hdir _

/-- A file lies in the directory that its name is joined to, unless the name begins at the root. -/
lemma startsWith_joinText_iff {dir : Path} (h : dir.isAbsolute = true) (name : String) :
    (dir.joinText name).startsWith dir = true ↔
      ((Path.ofString name).isAbsolute = true → (Path.ofString name).startsWith dir = true) := by
  by_cases hname : (Path.ofString name).isAbsolute = true
  · rw [Path.joinText, Path.join_of_isAbsolute dir hname]
    exact ⟨fun hstarts _ => hstarts, fun hstarts => hstarts hname⟩
  · have hstarts := Path.startsWith_join h (by simpa using hname)
    exact ⟨fun _ habs => absurd habs hname, fun _ => hstarts⟩

/-- The generated files are normal and recognized exactly if the options lead nowhere else. -/
lemma staysBelow_iff (h : root.isAbsolute = true) :
    (∀ f ∈ (o.resolve root).generatedPaths, f.IsNormal) ∧
      (∀ out ∈ (o.resolve root).outputs, (o.resolve root).isGenerated out = true) ↔
        o.StaysBelow root := by
  have habs := isAbsolute_of_mem_generatedPaths (o := o) h
  have hdir := generatedDirectory_resolve (o := o) h
  have hnormal : (∀ f ∈ (o.resolve root).generatedPaths, f.IsNormal) ↔
      ∀ f ∈ (o.resolve root).generatedPaths, Component.parent ∉ f.components.drop 2 :=
    forall₂_congr fun f hf => Path.isNormal_iff (habs f hf)
  -- the files are compared with the directory as they are spelled
  have hspelled (hall : ∀ f ∈ (o.resolve root).generatedPaths, f.IsNormal) :
      (∀ out ∈ (o.resolve root).outputs, (o.resolve root).isGenerated out = true) ↔
        ∀ name ∈ [o.loaderName, o.declarationsName], (Path.ofString name).isAbsolute = true →
          (Path.ofString name).startsWith (o.resolve root).generatedDirectory = true := by
    have hcompare : (∀ out ∈ (o.resolve root).outputs, (o.resolve root).isGenerated out = true) ↔
        ∀ out ∈ (o.resolve root).outputs,
          out.startsWith (o.resolve root).generatedDirectory = true := by
      refine forall₂_congr fun out hout => ?_
      rw [(o.resolve root).isGenerated_of_isNormal (hall out (List.mem_cons_of_mem _ hout))]
    rw [hcompare, forall_mem_outputs]
    exact forall₂_congr fun name _ => startsWith_joinText_iff hdir name
  constructor
  · intro ⟨hall, hgen⟩
    exact ⟨hnormal.1 hall, (hspelled hall).1 hgen⟩
  · intro ⟨hclimbs, hnames⟩
    exact ⟨hnormal.2 hclimbs, (hspelled (hnormal.2 hclimbs)).2 hnames⟩

/-- Relative names without `..` lead nowhere else. -/
lemma staysBelow_of_forall (h : root.isAbsolute = true) (hnames : ∀ name ∈ o.generatedNames,
    (Path.ofString name).isAbsolute = false ∧ Component.parent ∉ (Path.ofString name).steps) :
    o.StaysBelow root := by
  obtain ⟨⟨hrel, hup⟩, hfiles⟩ := List.forall_mem_cons.1 hnames
  have hdir : (o.resolve root).generatedDirectory.IsNormal :=
    (storesDirectory_resolve h).join hrel hup
  refine ⟨List.forall_mem_cons.2 ⟨(Path.isNormal_iff hdir.1).1 hdir, forall_mem_outputs.2 ?_⟩, ?_⟩
  · intro name hname
    obtain ⟨hrel, hup⟩ := hfiles name hname
    have hfile := hdir.join hrel hup
    exact (Path.isNormal_iff hfile.1).1 hfile
  · intro name hname habs
    rw [(hfiles name hname).1] at habs
    cases habs

end Options

end Config

namespace Session

open Config (Options)

variable {p : Config.Project} {q : Path}

/-- A change of a file that is not followed leaves everything as it is. -/
lemma handle_of_not_isFollowed {s : Session} (h : ¬ s.IsFollowed q.normalize) (t : Tree)
    (change : Change) : s.handle t change q = ⟨.ok .ignored, s, t⟩ := by
  have hhandled := handled s t change q
  generalize s.handle t change q = step at hhandled ⊢
  cases hhandled with
  | ignored => rfl
  | unchanged hp | failed hp | rebuilt hp | gone hp | found hp => exact absurd hp h

/-- A change is ignored exactly if it is none of a file that is followed. -/
lemma handle_ignored_iff (s : Session) (t : Tree) (change : Change) (q : Path) :
    (s.handle t change q).result = .ok .ignored ↔ ¬ s.IsFollowed q.normalize := by
  refine ⟨fun hresult hp => ?_, fun h => by rw [handle_of_not_isFollowed h]⟩
  have hhandled := handled s t change q
  generalize s.handle t change q = step at hhandled hresult
  cases hhandled with
  | ignored h => exact h hp
  | rebuilt =>
    obtain ⟨r, hr⟩ := exists_of_rebuiltStep_isOk (by rw [hresult]; rfl)
    rw [rebuiltStep, hr] at hresult
    cases hresult
  | unchanged | failed | gone | found => cases hresult

/-- A generated file is no source. -/
lemma not_same_of_mem_sources {t : Tree} {c : Config.Compiler} {sources : List Path}
    (hq : p.isGenerated q = true) (h : p.sources t c = .ok sources) :
    ∀ f ∈ sources, f.same q.normalize = false := by
  intro f hf
  have hf := Program.isGenerated_of_mem_sources h hf
  rw [← p.isGenerated_normalize] at hq
  exact beq_eq_false_iff_ne.2 (Config.Project.components_ne_of_isGenerated hf hq)

/-- The root of a project and the directory of its stores are normal, and all that is generated is
spelled from the root. The generated files are normal and recognized exactly if the options stay below
the directory that they are put in, as relative names without `..` do. A file is recognized only if
that directory is normal; then a change of it is ignored, and it is never a source. -/
theorem recognized_iff (o : Options) {root : Path} (hroot : root.isAbsolute = true) :
    let p := o.resolve root
    (p.root.IsNormal ∧ p.storesDirectory.IsNormal ∧ ∀ f ∈ p.generatedPaths, f.isAbsolute = true) ∧
    ((∀ f ∈ p.generatedPaths, f.IsNormal) ∧ (∀ out ∈ p.outputs, p.isGenerated out = true) ↔
      o.StaysBelow root) ∧
    ((∀ name ∈ o.generatedNames, (Path.ofString name).isAbsolute = false ∧
      Component.parent ∉ (Path.ofString name).steps) → o.StaysBelow root) ∧
    ∀ q : Path, q.isAbsolute = true →
      (p.isGenerated q = true ↔ p.generatedDirectory.IsNormal ∧
        q.normalize.startsWith p.generatedDirectory = true) ∧
      (p.isGenerated q = true →
        (∀ (s : Session) t change, s.project = p → s.handle t change q = ⟨.ok .ignored, s, t⟩) ∧
        ∀ t c sources, p.sources t c = .ok sources → ∀ f ∈ sources, f.same q.normalize = false) := by
  refine ⟨⟨Options.root_resolve hroot, Options.storesDirectory_resolve hroot,
    Options.isAbsolute_of_mem_generatedPaths hroot⟩, Options.staysBelow_iff hroot,
    Options.staysBelow_of_forall hroot, fun q hq => ⟨?_, fun hgen => ⟨?_, ?_⟩⟩⟩
  · exact Config.Project.isGenerated_iff (Options.generatedDirectory_resolve hroot) hq
  · intro s t change hs
    refine handle_of_not_isFollowed (fun hp => ?_) t change
    have hnot := hp.1
    rw [Config.Project.isGenerated_normalize, hs, hgen] at hnot
    cases hnot
  · intro t c sources hsources
    exact not_same_of_mem_sources hgen hsources

end Session

namespace Sample

/-- Options that lead to the directory of the generated files by way of the directory above. -/
def climbing : Config.Options := { Config.Options.default with generatedName := "../Stores/Generated" }

/-- The project that these options lay out. -/
def climbed : Config.Project := climbing.resolve (.ofString "/app")

/-- The files of a project of which nothing but the loader is left. -/
def abandoned : Tree :=
  ⟨.ofList [
    (["app".toList], .directory),
    (["app", "tsconfig.json"].map String.toList, .file "\x7b\"include\":[\"src\"]\x7d".toUTF8),
    (["app", "src"].map String.toList, .directory),
    (["app", "src", "Stores"].map String.toList, .directory),
    (["app", "src", "Stores", "Generated"].map String.toList, .directory),
    (["app", "src", "Stores", "Generated", "StoreLoader.ts"].map String.toList, .file "".toUTF8)]⟩

end Sample

namespace Session

/-- With the default options the generated files are recognized, and no change of them is followed. -/
theorem recognized_of_default : Path.isAbsolute (.ofString "/app") = true ∧
    let p := Config.Options.default.resolve (.ofString "/app")
    (∀ f ∈ p.generatedPaths, f.IsNormal) ∧
    ∀ out ∈ p.outputs, p.isGenerated out = true ∧
      ∀ (s : Session) t change, s.project = p → s.handle t change out = ⟨.ok .ignored, s, t⟩ := by
  have hroot : Path.isAbsolute (.ofString "/app") = true := by decide
  obtain ⟨⟨-, -, habs⟩, hiff, hnames, hchange⟩ := recognized_iff Config.Options.default hroot
  obtain ⟨hnormal, hgen⟩ := hiff.2 (hnames (by decide +kernel))
  refine ⟨hroot, hnormal, fun out hout => ⟨hgen out hout, ?_⟩⟩
  exact ((hchange out (habs out (List.mem_cons_of_mem _ hout))).2 (hgen out hout)).1

/-- With a `..` in the name of the directory none of the generated paths is normal and none of the
generated files is recognized. No change of them is ignored, and a loader that is there is a source. -/
theorem not_recognized_of_climbing :
    (∀ f ∈ Sample.climbed.generatedPaths, ¬ f.IsNormal) ∧
    (∀ out ∈ Sample.climbed.outputs, Sample.climbed.isGenerated out = false ∧
      ∀ (s : Session) t change, s.project = Sample.climbed →
        (s.handle t change out).result ≠ .ok .ignored) ∧
    ∃ c, Config.Compiler.load Sample.abandoned Sample.climbed.root = .ok c ∧
      Sample.climbed.sources Sample.abandoned c = .ok [Sample.climbed.loader.normalize] := by
  have hgen : ∀ out ∈ Sample.climbed.outputs, Sample.climbed.isGenerated out = false ∧
      Sample.climbed.isGenerated out.normalize = false ∧
      Sample.climbed.isInStores out.normalize = true := by decide +kernel
  have heval : ((Config.Compiler.load Sample.abandoned Sample.climbed.root).toOption.any fun c =>
      (Sample.climbed.sources Sample.abandoned c).toOption.any fun sources =>
        decide (sources = [Sample.climbed.loader.normalize])) = true := by
    decide +kernel
  obtain ⟨c, hc, h⟩ := exists_of_toOption_any heval
  obtain ⟨sources, hsources, h⟩ := exists_of_toOption_any h
  rw [decide_eq_true_eq] at h
  refine ⟨by decide +kernel, fun out hout => ⟨(hgen out hout).1, ?_⟩, c, hc, h ▸ hsources⟩
  intro s t change hs hignored
  obtain ⟨-, hnot, hin⟩ := hgen out hout
  exact (handle_ignored_iff s t change out).1 hignored ⟨hs ▸ hnot, hs ▸ hin⟩

end Session

end StoreBindings
