import StoreBindings.Proofs.Boot.Splicing
import StoreBindings.Proofs.Path.Shortest
import StoreBindings.Proofs.Text.Literal

/-!
# The address of the loader

A boot call is given the loader as a text between single quotes, which has to spell an explicit relative
specifier that leads from the directory of the module to the loader: `Addresses`. What stands between the
quotes is the relative path as it is, with `./` in front unless it begins with a point.

Were there an escape in it, the text that it spells would be shorter than the relative path, and nothing
shorter leads to the loader. So the loader is addressed only where nothing in the relative path has to be
escaped, and where the point that it begins with is not that of a name: `addresses_iff`.
-/

namespace StoreBindings

namespace Path

variable {p dir : Path}

/-! ## Specifiers -/

/-- What becomes of a relative path: nothing becomes a point, and `./` is put in front of what does not
begin with a point. -/
lemma specifier_cases (rel : List Char) : rel = [] ∧ specifier rel = ['.'] ∨
    rel.head? = some '.' ∧ specifier rel = rel ∨
      rel.head? ≠ some '.' ∧ specifier rel = '.' :: '/' :: rel := by
  unfold specifier
  split
  · exact .inl ⟨rfl, rfl⟩
  · exact .inr (.inl ⟨rfl, rfl⟩)
  · next hnil hpoint =>
    refine .inr (.inr ⟨fun hhead => ?_, rfl⟩)
    obtain ⟨rest, hrest⟩ := List.head?_eq_some_iff.1 hhead
    exact hpoint rest hrest

lemma isAbsolute_of_head? {cs : List Char} (h : cs.head? = some '.') :
    (⟨cs⟩ : Path).isAbsolute = false := by
  unfold isAbsolute
  rw [h]
  rfl

/-- A point in front means nothing. -/
lemma steps_point (cs : List Char) : (⟨'.' :: '/' :: cs⟩ : Path).steps = (⟨cs⟩ : Path).steps := rfl

lemma relative_specifier (rel : List Char) : (⟨specifier rel⟩ : Path).isAbsolute = false ∧
    (⟨specifier rel⟩ : Path).steps = (⟨rel⟩ : Path).steps := by
  rcases specifier_cases rel with ⟨rfl, h⟩ | ⟨hhead, h⟩ | ⟨-, h⟩
  · exact ⟨rfl, rfl⟩
  · rw [h]
    exact ⟨isAbsolute_of_head? hhead, rfl⟩
  · rw [h]
    exact ⟨rfl, steps_point rel⟩

/-- In a directory only the steps of a relative path count. -/
lemma normalize_join_congr {q r : Path} (hdir : dir.isAbsolute = true) (hq : q.isAbsolute = false)
    (hr : r.isAbsolute = false) (h : q.steps = r.steps) :
    (dir.join q).normalize = (dir.join r).normalize := by
  unfold normalize
  rw [components_join hdir hq, components_join hdir hr, h]

/-- A path in which there is more than slashes and points has a directory. -/
lemma exists_parent?_of_mem (h : p.isAbsolute = true) {c : Char} (hc : c ∈ p.text) (hslash : c ≠ '/')
    (hpoint : c ≠ '.') : ∃ above, p.parent? = some above := by
  refine exists_parent? h fun hnil => ?_
  obtain ⟨piece, hpiece, hmem⟩ := exists_mem_pieces hc hslash
  have hnone := List.filterMap_eq_nil_iff.1 hnil piece hpiece
  have hidle : piece = [] ∨ piece = ['.'] := by
    unfold Component.ofPiece? at hnone
    split at hnone
    · assumption
    · split at hnone <;> cases hnone
  rcases hidle with rfl | rfl
  · cases hmem
  · exact hpoint (List.mem_singleton.1 hmem)

end Path

namespace Boot

open StoreBindings.Path (relativePath specifier)
open Text.Literal (isPlain units unitsOf Reads Spells)

variable {dir loader : Path}

/-! ## Literals that address the loader -/

/-- A specifier shows that it is relative: it is a point or two, or begins with them and a slash. -/
def IsExplicit (v : List Char) : Prop :=
  v = ['.'] ∨ v = ['.', '.'] ∨ ['.', '/'] <+: v ∨ ['.', '.', '/'] <+: v

/-- A literal spells an explicit relative specifier that leads from a directory to the loader. -/
def Addresses (literal : List Char) (dir loader : Path) : Prop :=
  ∃ v, Spells literal v ∧ IsExplicit v ∧ (dir.join ⟨v⟩).normalize = loader.normalize

lemma IsExplicit.head?_eq {v : List Char} (h : IsExplicit v) : v.head? = some '.' := by
  rcases h with rfl | rfl | ⟨rest, rfl⟩ | ⟨rest, rfl⟩ <;> rfl

lemma length_units (cs : List Char) :
    (units cs).length = Path.weight (fun c => (unitsOf c.toNat).length) cs := by
  rw [units, List.length_flatMap]
  rfl

/-- No text that leads to the loader takes fewer units than the relative path. -/
lemma length_units_relativePath_le (hdir : dir.isAbsolute = true) {q : Path}
    (hq : q.isAbsolute = false) (h : (dir.join q).normalize = loader.normalize) {v : List Char}
    (hv : q.steps = (⟨v⟩ : Path).steps) :
    (units (relativePath dir loader)).length ≤ (units v).length := by
  rw [length_units, length_units]
  exact Path.weight_relativePath_le _ hdir hq h hv

/-- The specifier of the relative path, put between quotes, addresses the loader exactly if nothing in the
relative path has to be escaped and it is explicit itself if it begins with a point. -/
theorem addresses_iff (hdir : dir.isAbsolute = true) (hloader : loader.isAbsolute = true) :
    Addresses ('\'' :: (specifier (relativePath dir loader) ++ ['\''])) dir loader ↔
      (∀ c ∈ relativePath dir loader, isPlain c = true) ∧
        ((relativePath dir loader).head? = some '.' → IsExplicit (relativePath dir loader)) := by
  have hspecifier := Path.specifier_cases (relativePath dir loader)
  constructor
  · rintro ⟨v, ⟨body, hbody, hreads⟩, hexplicit, hleads⟩
    obtain rfl : specifier (relativePath dir loader) = body :=
      List.append_cancel_right (List.cons.inj hbody).2
    have hrel := Path.isAbsolute_of_head? hexplicit.head?_eq
    rcases hspecifier with ⟨hnil, -⟩ | ⟨-, hsame⟩ | ⟨hhead, hdot⟩
    · rw [hnil]
      exact ⟨nofun, nofun⟩
    · rw [hsame] at hreads
      obtain ⟨hplain, rfl⟩ :=
        Text.Literal.eq_of_reads hreads (length_units_relativePath_le hdir hrel hleads rfl)
      exact ⟨hplain, fun _ => hexplicit⟩
    · -- what is spelled has `./` in front too, and behind that it leads to the loader as well
      rw [hdot] at hreads
      obtain ⟨v₁, rfl, hreads₁⟩ := Text.Literal.exists_of_reads_cons rfl hreads
      obtain ⟨v₂, rfl, hreads₂⟩ := Text.Literal.exists_of_reads_cons rfl hreads₁
      have hlength := length_units_relativePath_le hdir hrel hleads (Path.steps_point v₂)
      exact ⟨(Text.Literal.eq_of_reads hreads₂ hlength).1, fun h => absurd h hhead⟩
  · rintro ⟨hplain, hexplicit⟩
    -- the specifier stands for the same steps as the relative path, with or without `./`
    obtain ⟨hrel, hsteps⟩ := Path.relative_specifier (relativePath dir loader)
    refine ⟨_, ⟨_, rfl, Text.Literal.reads_of_forall ?_⟩, ?_, ?_⟩
    · rcases hspecifier with ⟨-, h⟩ | ⟨-, h⟩ | ⟨-, h⟩ <;> rw [h]
      · exact List.forall_mem_singleton.2 rfl
      · exact hplain
      · exact List.forall_mem_cons.2 ⟨rfl, List.forall_mem_cons.2 ⟨rfl, hplain⟩⟩
    · rcases hspecifier with ⟨-, h⟩ | ⟨hhead, h⟩ | ⟨-, h⟩ <;> rw [h]
      · exact .inl rfl
      · exact hexplicit hhead
      · exact .inr (.inr (.inl ⟨_, rfl⟩))
    · have hway : (⟨relativePath dir loader⟩ : Path).isAbsolute = false := by
        rw [Path.relativePath_eq]
        exact Path.isAbsolute_joined (Path.isStep_of_mem_way hdir hloader)
      rw [Path.normalize_join_congr hdir hrel hway hsteps]
      exact Path.normalize_join_relativePath hdir hloader

/-! ## The new call -/

/-- The directory that a module is in. -/
def directoryOf (module : Path) : Path := module.parent?.getD ⟨[]⟩

/-- The literal that the loader is given to the boot call as. -/
def loaderLiteral (module loader : Path) : List Char :=
  '\'' :: (specifier (relativePath (directoryOf module) loader) ++ ['\''])

lemma callWithLoader_eq (module loader : Path) : callWithLoader module loader =
    "StoreManager.boot(import.meta.glob(".toList ++ loaderLiteral module loader ++
      ", \x7beager:true\x7d))".toList := by
  unfold callWithLoader loaderLiteral directoryOf
  simp

lemma isEligible_of_addressLoader {code id out : List Char}
    (h : addressLoader code id loader = some out) : isEligible id = true := by
  rw [addressLoader_eq] at h
  split at h
  · next heligible => exact (Bool.and_eq_true_iff.1 heligible).1
  · cases h

/-- The directory of a module that is looked at is spelled from the root if the module is. -/
lemma isAbsolute_directoryOf {id : List Char} (hid : (⟨id⟩ : Path).isAbsolute = true)
    (h : isEligible id = true) : (directoryOf ⟨id⟩).isAbsolute = true := by
  have hsuffix : ".ts".toList <:+ id := List.isSuffixOf_iff_suffix.1 (Bool.and_eq_true_iff.1 h).2
  have hmem : 't' ∈ id := hsuffix.subset (by decide)
  obtain ⟨above, habove⟩ := Path.exists_parent?_of_mem hid hmem (by decide) (by decide)
  rw [directoryOf, habove]
  exact Path.isAbsolute_of_parent? hid habove

/-- The new text of a module that is spelled from the root has a call with a literal for the loader in the
place of each boot call without arguments. The literal addresses the loader exactly if nothing in the
relative path has to be escaped, and the relative path is explicit itself if it begins with a point. -/
theorem addressLoader_addresses_iff {code id out : List Char}
    (hid : (⟨id⟩ : Path).isAbsolute = true) (hloader : loader.isAbsolute = true)
    (h : addressLoader code id loader = some out) :
    let rel := relativePath (directoryOf ⟨id⟩) loader
    out = spliceAll code (bareCalls (rootOf code id))
        ("StoreManager.boot(import.meta.glob(".toList ++ loaderLiteral ⟨id⟩ loader ++
          ", \x7beager:true\x7d))".toList) ∧
      (Addresses (loaderLiteral ⟨id⟩ loader) (directoryOf ⟨id⟩) loader ↔
        (∀ c ∈ rel, isPlain c = true) ∧ (rel.head? = some '.' → IsExplicit rel)) := by
  have heligible := isEligible_of_addressLoader h
  refine ⟨?_, addresses_iff (isAbsolute_directoryOf hid heligible) hloader⟩
  rw [← callWithLoader_eq]
  rw [addressLoader_eq] at h
  split at h
  · rw [addressCalls_eq] at h
    split at h
    · cases h
    · exact (Option.some.inj h).symm
  · cases h

/-- A loader in a directory next to that of the module is addressed. -/
theorem addressLoader_addresses_beside :
    let code := "StoreManager.boot();".toList
    let id := "/app/src/app/setup.ts".toList
    let loader := Path.ofString "/app/src/Stores/Generated/StoreLoader.ts"
    let literal := "'../Stores/Generated/StoreLoader.ts'".toList
    (⟨id⟩ : Path).isAbsolute = true ∧ loader.isAbsolute = true ∧ addressLoader code id loader =
        some ("StoreManager.boot(import.meta.glob(".toList ++ literal ++
          ", \x7beager:true\x7d));".toList) ∧
      Addresses literal (directoryOf ⟨id⟩) loader := by
  intro code id loader literal
  have heval : addressLoader code id loader =
      some ("StoreManager.boot(import.meta.glob(".toList ++ literal ++
        ", \x7beager:true\x7d));".toList) := by decide +kernel
  have hliteral : loaderLiteral ⟨id⟩ loader = literal := by decide +kernel
  have hid : (⟨id⟩ : Path).isAbsolute = true := by decide
  have hloader : loader.isAbsolute = true := by decide
  have hiff := (addressLoader_addresses_iff hid hloader heval).2
  rw [hliteral] at hiff
  have hplain : (relativePath (directoryOf ⟨id⟩) loader).all isPlain = true := by decide +kernel
  have hexplicit : IsExplicit (relativePath (directoryOf ⟨id⟩) loader) :=
    .inr (.inr (.inr (by decide +kernel)))
  exact ⟨hid, hloader, heval, hiff.2 ⟨List.all_eq_true.1 hplain, fun _ => hexplicit⟩⟩

/-- A loader in a directory whose name begins with a point is not addressed explicitly, and one in a
directory with a quote in its name is not addressed at all. -/
theorem addressLoader_not_addresses :
    let code := "StoreManager.boot();\n".toList
    let id := "/app/src/main.ts".toList
    let hidden := Path.ofString "/app/src/.generated/StoreLoader.ts"
    let quoting := Path.ofString "/app/src/it's/StoreLoader.ts"
    let call (literal : List Char) := "StoreManager.boot(import.meta.glob(".toList ++ literal ++
      ", \x7beager:true\x7d));\n".toList
    (⟨id⟩ : Path).isAbsolute = true ∧ hidden.isAbsolute = true ∧ quoting.isAbsolute = true ∧
      addressLoader code id hidden = some (call "'.generated/StoreLoader.ts'".toList) ∧
      ¬Addresses "'.generated/StoreLoader.ts'".toList (directoryOf ⟨id⟩) hidden ∧
      addressLoader code id quoting = some (call "'./it's/StoreLoader.ts'".toList) ∧
      ¬Addresses "'./it's/StoreLoader.ts'".toList (directoryOf ⟨id⟩) quoting := by
  intro code id hidden quoting call
  have hdir : (directoryOf ⟨id⟩).isAbsolute = true := by decide +kernel
  refine ⟨by decide, by decide, by decide, by decide +kernel, fun h => ?_, by decide +kernel, fun h => ?_⟩
  · have hrel : relativePath (directoryOf ⟨id⟩) hidden = ".generated/StoreLoader.ts".toList := by
      decide +kernel
    have hiff := addresses_iff hdir (show hidden.isAbsolute = true by decide)
    rw [hrel] at hiff
    have hexplicit := (hiff.1 h).2 (by decide)
    revert hexplicit
    unfold IsExplicit
    decide
  · have hrel : relativePath (directoryOf ⟨id⟩) quoting = "it's/StoreLoader.ts".toList := by
      decide +kernel
    have hiff := addresses_iff hdir (show quoting.isAbsolute = true by decide)
    rw [hrel] at hiff
    exact absurd (List.all_eq_true.2 (hiff.1 h).1) (by decide)

end Boot

end StoreBindings
