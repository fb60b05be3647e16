import StoreBindings.Proofs.Path.Resolution

/-!
# The way from a directory to a path

`relativePath` takes the common beginning of two normal paths away, goes up over what is left of the
directory and down along what is left of the path. Each `..` takes back one component of the directory,
and in a normal path nothing takes a component back, so the way leads where it should, also from and to
paths that climb above the root: `normalize_join_relativePath`. It is empty only from a path to itself:
`relativePath_eq_nil_iff`.
-/

namespace StoreBindings.Path

variable {p dir : Path} {as bs cs : List Component}

/-! ## Where two paths part -/

/-- A common beginning is left out. -/
lemma diverge_append (cs as bs : List Component) : diverge (cs ++ as) (cs ++ bs) = diverge as bs := by
  induction cs with
  | nil => rfl
  | cons c cs ih =>
    rw [List.cons_append, List.cons_append, diverge, if_pos rfl]
    exact ih

lemma diverge_nil_left (bs : List Component) : diverge [] bs = ([], bs) := by
  cases bs <;> rfl

/-- Two lists are a common beginning and what they diverge into. -/
lemma exists_diverge (as bs : List Component) :
    ∃ cs, as = cs ++ (diverge as bs).1 ∧ bs = cs ++ (diverge as bs).2 := by
  induction as generalizing bs with
  | nil => exact ⟨[], by rw [diverge_nil_left]; exact ⟨rfl, rfl⟩⟩
  | cons a as ih =>
    cases bs with
    | nil => exact ⟨[], rfl, rfl⟩
    | cons b bs =>
      rw [diverge]
      by_cases hab : a = b
      · obtain ⟨cs, has, hbs⟩ := ih bs
        rw [if_pos hab, hab]
        exact ⟨b :: cs, congrArg (b :: ·) has, congrArg (b :: ·) hbs⟩
      · rw [if_neg hab]
        exact ⟨[], rfl, rfl⟩

/-- Only equal lists do not part. -/
lemma diverge_eq_nil_iff : diverge as bs = ([], []) ↔ as = bs := by
  constructor
  · intro h
    obtain ⟨cs, has, hbs⟩ := exists_diverge as bs
    rw [h] at has hbs
    exact has.trans hbs.symm
  · intro h
    have hself := diverge_append bs [] []
    rw [List.append_nil] at hself
    rw [h, hself]
    rfl

/-! ## The steps of the way -/

/-- The components that lead from where the one list ends to where the other one does. -/
def wayBetween (as bs : List Component) : List Component :=
  List.replicate (diverge as bs).1.length .parent ++ (diverge as bs).2

/-- The components that a relative path is made of. -/
def way (dir p : Path) : List Component := wayBetween dir.normalize.components p.normalize.components

/-- The relative path is spelled by the components of the way. -/
lemma relativePath_eq (dir p : Path) : relativePath dir p = joined ((way dir p).map Component.text) := by
  unfold way wayBetween
  rw [List.map_append, List.map_replicate]
  show joined ((diverge dir.normalize.components p.normalize.components).1.map
    (fun _ => Component.text .parent) ++ _) = _
  rw [List.map_const']

/-- From one absolute path to another the root is never left. -/
lemma exists_steps_of_isAbsolute (h : p.isAbsolute = true) :
    ∃ cs, p.normalize.components = .root :: cs ∧ ∀ c ∈ cs, c.IsStep :=
  ⟨_, components_of_isAbsolute ((isAbsolute_normalize p).trans h), fun _ => isStep_of_mem_steps⟩

lemma isStep_of_mem_way (hdir : dir.isAbsolute = true) (hp : p.isAbsolute = true) :
    ∀ c ∈ way dir p, c.IsStep := by
  obtain ⟨as, has, -⟩ := exists_steps_of_isAbsolute hdir
  obtain ⟨bs, hbs, hsteps⟩ := exists_steps_of_isAbsolute hp
  intro c hc
  unfold way wayBetween at hc
  rw [has, hbs, diverge, if_pos rfl] at hc
  rcases List.mem_append.1 hc with hc | hc
  · rw [List.eq_of_mem_replicate hc]
    trivial
  · obtain ⟨cs, -, hdown⟩ := exists_diverge as bs
    apply hsteps
    rw [hdown]
    exact List.mem_append_right _ hc

/-- A relative path that is spelled by steps has these steps. -/
lemma steps_joined (h : ∀ c ∈ cs, c.IsStep) : (⟨joined (cs.map Component.text)⟩ : Path).steps = cs := by
  by_cases hne : cs = []
  · rw [hne]
    rfl
  · rw [steps, pieces_joined_text hne h, filterMap_ofPiece?_text h]

/-- What begins with a part that is not empty is relative. -/
lemma isAbsolute_joined_cons {q : List Char} (hne : q ≠ []) (hslash : '/' ∉ q)
    (qs : List (List Char)) : (⟨joined (q :: qs)⟩ : Path).isAbsolute = false := by
  obtain ⟨d, ds, rfl⟩ := List.exists_cons_of_ne_nil hne
  have hd : d ≠ '/' := fun he => hslash (he ▸ List.mem_cons_self)
  unfold isAbsolute
  cases qs <;> simpa [joined] using hd

/-- So steps spell a relative path. -/
lemma isAbsolute_joined (h : ∀ c ∈ cs, c.IsStep) :
    (⟨joined (cs.map Component.text)⟩ : Path).isAbsolute = false := by
  cases cs with
  | nil => rfl
  | cons c cs =>
    have hc := h c List.mem_cons_self
    exact isAbsolute_joined_cons (text_ne_nil hc) (slash_not_mem_text hc) (cs.map Component.text)

/-! ## The way leads there -/

/-- Going up several times takes back as many components. -/
lemma foldl_replicate_parent (n : Nat) (stack : List Component) :
    (List.replicate n Component.parent).foldl resolveStep stack = up^[n] stack := by
  induction n generalizing stack with
  | zero => rfl
  | succ n ih =>
    rw [List.replicate_succ, List.foldl_cons, Function.iterate_succ_apply]
    exact ih _

/-- Each `..` takes back one component, but not the root. -/
lemma iterate_up_append {taken : List Component} (h : Component.root ∉ taken)
    (stack : List Component) : up^[taken.length] (taken ++ stack) = stack := by
  induction taken with
  | nil => rfl
  | cons c taken ih =>
    have hc : up (c :: taken ++ stack) = taken ++ stack := by
      cases c with
      | root => exact absurd List.mem_cons_self h
      | _ => rfl
    rw [List.length_cons, Function.iterate_succ_apply, hc]
    exact ih fun hmem => h (List.mem_cons_of_mem _ hmem)

/-- Behind any beginning of a normal path the rest of it is read without taking anything back. -/
lemma foldl_resolveStep_of_isNormal (h : p.IsNormal) {front rest : List Component}
    (hp : p.components = .root :: (front ++ rest)) :
    rest.foldl resolveStep (front.reverse ++ [.root]) = (front ++ rest).reverse ++ [.root] := by
  have hstep : ∀ c ∈ front ++ rest, c.IsStep := by
    intro c hc
    rw [components_of_isAbsolute h.1, List.cons.injEq] at hp
    exact isStep_of_mem_steps (p := p) (by rw [hp.2]; exact hc)
  have hup : Component.parent ∉ (front ++ rest).drop 1 := by
    have hnormal := (isNormal_iff h.1).1 h
    rwa [hp, List.drop_succ_cons] at hnormal
  have hnames : ∀ cs, cs ⊆ (front ++ rest).drop 1 → ∀ c ∈ cs, c.IsStep ∧ c ≠ .parent := by
    intro cs hsub c hc
    refine ⟨hstep c (List.mem_of_mem_drop (hsub hc)), fun he => hup ?_⟩
    rw [← he]
    exact hsub hc
  cases front with
  | cons a front =>
    -- everything that is read is behind the first component
    rw [foldl_resolveStep_of_names (hnames rest (List.subset_append_right _ _)), List.reverse_append,
      List.append_assoc]
  | nil =>
    cases rest with
    | nil => rfl
    | cons c rest =>
      -- directly behind the root `..` is kept as a name is
      have hc : resolveStep [.root] c = [c, .root] := by
        have hc := hstep c List.mem_cons_self
        cases c with
        | root => exact hc.elim
        | current => exact hc.elim
        | parent => rfl
        | name n => rfl
      rw [List.foldl_cons]
      show rest.foldl resolveStep (resolveStep [.root] c) = _
      rw [hc, foldl_resolveStep_of_names (hnames rest fun _ hd => hd)]
      simp

/-- The way from a directory to a path, joined to the directory, leads to the path. -/
theorem normalize_join_relativePath (hdir : dir.isAbsolute = true) (hp : p.isAbsolute = true) :
    (dir.join ⟨relativePath dir p⟩).normalize = p.normalize := by
  have hway := isStep_of_mem_way hdir hp
  obtain ⟨as, has, hroot⟩ := exists_steps_of_isAbsolute hdir
  obtain ⟨bs, hbs, -⟩ := exists_steps_of_isAbsolute hp
  obtain ⟨common, hup, hdown⟩ := exists_diverge as bs
  have hdirway : way dir p =
      List.replicate (diverge as bs).1.length .parent ++ (diverge as bs).2 := by
    unfold way wayBetween
    rw [has, hbs, diverge, if_pos rfl]
  have hstack : dir.components.foldl resolveStep [] = as.reverse ++ [.root] := by
    have hresolve := components_normalize dir
    rw [has, resolve] at hresolve
    rw [← List.reverse_reverse (List.foldl _ _ _), ← hresolve, List.reverse_cons]
  -- the way up takes back what the directory does not have in common with the path
  have hback : up^[(diverge as bs).1.length] (as.reverse ++ [.root]) = common.reverse ++ [.root] := by
    have hnot : Component.root ∉ (diverge as bs).1.reverse := by
      intro hmem
      apply hroot .root
      rw [hup]
      exact List.mem_append_right _ (List.mem_reverse.1 hmem)
    have htaken := iterate_up_append hnot (common.reverse ++ [.root])
    rw [List.length_reverse, ← List.append_assoc, ← List.reverse_append, ← hup] at htaken
    exact htaken
  -- and the way down leads on to the path, which is normal
  have hforth : (diverge as bs).2.foldl resolveStep (common.reverse ++ [.root]) =
      bs.reverse ++ [.root] := by
    have hnormal : (diverge as bs).2.foldl resolveStep (common.reverse ++ [.root]) =
        (common ++ (diverge as bs).2).reverse ++ [.root] :=
      foldl_resolveStep_of_isNormal (isNormal_normalize hp) (by rw [hbs, ← hdown])
    rw [hnormal, ← hdown]
  rw [normalize_eq_iff, components_normalize, resolve, relativePath_eq,
    components_join hdir (isAbsolute_joined hway), steps_joined hway, List.foldl_append, hstack,
    hdirway, List.foldl_append, foldl_replicate_parent, hback, hforth, hbs, List.reverse_append,
    List.reverse_reverse]
  rfl

/-- Parts that are not empty are joined to an empty text only if there are none. -/
lemma joined_eq_nil_iff {ps : List (List Char)} (h : ∀ q ∈ ps, q ≠ []) : joined ps = [] ↔ ps = [] := by
  cases ps with
  | nil => simp [joined]
  | cons q ps =>
    have hq := h q List.mem_cons_self
    cases ps with
    | nil => simpa [joined] using hq
    | cons r ps => simp [joined]

/-- The way is empty only from a path to itself. -/
theorem relativePath_eq_nil_iff (hdir : dir.isAbsolute = true) (hp : p.isAbsolute = true) :
    relativePath dir p = [] ↔ dir.normalize = p.normalize := by
  have htext : ∀ q ∈ (way dir p).map Component.text, q ≠ [] := by
    intro q hq
    obtain ⟨c, hc, rfl⟩ := List.mem_map.1 hq
    exact text_ne_nil (isStep_of_mem_way hdir hp c hc)
  rw [relativePath_eq, joined_eq_nil_iff htext, List.map_eq_nil_iff, normalize_eq_iff]
  unfold way wayBetween
  rw [List.append_eq_nil_iff, List.replicate_eq_nil_iff, List.length_eq_zero_iff]
  constructor
  · intro h
    exact diverge_eq_nil_iff.1 (Prod.ext h.1 h.2)
  · intro h
    exact Prod.ext_iff.1 (diverge_eq_nil_iff.2 h)

end StoreBindings.Path
