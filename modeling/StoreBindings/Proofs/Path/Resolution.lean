import Mathlib.Logic.Function.Iterate
import StoreBindings.Proofs.Path.Climbing

/-!
# What a path means by its names alone

From a directory a path leads up a number of times, and from there down by names. That is its `route`,
and it is all that resolving the path depends on: whatever has been read before it, `..` is taken back
or read as often as the route leads up, and the names are put on top (`foldl_steps`).

Where nothing is left that could be taken back, every second `..` takes back the one before it
(`iterate_up`). So the normal form of a path keeps one `..` or none in front of its names, by whether
its route leads up an odd or an even number of times. `normalize_iff` says what this costs: the normal
form of an absolute path is where the path leads, the root being its own parent, exactly if the number is
even, and that of a relative path can stand for it in every directory exactly if the number is one at
most.
-/

namespace StoreBindings.Path

open Files (Place IsName)

/-! ## Routes -/

/-- A way from a directory: so many directories up, and from there down by names. -/
structure Route where
  ups : Nat
  down : Place
deriving DecidableEq, Repr

namespace Route

/-- The way with one more component. The parent of a place that has been gone down to is on the way;
from anywhere else it is one directory further up. -/
def step (r : Route) : Component → Route
  | .root | .current => r
  | .parent => if r.down = [] then { r with ups := r.ups + 1 } else { r with down := r.down.dropLast }
  | .name n => { r with down := r.down ++ [n] }

end Route

/-- The way that a path leads from a directory. -/
def route (p : Path) : Route := p.steps.foldl Route.step ⟨0, []⟩

/-- How many directories a path leads up from where it is read. -/
def climbs (p : Path) : Nat := p.route.ups

/-- Components in which `..` stands in front of names only. -/
def UpsFirst (cs : List Component) : Prop :=
  ∃ (n : Nat) (names : Place), cs = List.replicate n .parent ++ names.map .name

variable {p q dir : Path} {stack stem : List Component} {place : Place}

/-! ## Resolving along a route -/

/-- What reading `..` makes of what has been read before it. -/
def up (stack : List Component) : List Component := resolveStep stack .parent

/-- What following a route makes of what has been read before it. -/
def Route.onto (r : Route) (stack : List Component) : List Component :=
  (r.down.map .name).reverse ++ up^[r.ups] stack

/-- Reading one more component is following the route with that component. -/
lemma resolveStep_onto (r : Route) {c : Component} (hc : c.IsStep) (stack : List Component) :
    resolveStep (r.onto stack) c = (r.step c).onto stack := by
  unfold Route.onto Route.step
  cases c with
  | root => exact hc.elim
  | current => exact hc.elim
  | name n =>
    show Component.name n :: _ = _
    simp
  | parent =>
    by_cases hdown : r.down = []
    · simp only [hdown, if_true, List.map_nil, List.reverse_nil, List.nil_append]
      rw [Function.iterate_succ_apply']
      rfl
    · obtain ⟨front, last, hlast⟩ := (List.eq_nil_or_concat' r.down).resolve_left hdown
      simp [hlast, resolveStep]

/-- Reading components is following their route. -/
lemma foldl_onto {cs : List Component} (h : ∀ c ∈ cs, c.IsStep) (r : Route)
    (stack : List Component) :
    cs.foldl resolveStep (r.onto stack) = (cs.foldl Route.step r).onto stack := by
  induction cs generalizing r with
  | nil => rfl
  | cons c cs ih =>
    rw [List.foldl_cons, List.foldl_cons, resolveStep_onto r (h c List.mem_cons_self)]
    exact ih (fun d hd => h d (List.mem_cons_of_mem _ hd)) _

theorem foldl_steps (p : Path) (stack : List Component) :
    p.steps.foldl resolveStep stack = p.route.onto stack :=
  foldl_onto (fun _ => isStep_of_mem_steps) ⟨0, []⟩ stack

/-- With nothing left to take back, every second `..` takes back the one before it. -/
theorem iterate_up (h : stem = [] ∨ stem = [.root]) (n : Nat) :
    up^[n] stem = List.replicate (n % 2) .parent ++ stem := by
  induction n with
  | zero => rfl
  | succ n ih =>
    rw [Function.iterate_succ_apply', ih]
    rcases Nat.mod_two_eq_zero_or_one n with hn | hn
    · have hn' : (n + 1) % 2 = 1 := by omega
      rw [hn, hn']
      rcases h with rfl | rfl <;> rfl
    · have hn' : (n + 1) % 2 = 0 := by omega
      rw [hn, hn']
      rcases h with rfl | rfl <;> rfl

/-! ## Normal forms -/

/-- The components of a relative path are its steps, behind a leading point if it has one. -/
lemma components_of_relative (h : p.isAbsolute = false) :
    p.components = p.steps ∨ p.components = .current :: p.steps := by
  unfold components steps
  rw [h, if_neg Bool.false_ne_true]
  cases hp : pieces p.text with
  | nil => exact absurd hp (pieces_ne_nil _)
  | cons first more =>
    dsimp only
    unfold Component.ofFirst?
    by_cases hdot : first = ['.']
    · right
      rw [if_pos hdot, List.filterMap_cons_none (by rw [hdot]; rfl)]
      rfl
    · left
      rw [if_neg hdot, List.filterMap_cons]
      cases Component.ofPiece? first <;> rfl

lemma components_normalize_of_isAbsolute (h : p.isAbsolute = true) : p.normalize.components =
    .root :: (List.replicate (p.climbs % 2) .parent ++ p.route.down.map .name) := by
  rw [components_normalize, resolve, components_of_isAbsolute h, List.foldl_cons]
  show (p.steps.foldl resolveStep [.root]).reverse = _
  rw [foldl_steps, Route.onto, iterate_up (.inr rfl)]
  simp [climbs]

lemma components_normalize_of_relative (h : p.isAbsolute = false) : p.normalize.components =
    List.replicate (p.climbs % 2) .parent ++ p.route.down.map .name := by
  have hresolve : resolve p.components = (p.steps.foldl resolveStep []).reverse := by
    rcases components_of_relative h with hp | hp <;> rw [hp] <;> rfl
  rw [components_normalize, hresolve, foldl_steps, Route.onto, iterate_up (.inl rfl)]
  simp [climbs]

lemma normalize_congr_components (h : p.components = q.components) : p.normalize = q.normalize := by
  unfold normalize
  rw [h]

/-- Two paths have one normal form if the normal forms have the same components. -/
lemma normalize_eq_iff : p.normalize = q.normalize ↔ p.normalize.components = q.normalize.components := by
  refine ⟨fun h => by rw [h], fun h => ?_⟩
  rw [components_normalize, components_normalize] at h
  unfold normalize
  rw [h]

/-- Going down a route by names is going from place to place, with the root as its own parent. -/
lemma descend_down (r : Route) (c : Component) : Component.descend r.down c = (r.step c).down := by
  cases c with
  | root => rfl
  | current => rfl
  | name n => rfl
  | parent =>
    show r.down.dropLast = (Route.step r .parent).down
    by_cases hdown : r.down = []
    · simp [Route.step, hdown]
    · simp [Route.step, hdown]

/-- The names that a path leads down by are where it leads from the root. -/
lemma target_eq_down (p : Path) : p.target = p.route.down := by
  have hfold : ∀ (cs : List Component) (r : Route),
      cs.foldl Component.descend r.down = (cs.foldl Route.step r).down := by
    intro cs
    induction cs with
    | nil => exact fun _ => rfl
    | cons c cs ih =>
      intro r
      rw [List.foldl_cons, descend_down]
      exact ih _
  rw [target, foldl_descend]
  exact hfold p.steps ⟨0, []⟩

/-! ## Relative paths in a directory -/

lemma isAbsolute_normalize (p : Path) : p.normalize.isAbsolute = p.isAbsolute := by
  cases h : p.isAbsolute with
  | true => exact (isNormal_normalize h).1
  | false =>
    -- an absolute path begins with the root
    by_contra hnot
    have hroot := components_of_isAbsolute (by simpa using hnot)
    have hmem : Component.root ∈ p.normalize.components := by
      rw [hroot]
      exact List.mem_cons_self
    rw [components_normalize_of_relative h] at hmem
    simp at hmem

/-- `..` in front of names leads up that often and down by the names. -/
lemma foldl_step_upsFirst (n : Nat) (names : Place) :
    (List.replicate n Component.parent ++ names.map Component.name).foldl Route.step ⟨0, []⟩ = ⟨n, names⟩ := by
  have hups : ∀ n k : Nat,
      (List.replicate n Component.parent).foldl Route.step ⟨k, []⟩ = ⟨k + n, []⟩ := by
    intro n
    induction n with
    | zero => exact fun _ => rfl
    | succ n ih =>
      intro k
      rw [List.replicate_succ, List.foldl_cons]
      show (List.replicate n Component.parent).foldl Route.step ⟨k + 1, []⟩ = _
      rw [ih, Nat.add_right_comm, Nat.add_assoc]
  have hnames : ∀ (names front : Place),
      (names.map Component.name).foldl Route.step ⟨n, front⟩ = ⟨n, front ++ names⟩ := by
    intro names
    induction names with
    | nil => intro front; rw [List.append_nil]; rfl
    | cons name names ih =>
      intro front
      show (names.map Component.name).foldl Route.step ⟨n, front ++ [name]⟩ = _
      rw [ih, List.append_assoc]
      rfl
  rw [List.foldl_append, hups, Nat.zero_add, hnames, List.nil_append]

lemma route_normalize (h : p.isAbsolute = false) :
    p.normalize.route = ⟨p.climbs % 2, p.route.down⟩ := by
  have hcomponents := components_normalize_of_relative h
  have hsteps : p.normalize.steps = p.normalize.components := by
    rcases components_of_relative ((isAbsolute_normalize p).trans h) with hp | hp
    · exact hp.symm
    · -- no point is left in front
      have hmem : Component.current ∈ p.normalize.components := by
        rw [hp]
        exact List.mem_cons_self
      rw [hcomponents] at hmem
      simp at hmem
  rw [route, hsteps, hcomponents]
  exact foldl_step_upsFirst _ _

/-- In a directory a relative path is resolved by its route. -/
lemma components_normalize_join (h : dir.isAbsolute = true) (hp : p.isAbsolute = false) :
    (dir.join p).normalize.components = (p.route.onto dir.normalize.components.reverse).reverse := by
  have hdir : dir.components.foldl resolveStep [] = dir.normalize.components.reverse := by
    rw [components_normalize, resolve, List.reverse_reverse]
  rw [components_normalize, resolve, components_join h hp, List.foldl_append, hdir, foldl_steps]

/-- Names below which nothing is climbed are taken back one by one. -/
lemma iterate_up_names {place : Place} {n : Nat} (h : n ≤ place.length) (stack : List Component) :
    up^[n] (place.map .name ++ stack) = (place.drop n).map .name ++ stack := by
  induction n generalizing place with
  | zero => rfl
  | succ n ih =>
    cases place with
    | nil => cases h
    | cons name place =>
      rw [Function.iterate_succ_apply]
      show up^[n] (place.map .name ++ stack) = _
      rw [ih (Nat.le_of_succ_le_succ h)]
      rfl

/-- The normal form of a relative path stands for it in every directory only if it climbs once at
most. -/
lemma forall_normalize_join_iff (hp : p.isAbsolute = false) :
    (∀ dir : Path, dir.isAbsolute = true →
      (dir.join p.normalize).normalize = (dir.join p).normalize) ↔ p.climbs ≤ 1 := by
  have hnormal := (isAbsolute_normalize p).trans hp
  constructor
  · intro hall
    -- a directory that is as deep as the path climbs is left in the one case and not in the other
    let names : Place := List.replicate p.climbs ['a']
    have hname : ∀ n ∈ names, IsName n := by
      intro n hn
      rw [List.eq_of_mem_replicate hn]
      exact ⟨by decide, by decide, by decide, by decide⟩
    have hdir := hall (ofPlace names) (isAbsolute_ofPlace names)
    rw [normalize_eq_iff, components_normalize_join (isAbsolute_ofPlace names) hnormal,
      components_normalize_join (isAbsolute_ofPlace names) hp, List.reverse_inj, route_normalize hp,
      normalize_ofPlace hname, components_ofPlace hname, List.reverse_cons, ← List.map_reverse] at hdir
    have hlength : names.reverse.length = p.climbs := by simp [names]
    have hmod : p.climbs % 2 ≤ p.climbs := Nat.mod_le _ _
    have hstack := List.append_cancel_left hdir
    change up^[p.climbs % 2] _ = up^[p.climbs] _ at hstack
    rw [iterate_up_names (by omega), iterate_up_names (by omega)] at hstack
    have hcount := congrArg List.length hstack
    simp only [List.length_append, List.length_map, List.length_drop, hlength] at hcount
    omega
  · intro hclimbs dir hdir
    have hroute : p.normalize.route = p.route := by
      have hmod : p.climbs % 2 = p.climbs := by omega
      rw [route_normalize hp, hmod]
      rfl
    rw [normalize_eq_iff, components_normalize_join hdir hnormal, components_normalize_join hdir hp,
      hroute]

/-- An absolute path is resolved to where it leads exactly if it climbs from the root an even number
of times, and then no point is left in it. -/
lemma normalize_eq_ofPlace_iff (h : p.isAbsolute = true) :
    (p.normalize = ofPlace p.target ∧
      ∀ c ∈ p.normalize.components, c ≠ .current ∧ c ≠ .parent) ↔ p.climbs % 2 = 0 := by
  have hcomponents := components_normalize_of_isAbsolute h
  constructor
  · intro hmeans
    rcases Nat.mod_two_eq_zero_or_one p.climbs with heven | hodd
    · exact heven
    · -- an odd number of climbs leaves one `..` behind the root
      have hmem : Component.parent ∈ p.normalize.components := by
        rw [hcomponents, hodd]
        simp
      exact absurd rfl (hmeans.2 _ hmem).2
  · intro heven
    rw [heven, List.replicate_zero, List.nil_append, ← target_eq_down] at hcomponents
    refine ⟨?_, fun c hc => ?_⟩
    · rw [normalize, ← components_normalize, hcomponents]
      rfl
    · rw [hcomponents] at hc
      rcases List.mem_cons.1 hc with rfl | hc
      · exact ⟨by simp, by simp⟩
      · obtain ⟨name, -, rfl⟩ := List.mem_map.1 hc
        exact ⟨by simp, by simp⟩

/-- The normal form of an absolute path is where the path leads, with no point left in it, exactly if
the path climbs from the root an even number of times. In the normal form of a relative path `..` stands
in front of names only; it stands for the path in every directory exactly if the path climbs once at
most. -/
theorem normalize_iff (p : Path) :
    (p.isAbsolute = true →
      ((p.normalize = ofPlace p.target ∧
        ∀ c ∈ p.normalize.components, c ≠ .current ∧ c ≠ .parent) ↔ p.climbs % 2 = 0)) ∧
    (p.isAbsolute = false → UpsFirst p.normalize.components ∧
      ((∀ dir : Path, dir.isAbsolute = true →
        (dir.join p.normalize).normalize = (dir.join p).normalize) ↔ p.climbs ≤ 1)) := by
  refine ⟨normalize_eq_ofPlace_iff, fun h => ⟨⟨_, _, components_normalize_of_relative h⟩, ?_⟩⟩
  exact forall_normalize_join_iff h

/-- Paths that climb no further than to where they begin keep their meaning. -/
theorem normalize_of_inside :
    (Path.ofString "/app/../lib/./a.ts").normalize = ofPlace (Path.ofString "/app/../lib/./a.ts").target ∧
      ∀ dir : Path, dir.isAbsolute = true →
        (dir.join (Path.ofString "./b/../../lib").normalize).normalize =
          (dir.join (Path.ofString "./b/../../lib")).normalize := by
  have hfirst := (normalize_iff (.ofString "/app/../lib/./a.ts")).1 (by decide)
  have hsecond := (normalize_iff (.ofString "./b/../../lib")).2 (by decide)
  exact ⟨(hfirst.2 (by decide)).1, hsecond.2.2 (by decide)⟩

/-- Behind the root one `..` is left, and a second `..` takes back the first one. -/
theorem normalize_of_climbing :
    let p := Path.ofString "/.."
    let q := Path.ofString "../.."
    let dir := Path.ofString "/a/b"
    (p.isAbsolute = true ∧ .parent ∈ p.normalize.components ∧ p.normalize ≠ ofPlace p.target) ∧
      q.isAbsolute = false ∧ dir.isAbsolute = true ∧
        (dir.join q.normalize).normalize ≠ (dir.join q).normalize := by
  decide

end StoreBindings.Path
