import StoreBindings.Proofs.Glob.Growth
import StoreBindings.Proofs.Glob.Matching

/-!
# What a walk finds

A walk takes a pattern part by part and a tree name by name. Where each part is a name, or has wildcards
that do not match the points (`isStraight`), the files that the walk finds are those the names of which
the parts describe: `mem_paths_iff`.

The proof goes through the four ways in which a walk goes on, each from the others with less fuel
(`findsFiles_enter` and so on), and `findsFiles_walk` puts them together.
-/

namespace StoreBindings.Glob

open Files (Tree Place IsName)

/-- The part is a name, or its wildcards match neither of the points. -/
def isStraight (p : Pattern) : Bool :=
  match literal? p with
  | some name => decide (IsName name)
  | none => !(p.head? = some (.char '.') && (matchesText p ['.'] || matchesText p ['.', '.']))

/-- What the names that begin with those of a place are described by, and what of it is found. -/
def FindsFiles (t : Tree) (found : List Path) (place : Place) (good : List (List Char) → Prop) : Prop :=
  ∀ r, t.isFile r = true → (r ∈ found ↔
    ∃ names, (∀ n ∈ names, IsName n) ∧ r = Path.ofPlace (place ++ names) ∧ good names)

namespace Search

variable {s : Search} {t : Tree} {p : Pattern} {rest ps : List Pattern} {place : Place}
  {name : List Char} {fuel : Nat}

/-- A name is not `**`. -/
lemma not_isRecursive_of_literal? (h : literal? p = some name) : isRecursive p = false := by
  rw [literal?_eq_some_iff.1 h]
  exact isRecursive_chars name

/-- A part that is a name matches this name only. -/
lemma matchesText_of_literal? (h : literal? p = some name) {cs : List Char} :
    matchesText p cs = true ↔ cs = name := by
  rw [literal?_eq_some_iff.1 h]
  exact matchesText_chars_iff

/-- Behind a name that matches the first part the names go on as the other parts say. -/
lemma matchesNames_cons_cons_iff (hp : isRecursive p = false) {names : List (List Char)} :
    matchesNames (p :: rest) (name :: names) = true ↔
      matchesText p name = true ∧ matchesNames rest names = true := by
  rw [matchesNames_cons_single hp]
  constructor
  · rintro ⟨name', more, heq, h⟩
    obtain ⟨rfl, rfl⟩ := List.cons.inj heq
    exact h
  · exact fun h => ⟨name, names, rfl, h⟩

/-- Parts that all go down describe no file. -/
lemma matchesNames_of_afterRecursive_nil (h : afterRecursive ps = []) {names : List (List Char)}
    (hne : names ≠ []) : matchesNames ps names = false := by
  induction ps generalizing names with
  | nil => simpa [matchesNames] using hne
  | cons p ps ih =>
    rw [afterRecursive] at h
    split at h
    · next hp =>
      rw [← Bool.not_eq_true, matchesNames_cons_recursive hp]
      rintro ⟨more, -, hmore, hmatch⟩
      rw [ih h hmore] at hmatch
      cases hmatch
    · cases h

/-- Several parts that go down in a row go down as one. -/
lemma matchesNames_afterRecursive (hp : isRecursive p = true) {q : Pattern} {more : List Pattern}
    (h : afterRecursive ps = q :: more) {names : List (List Char)} :
    matchesNames (p :: ps) names = true ↔ matchesNames (p :: q :: more) names = true := by
  -- one recursive part more covers no other names
  induction ps generalizing names with
  | nil => cases h
  | cons p' ps ih =>
    rw [afterRecursive] at h
    split at h
    · next hp' =>
      have hsame : p' = p := (isRecursive_iff.1 hp').trans (isRecursive_iff.1 hp).symm
      rw [matchesNames_cons_recursive hp]
      constructor
      · rintro ⟨rest, hrest, -, hmatch⟩
        rw [hsame, ih h, matchesNames_cons_recursive hp] at hmatch
        obtain ⟨rest', hrest', hne, hmatch⟩ := hmatch
        exact (matchesNames_cons_recursive hp).2 ⟨rest', hrest'.trans hrest, hne, hmatch⟩
      · intro hmatch
        refine ⟨names, List.suffix_refl _, ne_nil_of_matchesNames hmatch, ?_⟩
        rw [hsame]
        exact (ih h).2 hmatch
    · rw [h]

/-- What is left begins with another part than `**`. -/
lemma not_isRecursive_of_afterRecursive {q : Pattern} {more : List Pattern}
    (h : afterRecursive ps = q :: more) : isRecursive q = false := by
  induction ps with
  | nil => cases h
  | cons p ps ih =>
    rw [afterRecursive] at h
    split at h
    · exact ih h
    · next hp =>
      obtain ⟨rfl, -⟩ := List.cons.inj h
      simpa using hp

/-- `**` describes the names from here, or from further down. -/
lemma matchesNames_recursive_cons (hp : isRecursive p = true) {names : List (List Char)} :
    matchesNames (p :: ps) (name :: names) = true ↔
      matchesNames ps (name :: names) = true ∨ matchesNames (p :: ps) names = true := by
  rw [matchesNames_cons_recursive hp, matchesNames_cons_recursive hp]
  constructor
  · rintro ⟨more, hmore, hne, hmatch⟩
    rcases List.suffix_cons_iff.1 hmore with rfl | hmore
    · exact .inl hmatch
    · exact .inr ⟨more, hmore, hne, hmatch⟩
  · rintro (hmatch | ⟨more, hmore, hne, hmatch⟩)
    · exact ⟨_, List.suffix_refl _, by simp, hmatch⟩
    · exact ⟨more, hmore.trans (List.suffix_cons name names), hne, hmatch⟩

/-! ## One way from the others -/

/-- A file that is spelled from the root is at the place that spells it. -/
lemma isSome_of_isFile (hnames : ∀ n ∈ place, IsName n) (h : t.isFile (Path.ofPlace place) = true) :
    (t.at? place).isSome = true := by
  have hthere := Tree.isThere_of_isFile h
  rwa [Tree.isThere, Path.target_ofPlace hnames] at hthere

lemma forall_isName_append {names : Place} (h : ∀ n ∈ place, IsName n)
    (h' : ∀ n ∈ names, IsName n) : ∀ n ∈ place ++ names, IsName n :=
  List.forall_mem_append.2 ⟨h, h'⟩

/-- Each part is straight, and has no slash in it. -/
def Straight (ps : List Pattern) : Prop := ∀ p ∈ ps, isStraight p = true ∧ .char '/' ∉ p

lemma Straight.tail (h : Straight (p :: rest)) : Straight rest :=
  fun q hq => h q (List.mem_cons_of_mem _ hq)

/-- A straight part without wildcards is a name. -/
lemma Straight.isName (h : Straight (p :: rest)) (hlit : literal? p = some name) : IsName name := by
  have hp := (h p List.mem_cons_self).1
  rw [isStraight, hlit] at hp
  exact of_decide_eq_true hp

/-- Wildcards of a straight part do not match the points. -/
lemma Straight.not_point (h : Straight (p :: rest)) (hlit : literal? p = none) :
    (p.head? = some (.char '.') && matchesText p ['.']) = false ∧ leadsUp p = false := by
  have hp := (h p List.mem_cons_self).1
  rw [isStraight, hlit] at hp
  unfold leadsUp
  revert hp
  cases decide (p.head? = some (.char '.')) <;> cases matchesText p ['.'] <;>
    cases matchesText p ['.', '.'] <;> simp

/-- A way of walking into a place finds the files that are described from there, if it has room
enough. -/
def FindsIn (t : Tree) (extra fuel : Nat) (walk : List Pattern → Path → List Path)
    (good : List Pattern → List (List Char) → Prop) : Prop :=
  ∀ ps place, Straight ps → (∀ n ∈ place, IsName n) → (t.at? place).isSome = true →
    room t ps (Path.ofPlace place) + extra < fuel →
    FindsFiles t (walk ps (Path.ofPlace place)) place (good ps)

/-- A way of walking on with the name of a place finds the files that are described from that name
on. -/
def FindsAt (t : Tree) (extra fuel : Nat) (walk : List Pattern → Path → List Path)
    (good : List Pattern → List Char → List (List Char) → Prop) : Prop :=
  ∀ ps place name, Straight ps → (∀ n ∈ place ++ [name], IsName n) →
    (t.at? (place ++ [name])).isSome = true →
    room t ps (Path.ofPlace (place ++ [name])) + extra < fuel →
    FindsFiles t (walk ps (Path.ofPlace (place ++ [name]))) (place ++ [name]) (good ps name)

/-- What is described from a place whose names go on with a given one. -/
lemma exists_cons_iff {good : List (List Char) → Prop} {r : Path} (hname : IsName name) :
    (∃ names, (∀ n ∈ names, IsName n) ∧ r = Path.ofPlace (place ++ [name] ++ names) ∧ good names) ↔
      ∃ names, (∀ n ∈ name :: names, IsName n) ∧ r = Path.ofPlace (place ++ name :: names) ∧
        good names := by
  refine exists_congr fun names => ?_
  rw [List.append_assoc, List.singleton_append, List.forall_mem_cons, and_iff_right hname]

/-- A place below another one is closer to the end of every way. -/
lemma room_ofPlace (hu : t.Proper) (hnext : ∀ n ∈ place ++ [name], IsName n)
    (hsome : (t.at? (place ++ [name])).isSome = true) (ps : List Pattern) :
    room t ps (Path.ofPlace (place ++ [name])) + 4 = room t ps (Path.ofPlace place) := by
  have htarget : (Path.ofPlace (place ++ [name])).target = (Path.ofPlace place).target ++ [name] := by
    rw [Path.target_ofPlace hnext,
      Path.target_ofPlace fun n hn => hnext n (List.mem_append_left _ hn)]
  exact room_child hu (hu.reaches_ofPlace hnext hsome) htarget ps

/-- A part that is a name leads to the place below, if anything is there. -/
lemma mem_enter_literal_iff (hu : t.Proper) (hplace : ∀ n ∈ place, IsName n)
    (hthere : (t.at? place).isSome = true) (hlit : literal? p = some name) (hname : IsName name)
    {r : Path} : r ∈ s.enter t (fuel + 1) (p :: rest) (Path.ofPlace place) ↔
      (t.at? (place ++ [name])).isSome = true ∧
        r ∈ s.proceed t fuel rest (Path.ofPlace (place ++ [name])) := by
  have htext := Tree.text_ne_nil_of_reaches (hu.reaches_ofPlace hplace hthere)
  have hnext : ∀ n ∈ place ++ [name], IsName n := forall_isName_append hplace (by simpa using hname)
  have hreach : t.reaches (Path.ofPlace (place ++ [name])) = (t.at? (place ++ [name])).isSome := by
    rw [Bool.eq_iff_iff, Tree.reaches_iff, Path.target_ofPlace hnext]
    exact ⟨And.right, fun hsome => ⟨hu.locate_ofPlace hnext hsome, hsome⟩⟩
  rw [enter_literal hu htext hlit hname.2.2.2, Path.join_ofPlace hplace hname, hreach]
  split
  · next hsome => rw [and_iff_right hsome]
  · next hsome => simp [hsome]

/-- A part with wildcards is matched against the name of each place below. -/
lemma mem_enter_wild_iff (hu : t.Proper) (hplace : ∀ n ∈ place, IsName n)
    (hps : Straight (p :: rest)) (hlit : literal? p = none) {r : Path} :
    r ∈ s.enter t (fuel + 1) (p :: rest) (Path.ofPlace place) ↔
      ∃ name, IsName name ∧ (t.at? (place ++ [name])).isSome = true ∧
        r ∈ s.visit t fuel (p :: rest) (Path.ofPlace (place ++ [name])) := by
  obtain ⟨hpoint, hup⟩ := hps.not_point hlit
  rw [enter_wild hlit hup, hpoint, if_neg Bool.false_ne_true, List.nil_append]
  constructor
  · intro hmem
    split at hmem
    · next hisdir =>
      rw [contents_of_isDirectory hisdir, Path.target_ofPlace hplace] at hmem
      obtain ⟨child, hchild, hmem⟩ := List.mem_flatMap.1 hmem
      obtain ⟨name, hin, rfl⟩ := List.mem_map.1 hchild
      obtain ⟨hname, hsome⟩ := hu.mem_namesIn hin
      rw [Path.join_ofPlace hplace hname] at hmem
      exact ⟨name, hname, hsome, hmem⟩
    · cases hmem
  · rintro ⟨name, hname, hsome, hmem⟩
    have hisdir := hu.isDirectory_ofPlace hplace (hu.entry hsome).2
    rw [if_pos hisdir, contents_of_isDirectory hisdir, Path.target_ofPlace hplace]
    have hin : name ∈ t.namesIn place :=
      Tree.mem_namesIn_iff.2 ((Tree.mem_keys_iff (by simp)).2 hsome)
    rw [← Path.join_ofPlace hplace hname] at hmem
    exact List.mem_flatMap.2 ⟨_, List.mem_map.2 ⟨name, hin, rfl⟩, hmem⟩

/-- On the way to a file something is at each place. -/
lemma isSome_of_isFile_below (hu : t.Proper) (hplace : ∀ n ∈ place, IsName n) {names : Place}
    (hnames : ∀ n ∈ name :: names, IsName n)
    (h : t.isFile (Path.ofPlace (place ++ name :: names)) = true) :
    (t.at? (place ++ [name])).isSome = true :=
  hu.isSome_of_prefix ⟨names, by simp⟩ (isSome_of_isFile (forall_isName_append hplace hnames) h)

/-- A name is entered if what is there is. -/
lemma findsIn_enter_literal (hu : t.Proper)
    (hproceed : FindsIn t 1 fuel (s.proceed t fuel) fun ps names => matchesNames ps names = true)
    (hps : Straight (p :: rest)) (hplace : ∀ n ∈ place, IsName n) (hthere : (t.at? place).isSome = true)
    (hlit : literal? p = some name) (hroom : room t rest (Path.ofPlace place) < fuel + 1) :
    FindsFiles t (s.enter t (fuel + 1) (p :: rest) (Path.ofPlace place)) place
      fun names => matchesNames (p :: rest) names = true := by
  intro r hr
  have hname := hps.isName hlit
  have hp := not_isRecursive_of_literal? hlit
  have hnext : ∀ n ∈ place ++ [name], IsName n := forall_isName_append hplace (by simpa using hname)
  have hbehind : (t.at? (place ++ [name])).isSome = true →
      (r ∈ s.proceed t fuel rest (Path.ofPlace (place ++ [name])) ↔ _) := fun hsome => by
    have hle := room_ofPlace hu hnext hsome rest
    exact (hproceed rest _ hps.tail hnext hsome (by omega) r hr).trans (exists_cons_iff hname)
  rw [mem_enter_literal_iff hu hplace hthere hlit hname]
  constructor
  · rintro ⟨hsome, hmem⟩
    obtain ⟨names, hnames, hr', hmatch⟩ := (hbehind hsome).1 hmem
    refine ⟨name :: names, hnames, hr', ?_⟩
    exact (matchesNames_cons_cons_iff hp).2 ⟨(matchesText_of_literal? hlit).2 rfl, hmatch⟩
  · rintro ⟨names, hnames, hr', hmatch⟩
    obtain ⟨name', more, rfl, hname', hmore⟩ := (matchesNames_cons_single hp).1 hmatch
    obtain rfl := (matchesText_of_literal? hlit).1 hname'
    have hsome := isSome_of_isFile_below hu hplace hnames (hr' ▸ hr)
    exact ⟨hsome, (hbehind hsome).2 ⟨more, hnames, hr', hmore⟩⟩

/-- Wildcards are matched with all names in a directory. -/
lemma findsIn_enter_wild (hu : t.Proper)
    (hvisit : FindsAt t 2 fuel (s.visit t fuel) fun ps name names =>
      matchesNames ps (name :: names) = true)
    (hps : Straight (p :: rest)) (hplace : ∀ n ∈ place, IsName n) (hlit : literal? p = none)
    (hroom : room t (p :: rest) (Path.ofPlace place) < fuel + 1) :
    FindsFiles t (s.enter t (fuel + 1) (p :: rest) (Path.ofPlace place)) place
      fun names => matchesNames (p :: rest) names = true := by
  intro r hr
  -- the name of the entry is the first of those that the pattern describes
  have hbehind : ∀ {name : List Char}, IsName name → (t.at? (place ++ [name])).isSome = true →
      (r ∈ s.visit t fuel (p :: rest) (Path.ofPlace (place ++ [name])) ↔
        ∃ names, (∀ n ∈ name :: names, IsName n) ∧ r = Path.ofPlace (place ++ name :: names) ∧
          matchesNames (p :: rest) (name :: names) = true) := by
    intro name hname hsome
    have hnext : ∀ n ∈ place ++ [name], IsName n := forall_isName_append hplace (by simpa using hname)
    have hle := room_ofPlace hu hnext hsome (p :: rest)
    exact (hvisit _ _ _ hps hnext hsome (by omega) r hr).trans (exists_cons_iff hname)
  rw [mem_enter_wild_iff hu hplace hps hlit]
  constructor
  · rintro ⟨name, hname, hsome, hmem⟩
    obtain ⟨names, hnames, hr', hmatch⟩ := (hbehind hname hsome).1 hmem
    exact ⟨name :: names, hnames, hr', hmatch⟩
  · rintro ⟨names, hnames, hr', hmatch⟩
    obtain ⟨name, more, rfl⟩ := List.exists_cons_of_ne_nil (ne_nil_of_matchesNames hmatch)
    have hname := hnames name List.mem_cons_self
    have hsome := isSome_of_isFile_below hu hplace hnames (hr' ▸ hr)
    exact ⟨name, hname, hsome, (hbehind hname hsome).2 ⟨more, hnames, hr', hmatch⟩⟩

/-- Entering finds what is described if going on and visiting do. -/
lemma findsIn_enter (hu : t.Proper)
    (hproceed : FindsIn t 1 fuel (s.proceed t fuel) fun ps names => matchesNames ps names = true)
    (hvisit : FindsAt t 2 fuel (s.visit t fuel) fun ps name names =>
      matchesNames ps (name :: names) = true) :
    FindsIn t 0 (fuel + 1) (s.enter t (fuel + 1)) fun ps names =>
      ps ≠ [] ∧ matchesNames ps names = true := by
  intro ps place hps hplace hthere hroom
  cases ps with
  | nil => intro r _; simp [enter]
  | cons p rest =>
    simp only [ne_eq, List.cons_ne_nil, not_false_eq_true, true_and]
    cases hlit : literal? p with
    | some name =>
      rw [room_cons] at hroom
      exact findsIn_enter_literal hu hproceed hps hplace hthere hlit (by omega)
    | none => exact findsIn_enter_wild hu hvisit hps hplace hlit hroom

/-- Going on finds what is described if entering does, or if nothing is left. -/
lemma findsIn_proceed (hopen : s.directoriesOnly = false)
    (henter : FindsIn t 0 fuel (s.enter t fuel) fun ps names =>
      ps ≠ [] ∧ matchesNames ps names = true) :
    FindsIn t 1 (fuel + 1) (s.proceed t (fuel + 1)) fun ps names => matchesNames ps names = true := by
  intro ps place hps hplace hthere hroom r hr
  cases ps with
  | nil =>
    have hresult : s.result t (Path.ofPlace place) = [Path.ofPlace place] := by
      rw [result, hopen]
      rfl
    rw [proceed, hresult, List.mem_singleton]
    constructor
    · rintro rfl
      exact ⟨[], by simp, by rw [List.append_nil], rfl⟩
    · rintro ⟨names, -, rfl, hmatch⟩
      rw [matchesNames, List.isEmpty_iff] at hmatch
      rw [hmatch, List.append_nil]
  | cons p rest =>
    rw [proceed, henter _ place hps hplace hthere (by omega) r hr]
    simp

/-- A name that has matched finds what is described if going on does. -/
lemma findsAt_named
    (hproceed : FindsIn t 1 fuel (s.proceed t fuel) fun ps names => matchesNames ps names = true) :
    FindsAt t 0 (fuel + 1) (s.named t (fuel + 1)) fun ps name names =>
      ∃ p rest, ps = p :: rest ∧ matchesText p name = true ∧ matchesNames rest names = true := by
  intro ps place name hps hnext hsome hroom r hr
  cases ps with
  | nil => simp [named]
  | cons p rest =>
    rw [room_cons] at hroom
    rw [named, Path.fileName?_ofPlace hnext, Option.any_some]
    split
    · next hname =>
      rw [hproceed rest _ hps.tail hnext hsome (by omega) r hr]
      simp [hname]
    · next hname => simp [hname]

/-- The parts that are left behind `**` are straight. -/
lemma straight_afterRecursive (h : Straight (p :: rest)) {q : Pattern} {more : List Pattern}
    (hmore : afterRecursive rest = q :: more) : Straight (q :: more) ∧ Straight (p :: q :: more) := by
  have hafter : Straight (q :: more) := fun x hx =>
    h.tail x ((afterRecursive_suffix rest).subset (hmore ▸ hx))
  refine ⟨hafter, fun x hx => ?_⟩
  rcases List.mem_cons.1 hx with rfl | hx
  · exact h _ List.mem_cons_self
  · exact hafter x hx

/-- `**` at the end finds directories only. -/
lemma findsAt_visit_end (henter : FindsIn t 0 fuel (s.enter t fuel) fun ps names =>
      ps ≠ [] ∧ matchesNames ps names = true) (hps : Straight (p :: rest)) (hp : isRecursive p = true)
    (hafter : afterRecursive rest = []) (hnext : ∀ n ∈ place ++ [name], IsName n)
    (hsome : (t.at? (place ++ [name])).isSome = true)
    (hroom : room t (p :: rest) (Path.ofPlace (place ++ [name])) < fuel) :
    FindsFiles t (s.visit t (fuel + 1) (p :: rest) (Path.ofPlace (place ++ [name]))) (place ++ [name])
      fun names => matchesNames (p :: rest) (name :: names) = true := by
  intro r hr
  -- a pattern of recursive parts only describes no name, and finds directories only
  have hend : ∀ {ps : List Pattern} {names : List (List Char)}, afterRecursive ps = [] →
      names ≠ [] → ¬ matchesNames ps names = true := by
    intro ps names hps hne
    rw [matchesNames_of_afterRecursive_nil hps hne]
    exact Bool.false_ne_true
  have hle : room t [p] (Path.ofPlace (place ++ [name])) ≤
      room t (p :: rest) (Path.ofPlace (place ++ [name])) := room_le_of_length (by simp) t _
  have hfirst : Straight [p] := fun x hx => by
    rw [List.mem_singleton.1 hx]
    exact hps p List.mem_cons_self
  rw [visit, if_pos hp, hafter]
  dsimp only
  refine iff_of_false ?_ ?_
  · intro hmem
    split at hmem
    · next hdir =>
      rcases List.mem_cons.1 hmem with rfl | hmem
      · rw [Tree.isFile_of_isDirectory hdir] at hr
        cases hr
      · obtain ⟨names, -, -, -, hmatch⟩ :=
          (henter [p] _ hfirst hnext hsome (by omega) r hr).1 hmem
        exact hend (by rw [afterRecursive, if_pos hp]; rfl) (ne_nil_of_matchesNames hmatch) hmatch
    · cases hmem
  · rintro ⟨names, -, -, hmatch⟩
    exact hend (by rw [afterRecursive, if_pos hp]; exact hafter) (by simp) hmatch

/-- A part that does not go down to all directories is matched against the name. -/
lemma findsFiles_named (hnamed : FindsAt t 0 fuel (s.named t fuel) fun ps name names =>
      ∃ p rest, ps = p :: rest ∧ matchesText p name = true ∧ matchesNames rest names = true)
    (hps : Straight (p :: rest)) (hp : isRecursive p = false) (hnext : ∀ n ∈ place ++ [name], IsName n)
    (hsome : (t.at? (place ++ [name])).isSome = true)
    (hroom : room t (p :: rest) (Path.ofPlace (place ++ [name])) < fuel) :
    FindsFiles t (s.named t fuel (p :: rest) (Path.ofPlace (place ++ [name]))) (place ++ [name])
      fun names => matchesNames (p :: rest) (name :: names) = true := by
  intro r hr
  rw [hnamed _ place name hps hnext hsome hroom r hr]
  simp [matchesNames_cons_cons_iff hp]

/-- A walk that goes on below needs a directory there, as a file does that it finds. -/
lemma findsFiles_below (hu : t.Proper) (henter : FindsIn t 0 fuel (s.enter t fuel) fun ps names =>
      ps ≠ [] ∧ matchesNames ps names = true) (hps : Straight (p :: rest))
    (hplace : ∀ n ∈ place, IsName n) (hsome : (t.at? place).isSome = true)
    (hroom : room t (p :: rest) (Path.ofPlace place) < fuel) :
    FindsFiles t (if t.isDirectory (Path.ofPlace place) then
      s.enter t fuel (p :: rest) (Path.ofPlace place) else []) place
      fun names => matchesNames (p :: rest) names = true := by
  intro r hr
  have hin := henter _ _ hps hplace hsome hroom r hr
  simp only [ne_eq, List.cons_ne_nil, not_false_eq_true, true_and] at hin
  rw [← hin]
  split
  · rfl
  · next hdir =>
    refine iff_of_false List.not_mem_nil fun hmem => hdir ?_
    obtain ⟨names, hnames, rfl, hmatch⟩ := hin.1 hmem
    refine hu.isDirectory_ofPlace hplace (hu.directory (ne_nil_of_matchesNames hmatch) ?_)
    exact isSome_of_isFile (forall_isName_append hplace hnames) hr

/-- Visiting finds what is described if entering and matching do. -/
lemma findsAt_visit (hu : t.Proper)
    (henter : FindsIn t 0 fuel (s.enter t fuel) fun ps names =>
      ps ≠ [] ∧ matchesNames ps names = true)
    (hnamed : FindsAt t 0 fuel (s.named t fuel) fun ps name names =>
      ∃ p rest, ps = p :: rest ∧ matchesText p name = true ∧ matchesNames rest names = true) :
    FindsAt t 2 (fuel + 1) (s.visit t (fuel + 1)) fun ps name names =>
      matchesNames ps (name :: names) = true := by
  intro ps place name hps hnext hsome hroom
  cases ps with
  | nil => intro r _; simp [visit, matchesNames]
  | cons p rest =>
    by_cases hp : isRecursive p = true
    · cases hmore : afterRecursive rest with
      | nil => exact findsAt_visit_end henter hps hp hmore hnext hsome (by omega)
      | cons q more =>
        obtain ⟨hafter, hall⟩ := straight_afterRecursive hps hmore
        have hlength := length_afterRecursive hmore
        have hle : room t (p :: q :: more) (Path.ofPlace (place ++ [name])) ≤
            room t (p :: rest) (Path.ofPlace (place ++ [name])) :=
          room_le_of_length (by simp only [List.length_cons]; omega) t _
        have hless := room_cons t p (q :: more) (Path.ofPlace (place ++ [name]))
        intro r hr
        have hhere := findsFiles_named hnamed hafter (not_isRecursive_of_afterRecursive hmore) hnext
          hsome (by omega) r hr
        have hbelow := findsFiles_below hu henter hall hnext hsome (by omega) r hr
        rw [visit, if_pos hp, hmore]
        dsimp only
        rw [List.mem_append, hhere, hbelow, ← exists_or]
        refine exists_congr fun names => ?_
        rw [matchesNames_afterRecursive hp hmore, matchesNames_recursive_cons hp, ← and_or_left,
          ← and_or_left]
    · rw [visit, if_neg hp]
      exact findsFiles_named hnamed hps (by simpa using hp) hnext hsome (by omega)

/-- What straight parts describe is what a walk finds, in each of the four ways in which it goes on. -/
theorem findsFiles_walk (hu : t.Proper) (hopen : s.directoriesOnly = false) (fuel : Nat) :
    FindsIn t 0 fuel (s.enter t fuel) (fun ps names => ps ≠ [] ∧ matchesNames ps names = true) ∧
      FindsIn t 1 fuel (s.proceed t fuel) (fun ps names => matchesNames ps names = true) ∧
      FindsAt t 2 fuel (s.visit t fuel) (fun ps name names =>
        matchesNames ps (name :: names) = true) ∧
      FindsAt t 0 fuel (s.named t fuel) fun ps name names =>
        ∃ p rest, ps = p :: rest ∧ matchesText p name = true ∧ matchesNames rest names = true := by
  induction fuel with
  | zero => exact ⟨by intro; omega, by intro; omega, by intro; omega, by intro; omega⟩
  | succ fuel ih =>
    obtain ⟨henter, hproceed, hvisit, hnamed⟩ := ih
    exact ⟨findsIn_enter hu hproceed hvisit, findsIn_proceed hopen henter,
      findsAt_visit hu henter hnamed, findsAt_named hproceed⟩

/-- The files that a search finds are those the names of which its parts describe. -/
theorem mem_paths_iff (hu : t.Proper) (hopen : s.directoriesOnly = false) (hs : Straight s.parts)
    (hne : s.parts ≠ []) {r : Path} (hr : t.isFile r = true) : r ∈ s.paths t ↔
      ∃ place, (∀ n ∈ place, IsName n) ∧ r = Path.ofPlace place ∧
        matchesNames s.parts place = true := by
  have hroom : room t s.parts (Path.ofPlace []) + 0 <
      4 * (2 * s.parts.length + t.entries.size + 2) := by
    have htarget : (Path.ofPlace []).target.length = 0 := rfl
    unfold room
    omega
  have hfind := (findsFiles_walk hu hopen _).1 s.parts [] hs (by simp) rfl hroom r hr
  simp only [List.nil_append, ne_eq, hne, not_false_eq_true, true_and] at hfind
  exact hfind

/-- Straight parts do not lead up. -/
lemma Straight.descends (h : Straight ps) : Descends ps := by
  intro p hp
  obtain ⟨hstraight, hslash⟩ := h p hp
  refine ⟨hslash, ?_⟩
  have hfirst : Straight [p] := fun q hq => by
    rw [List.mem_singleton.1 hq]
    exact h p hp
  cases hlit : literal? p with
  | some name =>
    have hup := (hfirst.isName hlit).2.2.1
    rw [leadsUp, literal?_eq_some_iff.1 hlit, Bool.and_eq_false_iff, ← Bool.not_eq_true (matchesText _ _),
      matchesText_chars_iff]
    exact .inr hup.symm
  | none => exact (hfirst.not_point hlit).2

/-- What straight parts lead to is there. -/
lemma reaches_of_mem_paths (hu : t.Proper) (hs : Straight s.parts) {r : Path}
    (hr : r ∈ s.paths t) : t.reaches r = true :=
  ((goesDown_walk hu s _).1 _ _ hs.descends (reaches_root t) r hr).2

end Search

/-! ## Patterns as texts -/

variable {t : Tree} {cs : List Char} {f : Path}

/-- Whether a text is that of a pattern from the root, all parts of which are straight. -/
def isStraightText (cs : List Char) : Bool :=
  cs.head? == some '/' &&
    (Search.ofText? cs).any fun s => !s.directoriesOnly && s.parts.all isStraight

/-- Whether a pattern describes a path as a whole. -/
def describesText (cs : List Char) (f : Path) : Bool := (compile? cs).any (matchesText · f.text)

/-- Whether a pattern describes a path part by part. -/
def describesNames (cs : List Char) (f : Path) : Bool :=
  decide f.IsRooted && (Search.ofText? cs).any (matchesNames ·.parts f.target)

/-- A straight text is that of a search for files from the root. -/
lemma exists_search_of_isStraightText (h : isStraightText cs = true) : ∃ s,
    Search.ofText? cs = some s ∧ cs.head? = some '/' ∧ s.directoriesOnly = false ∧
      Search.Straight s.parts := by
  unfold isStraightText at h
  rw [Bool.and_eq_true, beq_iff_eq] at h
  obtain ⟨habs, h⟩ := h
  cases hs : Search.ofText? cs with
  | none => rw [hs] at h; cases h
  | some s =>
    rw [hs, Option.any_some, Bool.and_eq_true, Bool.not_eq_true', List.all_eq_true] at h
    exact ⟨s, rfl, habs, h.1, fun p hp => ⟨h.2 p hp, slash_not_mem_of_ofText? hs p hp⟩⟩

/-- The whole text of a pattern from the root reads as its parts do. -/
lemma compile?_of_ofText? {s : Search} (h : Search.ofText? cs = some s) (habs : cs.head? = some '/')
    (hopen : s.directoriesOnly = false) :
    compile? cs = some (.char '/' :: spelled s.parts) ∧ s.parts ≠ [] ∧ StandsAlone s.parts := by
  obtain ⟨-, parts, hparts, rfl⟩ := ofText?_eq_some_iff.1 h
  have hlast : cs.getLast? ≠ some '/' := by simpa using hopen
  obtain ⟨more, rfl⟩ : ∃ more, cs = '/' :: more := by
    cases cs with
    | nil => cases habs
    | cons c more =>
      obtain rfl : c = '/' := by simpa using habs
      exact ⟨more, rfl⟩
  have hinner : inner ('/' :: more) = more := rfl
  have hne : more ≠ [] := by
    rintro rfl
    exact hlast rfl
  rw [hinner] at hparts ⊢
  -- the text ends with no slash, so its parts are the pieces of a path
  have hpieces : partsOf more = Path.pieces more := by
    refine partsOf_eq_pieces hne fun hend => hlast ?_
    rw [List.getLast?_cons, hend]
    rfl
  rw [hpieces] at hparts
  have hslash : ∀ part ∈ Path.pieces more, '/' ∉ part := fun part => Path.slash_not_mem_of_mem_pieces
  have hempty : more.isEmpty = false := by simpa using hne
  simp only [hempty, Bool.false_eq_true, if_false]
  refine ⟨?_, ?_, ?_⟩
  · have hcompile := compile?_joined (Path.pieces_ne_nil more) hparts hslash
    rw [Path.joined_pieces] at hcompile
    rw [compile?, compileAfter?_cons (by decide), compileAfter?_start, hcompile]
    rfl
  · rintro rfl
    exact Path.pieces_ne_nil more (List.forall₂_nil_right_iff.1 hparts)
  · exact forall_of_forall₂ hparts fun part hpart p hcompile hmem =>
      (reads_of_compileAfter? hcompile (hslash part hpart)).anyDirectories_mem_iff.1 hmem

/-- What is described part by part is the normal spelling of a place. -/
lemma describesNames_iff {s : Search} (hs : Search.ofText? cs = some s) (hf : f.normalize = f) :
    describesNames cs f = true ↔
      ∃ place, (∀ n ∈ place, IsName n) ∧ f = Path.ofPlace place ∧ matchesNames s.parts place = true := by
  rw [describesNames, hs, Option.any_some, Bool.and_eq_true, decide_eq_true_eq]
  constructor
  · rintro ⟨hrooted, hmatch⟩
    exact ⟨f.target, Path.isName_of_mem_target f, hf.symm.trans hrooted.normalize_eq, hmatch⟩
  · rintro ⟨place, hplace, rfl, hmatch⟩
    rw [Path.target_ofPlace hplace]
    exact ⟨Path.isRooted_ofPlace hplace, hmatch⟩

/-- A file is found, in its normal spelling, if it is described part by part. -/
lemma mem_map_normalize_iff (hu : t.Proper) (h : isStraightText cs = true) (hf : f.normalize = f)
    (hfile : t.isFile f = true) {found : List Path} (hfound : find? t cs = some found) :
    f ∈ found.map Path.normalize ↔ describesNames cs f = true := by
  obtain ⟨s, hs, habs, hopen, hstraight⟩ := exists_search_of_isStraightText h
  obtain ⟨-, hne, -⟩ := compile?_of_ofText? hs habs hopen
  obtain rfl : s.paths t = found := by simpa [find?, hs] using hfound
  rw [describesNames_iff hs hf, List.mem_map]
  constructor
  · rintro ⟨r, hr, hnormal⟩
    have hreach := Search.reaches_of_mem_paths hu hstraight hr
    rw [← hnormal, hu.isFile_normalize_of_reaches hreach] at hfile
    obtain ⟨place, hplace, rfl, hmatch⟩ := (Search.mem_paths_iff hu hopen hstraight hne hfile).1 hr
    exact ⟨place, hplace, by rw [← hnormal, Path.normalize_ofPlace hplace], hmatch⟩
  · intro hplace
    exact ⟨f, (Search.mem_paths_iff hu hopen hstraight hne hfile).2 hplace, hf⟩

/-- What a pattern describes part by part it describes as a whole. -/
lemma describesText_of_names (h : isStraightText cs = true) (hf : f.normalize = f)
    (hnames : describesNames cs f = true) : describesText cs f = true := by
  obtain ⟨s, hs, habs, hopen, -⟩ := exists_search_of_isStraightText h
  obtain ⟨hcompile, -, halone⟩ := compile?_of_ofText? hs habs hopen
  obtain ⟨place, hplace, rfl, hmatch⟩ := (describesNames_iff hs hf).1 hnames
  rw [describesText, hcompile, Option.any_some, Path.text_ofPlace,
    matchesText_cons_iff (by simp) (by simp)]
  exact ⟨'/', _, rfl, beq_self_eq_true _, matchesText_spelled halone hmatch⟩

/-- Whether a text is that of a tame pattern which begins with a name. -/
def isTameText (cs : List Char) : Bool :=
  (Search.ofText? cs).any fun s => s.parts.head?.any isNamed && isTame s.parts

/-- What a tame pattern describes as a whole it describes part by part. -/
lemma describesNames_of_text (h : isStraightText cs = true) (htame : isTameText cs = true)
    (hf : f.normalize = f) (htext : describesText cs f = true) : describesNames cs f = true := by
  obtain ⟨s, hs, habs, hopen, hstraight⟩ := exists_search_of_isStraightText h
  obtain ⟨hcompile, -, -⟩ := compile?_of_ofText? hs habs hopen
  rw [isTameText, hs, Option.any_some, Bool.and_eq_true] at htame
  obtain ⟨hhead, htame⟩ := htame
  obtain ⟨p, hp, hnamed⟩ := Option.any_eq_true _ _ |>.1 hhead
  obtain ⟨name, -, rfl⟩ := exists_of_isNamed hnamed
  obtain ⟨ps, hparts⟩ := List.head?_eq_some_iff.1 hp
  rw [describesText, hcompile, Option.any_some, matchesText_cons_iff (by simp) (by simp)] at htext
  obtain ⟨c, more, htext, hc, hmatch⟩ := htext
  obtain rfl : c = '/' := beq_iff_eq.1 hc
  have hnames := (tame_of_isTame htame).describes (fun p hp => (hstraight p hp).2) hmatch
  -- the first of the names is a name of the pattern, so the path does not climb from the root
  have hname : IsName name := by
    rw [hparts] at hstraight
    exact hstraight.isName (literal?_eq_some_iff.2 rfl)
  obtain ⟨rest, hpieces⟩ : ∃ rest, Path.pieces more = name :: rest := by
    rw [hparts, matchesNames_cons_single (isRecursive_chars name)] at hnames
    obtain ⟨name', rest, hpieces, hname', -⟩ := hnames
    exact ⟨rest, by rw [hpieces, matchesText_chars_iff.1 hname']⟩
  obtain ⟨hplace, hspelled⟩ := Path.eq_ofPlace_of_pieces hf htext hpieces hname
  rw [hpieces] at hnames
  exact (describesNames_iff hs hf).2 ⟨name :: rest, hplace, hspelled, hnames⟩

end StoreBindings.Glob
