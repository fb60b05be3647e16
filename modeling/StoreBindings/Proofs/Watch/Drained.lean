import StoreBindings.Proofs.Watch.Pending

/-!
# What is drained

Whatever has been collected and drained before, the next changes are collected as if they were the first.
Of the sources among them each one is drained once, in the order in which they are first met, and with
the last of its changes, except that a source which was added and since then only changed counts as
added: `drains_pushEach`.
-/

namespace StoreBindings.PendingChanges

open Files (Tree)

/-- A change that is pushed, and the files at that time. -/
structure Push where
  files : Tree
  change : Change
  path : Path

/-- Push changes one after the other. -/
def pushEach (p : PendingChanges) (xs : List Push) : PendingChanges :=
  xs.foldl (fun p x => p.push x.files x.change x.path) p

/-- The sources among what is pushed. -/
def sourcePaths (xs : List Push) : List Path := (xs.map Push.path).filter Syntax.isSourceFile

/-- The changes of one file. -/
def history (xs : List Push) (path : Path) : List Change :=
  (xs.filter fun x => x.path.components = path.components).map Push.change

/-- The changes of sources among what is pushed. -/
def sourceChanges (xs : List Push) : List (Change × Path) :=
  (xs.filter fun x => Syntax.isSourceFile x.path).map fun x => (x.change, x.path)

variable {xs : List Push} {ps : List Path} {es : List (Change × Path)}

lemma pushEach_eq (p : PendingChanges) (h : ∀ x ∈ xs, x.files.isDirectory x.path = false) :
    p.pushEach xs = p.collectAll (sourceChanges xs) := by
  induction xs generalizing p with
  | nil => rfl
  | cons x xs ih =>
    obtain ⟨hx, hxs⟩ := List.forall_mem_cons.1 h
    show (p.push x.files x.change x.path).pushEach xs = _
    rw [ih _ hxs, push_eq, hx, sourceChanges, sourceChanges, List.filter_cons]
    cases Syntax.isSourceFile x.path <;> rfl

lemma map_snd_sourceChanges (xs : List Push) :
    (sourceChanges xs).map Prod.snd = sourcePaths xs := by
  rw [sourceChanges, sourcePaths, List.map_map, List.filter_map]
  rfl

/-- Whether a file is a source does not depend on how its path is spelled. -/
lemma isSourceFile_congr {p q : Path} (h : p.components = q.components) :
    Syntax.isSourceFile p = Syntax.isSourceFile q := by
  unfold Syntax.isSourceFile Path.fileName?
  rw [h]

lemma changesAt_sourceChanges {path : Path} (h : Syntax.isSourceFile path = true) :
    changesAt (sourceChanges xs) path.components = history xs path := by
  rw [changesAt, sourceChanges, List.filter_map, List.filter_filter, List.map_map, history]
  congr 1
  refine List.filter_congr fun x _ => ?_
  by_cases hx : x.path.components = path.components
  · simp [hx, isSourceFile_congr hx, h]
  · simp [hx]

/-! ## One file -/

/-- A file counts as added exactly if it was added and since then only changed. -/
lemma net_eq_added_iff {cs : List Change} : net cs = some .added ↔
    ∃ before n, cs = before ++ .added :: List.replicate n .changed := by
  -- the search goes back from the last change over all that only say that the file is another
  have hnet : net cs = some .added ↔ cs.reverse.find? (· ≠ .changed) = some .added := by
    unfold net
    split
    · next h => exact iff_of_true rfl h
    · next h =>
      refine iff_of_false (fun hlast => h ?_) h
      rw [List.getLast?_eq_head?_reverse] at hlast
      obtain ⟨earlier, hearlier⟩ := List.head?_eq_some_iff.1 hlast
      rw [hearlier, List.find?_cons_of_pos (by decide)]
  rw [hnet, List.find?_eq_some_iff_append]
  constructor
  · rintro ⟨-, later, earlier, hreverse, hlater⟩
    have hchanged : later = List.replicate later.length .changed :=
      List.eq_replicate_iff.2 ⟨rfl, fun c hc => by simpa using hlater c hc⟩
    refine ⟨earlier.reverse, later.length, ?_⟩
    rw [← List.reverse_reverse cs, hreverse, hchanged]
    simp
  · rintro ⟨before, n, rfl⟩
    refine ⟨by decide, List.replicate n .changed, before.reverse, by simp, fun c hc => ?_⟩
    rw [List.eq_of_mem_replicate hc]
    decide

lemma net_of_ne_added {cs : List Change} (h : net cs ≠ some .added) : net cs = cs.getLast? := by
  unfold net at h ⊢
  split at h
  · exact absurd rfl h
  · next hnot => rw [if_neg hnot]

/-! ## All files -/

lemma mem_of_mem_firstMet {p : Path} (h : p ∈ firstMet ps) : p ∈ ps :=
  List.mem_of_find?_eq_some (find?_firstMet h)

/-- Each file that is met is drained in its first spelling. -/
lemma map_snd_netAll (es : List (Change × Path)) :
    (netAll es).map Prod.snd = firstMet (es.map Prod.snd) := by
  rw [netAll, List.map_filterMap]
  refine (List.filterMap_congr fun p hp => ?_).trans List.filterMap_some
  cases hnet : net (changesAt es p.components) with
  | none =>
    have hnone := changesAt_eq_nil_iff.1 (net_eq_none_iff.1 hnet)
    rw [find?_firstMet hp] at hnone
    cases hnone
  | some c => rfl

lemma mem_netAll {e : Change × Path} (h : e ∈ netAll es) :
    net (changesAt es e.2.components) = some e.1 := by
  obtain ⟨p, -, hp⟩ := List.mem_filterMap.1 h
  obtain ⟨c, hc, rfl⟩ := Option.map_eq_some_iff.1 hp
  exact hc

/-- Files are drained in the order in which they are first met. -/
lemma pairwise_firstMet (ps : List Path) : (firstMet ps).Pairwise fun p q =>
    ps.findIdx (fun r => r.components = p.components) <
      ps.findIdx (fun r => r.components = q.components) := by
  induction ps with
  | nil => exact .nil
  | cons p ps ih =>
    have hbehind : ∀ q : Path, q.components ≠ p.components →
        (p :: ps).findIdx (fun r => r.components = q.components) =
          ps.findIdx (fun r => r.components = q.components) + 1 := by
      intro q hq
      rw [List.findIdx_cons, decide_eq_false (Ne.symm hq)]
      rfl
    rw [firstMet]
    refine .cons (fun q hq => ?_) ((ih.filter _).imp_of_mem fun {q r} hq hr hlt => ?_)
    · rw [hbehind q (by simpa using (List.mem_filter.1 hq).2), List.findIdx_cons]
      simp
    · rw [hbehind q (by simpa using (List.mem_filter.1 hq).2),
        hbehind r (by simpa using (List.mem_filter.1 hr).2)]
      exact Nat.succ_lt_succ hlt

/-- A file that is met is drained once. -/
lemma count_netAll {p : Path} (h : p ∈ es.map Prod.snd) :
    (netAll es).countP (fun e => e.2.components = p.components) = 1 := by
  have hnodup : ((firstMet (es.map Prod.snd)).map Path.components).Nodup := by
    refine List.pairwise_map.2 ((pairwise_firstMet _).imp fun {q r} hlt heq => ?_)
    rw [heq] at hlt
    exact absurd hlt (Nat.lt_irrefl _)
  have hmem : p.components ∈ (firstMet (es.map Prod.snd)).map Path.components := by
    obtain ⟨q, hq, hkey⟩ := mem_firstMet_key.2 ⟨p, h, rfl⟩
    exact List.mem_map.2 ⟨q, hq, hkey⟩
  have hcount := hnodup.count (a := p.components)
  rw [if_pos hmem] at hcount
  rw [← hcount, ← map_snd_netAll, List.map_map, List.count,
    List.countP_map]
  exact List.countP_congr fun e _ => by simp

/-- What is drained after changes have been pushed. -/
structure Drains (xs : List Push) (drained : List (Change × Path)) : Prop where
  /-- Every source is drained once, however often it is pushed and however its path is spelled. -/
  once : ∀ path ∈ sourcePaths xs,
    drained.countP (fun e => e.2.components = path.components) = 1
  /-- Nothing is drained that is no source; the path is spelled as when it was first pushed. -/
  first : ∀ e ∈ drained,
    (sourcePaths xs).find? (fun r => r.components = e.2.components) = some e.2
  /-- A source counts as added exactly if it was added and since then only changed. -/
  added : ∀ e ∈ drained, e.1 = .added ↔
    ∃ before n, history xs e.2 = before ++ .added :: List.replicate n .changed
  /-- Of any other source the last change counts. -/
  last : ∀ e ∈ drained, e.1 ≠ .added → (history xs e.2).getLast? = some e.1
  /-- The order is that in which the sources were first pushed. -/
  order : (drained.map Prod.snd).Pairwise fun p q =>
    (sourcePaths xs).findIdx (fun r => r.components = p.components) <
      (sourcePaths xs).findIdx (fun r => r.components = q.components)

lemma drains_netAll (xs : List Push) : Drains xs (netAll (sourceChanges xs)) := by
  have hpaths : (netAll (sourceChanges xs)).map Prod.snd = firstMet (sourcePaths xs) := by
    rw [map_snd_netAll, map_snd_sourceChanges]
  have hmet : ∀ e ∈ netAll (sourceChanges xs), e.2 ∈ firstMet (sourcePaths xs) := fun e he =>
    hpaths ▸ List.mem_map_of_mem he
  have hnet : ∀ e ∈ netAll (sourceChanges xs), net (history xs e.2) = some e.1 := by
    intro e he
    rw [← changesAt_sourceChanges (List.mem_filter.1 (mem_of_mem_firstMet (hmet e he))).2]
    exact mem_netAll he
  -- what is handed on for a path is the net effect of its history
  constructor
  · intro path hpath
    exact count_netAll (by rwa [map_snd_sourceChanges])
  · exact fun e he => find?_firstMet (hmet e he)
  · intro e he
    rw [← net_eq_added_iff, hnet e he, Option.some.injEq]
  · intro e he hne
    rw [← net_of_ne_added (by rw [hnet e he]; simpa using hne), hnet e he]
  · rw [hpaths]
    exact pairwise_firstMet _

/-- After any collection has been drained, changes are collected as by a new one: each source among them
is drained once, in the order of its first change, with what its changes amount to, and afterwards the
collection is empty again. -/
theorem drains_pushEach (p : PendingChanges)
    (h : ∀ x ∈ xs, x.files.isDirectory x.path = false) :
    Drains xs (p.drain.2.pushEach xs).drain.1 ∧ (p.drain.2.pushEach xs).drain.2 = empty := by
  refine ⟨?_, rfl⟩
  show Drains xs (empty.pushEach xs).drain.1
  rw [pushEach_eq empty h, drain_collectAll]
  exact drains_netAll xs

/-- A file that is added and then written, one that is changed and then removed, spelled in two ways, and
one that is no source. -/
def Sample.pushes : List Push :=
  [⟨.empty, .added, ⟨"/s/New.ts".toList⟩⟩, ⟨.empty, .changed, ⟨"/s/Old.ts".toList⟩⟩,
    ⟨.empty, .changed, ⟨"/s/New.ts".toList⟩⟩, ⟨.empty, .removed, ⟨"/s/./Old.ts".toList⟩⟩,
    ⟨.empty, .changed, ⟨"/s/notes.md".toList⟩⟩]

theorem drains_pushEach_of_sample :
    (∀ x ∈ Sample.pushes, x.files.isDirectory x.path = false) ∧
      (empty.pushEach Sample.pushes).drain.1 =
        [(.added, ⟨"/s/New.ts".toList⟩), (.removed, ⟨"/s/Old.ts".toList⟩)] ∧
      Drains Sample.pushes (empty.drain.2.pushEach Sample.pushes).drain.1 := by
  have h : ∀ x ∈ Sample.pushes, x.files.isDirectory x.path = false := by decide +kernel
  exact ⟨h, by decide +kernel, (drains_pushEach empty h).1⟩

end StoreBindings.PendingChanges
