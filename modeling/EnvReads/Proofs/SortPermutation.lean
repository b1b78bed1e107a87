import EnvReads.Value.Order

/-!
# Sorting permutes

Whatever test decides about the order, sorting by runs gives back the members of its list, each as
often as it was there. The test need not be an order and may fail; only a sort that fails gives
nothing.
-/

namespace EnvReads.RunSort

variable {α : Type} {less? : α → α → Option Bool}

namespace Merge

/-- All members of a merge, in no particular order. -/
def members (m : Merge α) : List α :=
  m.taken ++ m.earlier ++ m.later

/-- Moving the front of a list, turned around, to another list. -/
theorem perm_take_drop (xs ys : List α) (n : Nat) :
    ((xs.take n).reverse ++ ys ++ xs.drop n).Perm (ys ++ xs) := by
  have front : ((xs.take n).reverse ++ ys).Perm (ys ++ xs.take n) :=
    ((List.reverse_perm _).append_right ys).trans List.perm_append_comm
  have whole := front.append_right (xs.drop n)
  rwa [List.append_assoc ys, List.take_append_drop] at whole

/-- Taking from the earlier run loses nothing. -/
theorem members_takeEarlier (m : Merge α) (n : Nat) : (m.takeEarlier n).members.Perm m.members :=
  (perm_take_drop m.earlier m.taken n).append_right m.later

/-- Taking from the later run loses nothing. -/
theorem members_takeLater (m : Merge α) (n : Nat) : (m.takeLater n).members.Perm m.members := by
  have swapped := (perm_take_drop m.later m.taken n).append_right m.earlier
  simp only [members, takeLater, List.append_assoc] at swapped ⊢
  have left : ∀ xs ys zs : List α, (xs ++ (ys ++ zs)).Perm (xs ++ (zs ++ ys)) :=
    fun xs _ _ => List.perm_append_comm.append_left xs
  have left' := ((left _ _ _).append_left (m.later.take n).reverse).trans swapped
  exact left'.trans (left _ _ _)

/-- The result of a merge has its members. -/
theorem result_perm (d : Direction) (m : Merge α) : (m.result d).Perm m.members := by
  cases d with
  | forward =>
      have taken := (List.reverse_perm m.taken).append_right (m.later ++ m.earlier)
      have rest : (m.later ++ m.earlier).Perm (m.earlier ++ m.later) := List.perm_append_comm
      simpa [result, members] using taken.trans (rest.append_left m.taken)
  | backward =>
      have later := (List.reverse_perm m.later).append (List.reverse_perm m.earlier)
      have rest : (m.later ++ m.earlier).Perm (m.earlier ++ m.later) := List.perm_append_comm
      have whole := (later.trans rest).append_right m.taken
      simpa [result, members] using whole.trans List.perm_append_comm

/-- A round of a merge loses nothing. -/
theorem round_perm {d : Direction} {m m' : Merge α} {worth : Bool}
    (h : m.round less? d = some (m', worth)) : m'.members.Perm m.members := by
  simp only [round, Option.bind_eq_bind, Option.bind_eq_some_iff] at h
  obtain ⟨n, -, h⟩ := h
  have first := m.members_takeEarlier n
  have second := ((m.takeEarlier n).members_takeLater 1).trans first
  split at h
  · cases h
    exact first
  · split at h
    · cases h
      exact second
    · simp only [Option.bind_eq_some_iff] at h
      obtain ⟨k, -, h⟩ := h
      have third := (((m.takeEarlier n).takeLater 1).members_takeLater k).trans second
      split at h
      · cases h
        exact third
      · cases h
        exact (members_takeEarlier _ 1).trans third

/-- However a merge goes on, its members stay the same. -/
theorem run_perm {d : Direction} {fuel threshold threshold' : Nat} {pace : Pace} {m : Merge α}
    {xs : List α} (h : run less? d fuel pace threshold m = some (xs, threshold')) :
    xs.Perm m.members := by
  induction fuel generalizing pace threshold m with
  | zero =>
      cases h
      exact m.result_perm d
  | succ fuel ih =>
      cases pace with
      | step earlier later =>
          rw [run] at h
          split at h
          · cases h
            exact m.result_perm d
          · simp only [Option.bind_eq_bind, Option.bind_eq_some_iff] at h
            obtain ⟨takesLater, -, h⟩ := h
            split at h
            · exact (ih h).trans (m.members_takeLater 1)
            · exact (ih h).trans (m.members_takeEarlier 1)
      | gallop =>
          rw [run] at h
          split at h
          · cases h
            exact m.result_perm d
          · simp only [Option.bind_eq_bind, Option.bind_eq_some_iff] at h
            obtain ⟨⟨m', worth⟩, found, h⟩ := h
            have same := round_perm found
            simp only at h
            split at h
            · cases h
              exact (m'.result_perm d).trans same
            · split at h
              · exact (ih h).trans same
              · exact (ih h).trans same

end Merge

/-- A merge has the members of both runs. -/
theorem merge_perm {threshold threshold' : Nat} {earlier later xs : List α}
    (h : merge less? threshold earlier later = some (xs, threshold')) :
    xs.Perm (earlier ++ later) := by
  simp only [merge, Option.bind_eq_bind, Option.bind_eq_some_iff] at h
  obtain ⟨first, -, n, -, h⟩ := h
  have splitEarlier := List.take_append_drop n earlier
  split at h
  · next empty =>
      cases h
      rw [List.getLast?_eq_none_iff] at empty
      rw [empty, List.append_nil] at splitEarlier
      rw [splitEarlier]
  · simp only [Option.bind_eq_some_iff] at h
    obtain ⟨k, -, h⟩ := h
    have splitLater := List.take_append_drop k later
    split at h
    · next empty =>
        cases h
        rw [List.isEmpty_iff] at empty
        rw [empty, List.nil_append] at splitLater
        rw [splitEarlier, splitLater]
    · -- Either way the merge starts with the members that are not in their places already.
      have whole : ∀ merged : List α, merged.Perm (earlier.drop n ++ later.take k) →
          (earlier.take n ++ merged ++ later.drop k).Perm (earlier ++ later) := by
        intro merged middle
        have around := (middle.append_left (earlier.take n)).append_right (later.drop k)
        rwa [← List.append_assoc, splitEarlier, List.append_assoc earlier, splitLater] at around
      split at h
      · simp only [Option.bind_eq_some_iff] at h
        obtain ⟨⟨merged, last⟩, found, h⟩ := h
        cases h
        exact whole merged ((Merge.run_perm found).trans (Merge.members_takeLater _ 1))
      · simp only [Option.bind_eq_some_iff] at h
        obtain ⟨⟨merged, last⟩, found, h⟩ := h
        cases h
        have turned := (Merge.run_perm found).trans (Merge.members_takeEarlier _ 1)
        exact whole merged (turned.trans ((List.reverse_perm _).append (List.reverse_perm _)))

/-! ## Runs -/

/-- Insertion adds the one member. -/
theorem insert_perm {x : α} {run xs : List α} (h : insert less? x run = some xs) :
    xs.Perm (run ++ [x]) := by
  simp only [insert, Option.bind_eq_bind, Option.bind_eq_some_iff] at h
  obtain ⟨place, -, h⟩ := h
  cases h
  have moved : (run.take place ++ x :: run.drop place).Perm
      (x :: (run.take place ++ run.drop place)) :=
    List.perm_middle
  rw [List.take_append_drop] at moved
  exact moved.trans (List.perm_append_singleton x run).symm

/-- A run and what is left are the list. -/
theorem continueRun_append {falling : Bool} {x : α} {xs run others : List α}
    (h : continueRun less? falling x xs = some (run, others)) : run ++ others = xs := by
  induction xs generalizing x run with
  | nil =>
      cases h
      rfl
  | cons y rest ih =>
      simp only [continueRun, Option.bind_eq_bind, Option.bind_eq_some_iff] at h
      obtain ⟨below, -, h⟩ := h
      split at h
      · simp only [Option.bind_eq_some_iff] at h
        obtain ⟨⟨run', others'⟩, found, h⟩ := h
        cases h
        rw [List.cons_append, ih found]
      · cases h
        rfl

/-- So are the first run and what is left, up to order. The list gets shorter. -/
theorem firstRun_perm {xs run others : List α} (h : firstRun less? xs = some (run, others)) :
    (run ++ others).Perm xs ∧ others.length ≤ xs.length - 1 := by
  unfold firstRun at h
  split at h
  · next x y rest =>
      simp only [Option.bind_eq_bind, Option.bind_eq_some_iff] at h
      obtain ⟨falling, -, ⟨run', others'⟩, found, h⟩ := h
      have whole := continueRun_append found
      cases h
      refine ⟨?_, by rw [← whole]; simp; omega⟩
      rw [← whole]
      split
      · exact (List.reverse_perm _).append_right others'
      · exact .refl _
  · cases h
    simp

/-- Insertions add the members that are inserted. -/
theorem foldlM_insert_perm {xs run run' : List α}
    (h : xs.foldlM (fun run x => insert less? x run) run = some run') :
    run'.Perm (run ++ xs) := by
  induction xs generalizing run with
  | nil =>
      cases h
      simp
  | cons x rest ih =>
      simp only [List.foldlM_cons, Option.bind_eq_bind, Option.bind_eq_some_iff] at h
      obtain ⟨next, inserted, h⟩ := h
      have step := (insert_perm inserted).append_right rest
      rw [List.append_assoc, List.singleton_append] at step
      exact (ih h).trans step

/-- A run that was filled up and what is left are the list, up to order. -/
theorem fullRun_perm {least : Nat} {xs run others : List α}
    (h : fullRun less? least xs = some (run, others)) :
    (run ++ others).Perm xs ∧ others.length ≤ xs.length - 1 := by
  simp only [fullRun, Option.bind_eq_bind, Option.bind_eq_some_iff] at h
  obtain ⟨⟨first, rest⟩, found, filled, inserted, h⟩ := h
  cases h
  obtain ⟨whole, shorter⟩ := firstRun_perm found
  have fill := (foldlM_insert_perm inserted).append_right (rest.drop (least - first.length))
  rw [List.append_assoc, List.take_append_drop] at fill
  refine ⟨fill.trans whole, ?_⟩
  simp only [List.length_drop]
  omega

/-! ## Pending runs -/

/-- The members of runs, those of the last run last. -/
def itemsOf (runs : List (Run α)) : List α :=
  (runs.reverse.map Run.items).flatten

theorem itemsOf_cons (run : Run α) (others : List (Run α)) :
    itemsOf (run :: others) = itemsOf others ++ run.items := by
  simp [itemsOf]

namespace Pending

/-- Settling pending runs loses nothing. -/
theorem settle_perm {depth threshold : Nat} {last : Run α} {others : List (Run α)} {p : Pending α}
    (h : settle less? depth threshold last others = some p) :
    (itemsOf p.runs).Perm (itemsOf (last :: others)) := by
  induction others generalizing threshold last with
  | nil =>
      cases h
      simp [itemsOf_cons]
  | cons run others ih =>
      rw [settle] at h
      split at h
      · simp only [Option.bind_eq_bind, Option.bind_eq_some_iff] at h
        obtain ⟨⟨items, threshold'⟩, merged, h⟩ := h
        have joined := (merge_perm merged).append_left (itemsOf others)
        have before := ih h
        simp only [itemsOf_cons, List.append_assoc] at before ⊢
        exact before.trans joined
      · cases h
        simp [itemsOf_cons]

/-- A run that is added adds its members. -/
theorem add_perm {size : Nat} {p p' : Pending α} {items : List α}
    (h : p.add less? size items = some p') :
    (itemsOf p'.runs).Perm (itemsOf p.runs ++ items) := by
  unfold add at h
  split at h
  · next empty =>
      cases h
      simp [empty, itemsOf]
  · next last others runs =>
      simp only [Option.bind_eq_bind, Option.bind_eq_some_iff] at h
      obtain ⟨settled, found, h⟩ := h
      cases h
      rw [itemsOf_cons, runs]
      exact (settle_perm found).append_right items

/-- Merging all runs loses nothing. -/
theorem mergeAll_perm {threshold : Nat} {runs : List (Run α)} {xs : List α}
    (h : mergeAll less? threshold runs = some xs) : xs.Perm (itemsOf runs) := by
  induction size : runs.length generalizing threshold runs with
  | zero =>
      rw [List.length_eq_zero_iff] at size
      subst size
      rw [mergeAll] at h
      cases h
      exact .refl _
  | succ size' ih =>
      rcases runs with _ | ⟨z, _ | ⟨y, _ | ⟨x, others⟩⟩⟩
      · cases size
      · rw [mergeAll] at h
        cases h
        simp [itemsOf]
      · rw [mergeAll, Option.map_eq_some_iff] at h
        obtain ⟨⟨items, threshold'⟩, merged, rfl⟩ := h
        simpa [itemsOf] using merge_perm merged
      · simp only [List.length_cons, Nat.add_right_cancel_iff] at size
        rw [mergeAll] at h
        split at h
        · simp only [Option.bind_eq_bind, Option.bind_eq_some_iff] at h
          obtain ⟨⟨items, threshold'⟩, merged, h⟩ := h
          have joined := (merge_perm merged).append_right z.items
          have rest := ih h (by simp [size])
          simp only [itemsOf_cons, List.append_assoc] at rest joined ⊢
          exact rest.trans (joined.append_left (itemsOf others))
        · simp only [Option.bind_eq_bind, Option.bind_eq_some_iff] at h
          obtain ⟨⟨items, threshold'⟩, merged, h⟩ := h
          have joined := merge_perm merged
          have rest := ih h (by simp [size])
          simp only [itemsOf_cons, List.append_assoc] at rest ⊢
          exact rest.trans ((joined.append_left x.items).append_left (itemsOf others))

end Pending

/-- Each turn of the loop takes one member at least, so as many turns as members are enough. -/
theorem addRuns_perm {size fuel : Nat} {p p' : Pending α} {xs : List α} (enough : xs.length ≤ fuel)
    (h : addRuns less? size fuel p xs = some p') :
    (itemsOf p'.runs).Perm (itemsOf p.runs ++ xs) := by
  induction fuel generalizing p xs with
  | zero =>
      have empty : xs = [] := List.length_eq_zero_iff.mp (Nat.le_zero.mp enough)
      subst empty
      cases h
      simp
  | succ fuel ih =>
      cases xs with
      | nil =>
          cases h
          simp
      | cons x rest =>
          simp only [addRuns, Option.bind_eq_bind, Option.bind_eq_some_iff] at h
          obtain ⟨⟨run, others⟩, found, next, added, h⟩ := h
          obtain ⟨whole, shorter⟩ := fullRun_perm found
          simp only [List.length_cons, Nat.add_sub_cancel] at shorter enough
          have fewer : others.length ≤ fuel := by omega
          have later := ih fewer h
          have here := (Pending.add_perm added).append_right others
          rw [List.append_assoc] at here
          exact (later.trans here).trans (whole.append_left (itemsOf p.runs))

/-- Sorting is a permutation. -/
theorem sort?_perm {xs ys : List α} (h : sort? less? xs = some ys) : ys.Perm xs := by
  simp only [sort?, Option.bind_eq_bind, Option.bind_eq_some_iff] at h
  obtain ⟨p, added, h⟩ := h
  have runs := addRuns_perm (Nat.le_refl _) added
  exact (Pending.mergeAll_perm h).trans runs

end EnvReads.RunSort

namespace EnvReads.Value

/-- So is sorting by a key. -/
theorem sortOn?_perm {α : Type} {key : α → Value} {xs ys : List α} (h : sortOn? key xs = some ys) :
    ys.Perm xs := by
  rw [sortOn?] at h
  split at h
  · cases h
    exact List.mergeSort_perm xs _
  · exact RunSort.sort?_perm h

/-- A list with one member is not compared at all. -/
theorem sortOn?_singleton {α : Type} (key : α → Value) (x : α) : sortOn? key [x] = some [x] := by
  rw [sortOn?]
  split
  · rw [List.mergeSort_singleton]
  · simp [RunSort.sort?, RunSort.addRuns, RunSort.fullRun, RunSort.firstRun, RunSort.Pending.add,
      RunSort.Pending.mergeAll]

end EnvReads.Value
