import EnvReads.Ignore.Piece

/-!
# What pieces match

A piece of an ignore pattern leads from one place of a path to others (`Piece.Leads`), and pieces in
a row lead from place to place (`Piece.LeadsAll`). The marks that a match keeps are exactly the
places that can be reached in this way, so a path matches if the pieces lead somewhere from its
start (`Piece.matchAll_iff`).
-/

namespace EnvReads

namespace Piece

variable {t : Text} {p : CodePoint → Bool} {i j k : Nat}

/-! ## Places -/

/-- One code point of the class stands between two places. -/
def Next (p : CodePoint → Bool) (t : Text) (i j : Nat) : Prop :=
  j = i + 1 ∧ ∃ c, t[i]? = some c ∧ p c

/-- All that stands between two places is of the class. -/
structure Run (p : CodePoint → Bool) (t : Text) (i j : Nat) : Prop where
  le : i ≤ j
  inside : j ≤ t.length
  all : ∀ k c, i ≤ k → k < j → t[k]? = some c → p c

/-- Only a line feed, if anything, stands after a place. -/
def Final (t : Text) (i : Nat) : Prop :=
  i = t.length ∨ i + 1 = t.length ∧ t[i]? = some lineFeed

/-- The places that matching a piece leads to. -/
def Leads (t : Text) : Piece → Nat → Nat → Prop
  | literal c, i, j => Next (· = c) t i j
  | one, i, j => Next isNotSlash t i j
  | many, i, j => Run isNotSlash t i j
  | component, i, j => i < j ∧ Run isNotSlash t i j
  | set s, i, j => Next s.contains t i j
  | leading, i, j => i = j ∨ ∃ k, (i < k ∧ Run isNotLineFeed t i k) ∧ Next isSlash t k j
  | between, i, j => i = j ∨ ∃ k, Next isSlash t i k ∧ k < j ∧ Run isNotLineFeed t k j
  | stop, i, j => Next isSlash t i j ∨ i = j ∧ Final t i

/-- The places that matching pieces one after the other leads to. -/
def LeadsAll (t : Text) : List Piece → Nat → Nat → Prop
  | [], i, j => i = j
  | piece :: rest, i, j => ∃ k, Leads t piece i k ∧ LeadsAll t rest k j

/-- Pieces lead on from where those before them lead. -/
theorem leadsAll_append {ps qs : List Piece} :
    LeadsAll t (ps ++ qs) i j ↔ ∃ k, LeadsAll t ps i k ∧ LeadsAll t qs k j := by
  induction ps generalizing i with
  | nil => simp [LeadsAll]
  | cons piece ps ih =>
      simp only [List.cons_append, LeadsAll, ih]
      constructor
      · rintro ⟨k, first, m, before, after⟩
        exact ⟨m, ⟨k, first, before⟩, after⟩
      · rintro ⟨m, ⟨k, first, before⟩, after⟩
        exact ⟨k, first, m, before, after⟩

@[simp] theorem leadsAll_singleton {piece : Piece} :
    LeadsAll t [piece] i j ↔ Leads t piece i j := by
  simp [LeadsAll]

theorem Run.refl (inside : i ≤ t.length) : Run p t i i :=
  ⟨Nat.le_refl i, inside, fun _ _ first last => absurd last (Nat.not_lt.mpr first)⟩

/-- A run goes on where another ends. -/
theorem Run.trans (first : Run p t i j) (second : Run p t j k) : Run p t i k where
  le := Nat.le_trans first.le second.le
  inside := second.inside
  all := by
    intro m c start finish at_m
    by_cases before : m < j
    · exact first.all m c start before at_m
    · exact second.all m c (Nat.not_lt.mp before) finish at_m

theorem Next.lt_length (h : Next p t i j) : i < t.length := by
  obtain ⟨-, c, at_i, -⟩ := h
  exact (List.getElem?_eq_some_iff.mp at_i).1

theorem Next.run (h : Next p t i j) : Run p t i j := by
  have inside := h.lt_length
  obtain ⟨rfl, c, at_i, fits⟩ := h
  refine ⟨Nat.le_succ i, inside, fun k d first last at_k => ?_⟩
  obtain rfl := Nat.le_antisymm first (Nat.le_of_lt_succ last)
  cases at_i.symm.trans at_k
  exact fits

/-- A run of at least one code point starts with one. -/
theorem exists_next_run : i < j ∧ Run p t i j ↔ ∃ k, Next p t i k ∧ Run p t k j := by
  constructor
  · rintro ⟨less, run⟩
    have inside : i < t.length := Nat.lt_of_lt_of_le less run.inside
    have at_i := List.getElem?_eq_getElem inside
    refine ⟨i + 1, ⟨rfl, _, at_i, run.all i _ (Nat.le_refl i) less at_i⟩, less, run.inside, ?_⟩
    intro k c first
    exact run.all k c (Nat.le_of_succ_le first)
  · rintro ⟨k, next, run⟩
    refine ⟨?_, next.run.trans run⟩
    have := next.1
    have := run.le
    omega

/-- Only an empty run ends at the start. -/
theorem run_to_zero : Run p t i 0 ↔ i = 0 := by
  constructor
  · intro run
    exact Nat.le_zero.mp run.le
  · rintro rfl
    exact .refl (Nat.zero_le _)

/-- A run can be seen without the first code point. -/
theorem run_succ_succ {c : CodePoint} : Run p (c :: t) (i + 1) (j + 1) ↔ Run p t i j := by
  constructor
  · rintro ⟨le, inside, all⟩
    refine ⟨Nat.le_of_succ_le_succ le, Nat.le_of_succ_le_succ inside, fun k d first last at_k => ?_⟩
    exact all (k + 1) d (Nat.succ_le_succ first) (Nat.succ_lt_succ last) at_k
  · rintro ⟨le, inside, all⟩
    refine ⟨Nat.succ_le_succ le, Nat.succ_le_succ inside, fun k d first last at_k => ?_⟩
    cases k with
    | zero => cases first
    | succ k => exact all k d (Nat.le_of_succ_le_succ first) (Nat.lt_of_succ_lt_succ last) at_k

/-- A run from the start begins with the first code point. -/
theorem run_zero_succ {c : CodePoint} : Run p (c :: t) 0 (j + 1) ↔ p c ∧ Run p t 0 j := by
  constructor
  · intro run
    have rest : Run p (c :: t) (0 + 1) (j + 1) :=
      ⟨Nat.succ_le_succ (Nat.zero_le j), run.inside, fun k d _ => run.all k d (Nat.zero_le k)⟩
    exact ⟨run.all 0 c (Nat.le_refl 0) (Nat.succ_pos j) rfl, run_succ_succ.mp rest⟩
  · rintro ⟨fits, run⟩
    exact Run.trans (Next.run ⟨rfl, c, rfl, fits⟩) (run_succ_succ.mpr run)

/-! ## Marks -/

namespace Marks

variable {marks others : Marks}

/-- A place is marked. -/
def At (marks : Marks) (i : Nat) : Prop :=
  marks[i]? = some true

/-- There is a mark for each place of a path. -/
def Fits (t : Text) (marks : Marks) : Prop :=
  marks.length = t.length + 1

/-- Marks stay within the text. -/
theorem At.le_length (fits : marks.Fits t) (h : marks.At i) : i ≤ t.length := by
  have := (List.getElem?_eq_some_iff.mp h).1
  rw [Fits] at fits
  omega

theorem fits_start : (start t).Fits t := by
  simp [Fits, start]

/-- One step keeps as many marks as there are places. -/
theorem fits_step (fits : marks.Fits t) : (marks.step p t).Fits t := by
  rw [Fits] at fits
  simp [Fits, step, fits]

/-- So does spreading. -/
theorem fits_spread {reached : Bool} (fits : marks.Fits t) : (spread p reached t marks).Fits t := by
  induction t generalizing marks reached with
  | nil =>
      match marks, fits with
      | [mark], _ => rfl
  | cons c t ih =>
      match marks, fits with
      | mark :: marks, fits => exact congrArg (· + 1) (ih (Nat.succ.inj fits))

theorem fits_union (fits : marks.Fits t) (fits' : others.Fits t) : (marks.union others).Fits t := by
  rw [Fits] at fits fits'
  simp [Fits, union, fits, fits']

theorem fits_atEnd (fits : marks.Fits t) : (atEnd t marks).Fits t := by
  induction t generalizing marks with
  | nil => exact fits
  | cons c t ih =>
      match marks, fits with
      | mark :: marks, fits => exact congrArg (· + 1) (ih (Nat.succ.inj fits))

/-- At first only the start is marked. -/
theorem at_start : (start t).At i ↔ i = 0 := by
  cases i with
  | zero => simp [At, start]
  | succ i =>
      rw [At, start, List.getElem?_cons_succ, List.getElem?_map]
      cases t[i]? <;> simp

/-- A step marks the places after those that were marked. -/
theorem at_step : (marks.step p t).At j ↔ ∃ i, marks.At i ∧ Next p t i j := by
  cases j with
  | zero => simp [At, step, Next]
  | succ j =>
      rw [At, step, List.getElem?_cons_succ, List.getElem?_zipWith_eq_some]
      constructor
      · rintro ⟨mark, c, at_j, at_c, both⟩
        obtain ⟨rfl, fits⟩ := Bool.and_eq_true_iff.mp both
        exact ⟨j, at_j, rfl, c, at_c, fits⟩
      · rintro ⟨i, at_i, eq, c, at_c, fits⟩
        obtain rfl := Nat.succ.inj eq
        exact ⟨true, c, at_i, at_c, fits⟩

/-- A union has the marks of both. -/
theorem at_union (fits : marks.Fits t) (fits' : others.Fits t) :
    (marks.union others).At i ↔ marks.At i ∨ others.At i := by
  rw [At, union, List.getElem?_zipWith_eq_some]
  constructor
  · rintro ⟨mark, other, at_i, at_i', either⟩
    rcases Bool.or_eq_true_iff.mp either with rfl | rfl
    · exact .inl at_i
    · exact .inr at_i'
  · intro either
    have inside : i ≤ t.length := either.elim (At.le_length fits) (At.le_length fits')
    have first := List.getElem?_eq_getElem (show i < marks.length by rw [fits]; omega)
    have second := List.getElem?_eq_getElem (show i < others.length by rw [fits']; omega)
    refine ⟨_, _, first, second, ?_⟩
    rcases either with marked | marked
    · rw [Option.some.inj (first.symm.trans marked), Bool.true_or]
    · rw [Option.some.inj (second.symm.trans marked), Bool.or_true]

theorem at_cons_zero {mark : Bool} : At (mark :: marks) 0 ↔ mark := by
  simp [At]

theorem at_cons_succ {mark : Bool} : At (mark :: marks) (i + 1) ↔ marks.At i := by
  simp [At]

theorem exists_at_cons {mark : Bool} {q : Nat → Prop} :
    (∃ i, At (mark :: marks) i ∧ q i) ↔ mark ∧ q 0 ∨ ∃ i, marks.At i ∧ q (i + 1) := by
  constructor
  · rintro ⟨_ | i, marked, holds⟩
    · exact .inl ⟨at_cons_zero.mp marked, holds⟩
    · exact .inr ⟨i, at_cons_succ.mp marked, holds⟩
  · rintro (⟨marked, holds⟩ | ⟨i, marked, holds⟩)
    · exact ⟨0, at_cons_zero.mpr marked, holds⟩
    · exact ⟨i + 1, at_cons_succ.mpr marked, holds⟩

/-- Spreading marks all places to which a run leads. -/
theorem at_spread {reached : Bool} (fits : marks.Fits t) :
    (spread p reached t marks).At j ↔
      reached ∧ Run p t 0 j ∨ ∃ i, marks.At i ∧ Run p t i j := by
  induction t generalizing marks reached j with
  | nil =>
      match marks, fits with
      | [mark], _ =>
          rw [spread, exists_at_cons]
          cases j with
          | zero => simp [at_cons_zero, run_to_zero]
          | succ j =>
              have past : ∀ i, ¬Run p [] i (j + 1) := fun i run => absurd run.inside (by simp)
              simp [At, past]
  | cons c t ih =>
      match marks, fits with
      | mark :: marks, fits =>
          rw [spread, exists_at_cons]
          cases j with
          | zero => simp [at_cons_zero, run_to_zero]
          | succ j =>
              rw [at_cons_succ, ih (Nat.succ.inj fits), run_zero_succ]
              simp only [run_succ_succ, Bool.and_eq_true, Bool.or_eq_true, or_and_right, and_assoc,
                or_assoc]

/-- At the end only marks at an end of the text are left. -/
theorem at_atEnd (fits : marks.Fits t) : (atEnd t marks).At i ↔ marks.At i ∧ Final t i := by
  induction t generalizing marks i with
  | nil =>
      refine (and_iff_left_of_imp fun marked => ?_).symm
      exact .inl (Nat.le_zero.mp (At.le_length fits marked))
  | cons c t ih =>
      match marks, fits with
      | mark :: marks, fits =>
          rw [atEnd]
          cases i with
          | zero => simp [at_cons_zero, Final, and_assoc]
          | succ i =>
              rw [at_cons_succ, at_cons_succ, ih (Nat.succ.inj fits)]
              simp [Final]

end Marks

theorem fits_advance {marks : Marks} {piece : Piece} (fits : marks.Fits t) :
    (advance t marks piece).Fits t := by
  cases piece with
  | literal c => exact Marks.fits_step fits
  | one => exact Marks.fits_step fits
  | many => exact Marks.fits_spread fits
  | component => exact Marks.fits_spread (Marks.fits_step fits)
  | set s => exact Marks.fits_step fits
  | leading =>
      exact Marks.fits_union fits (Marks.fits_step (Marks.fits_spread (Marks.fits_step fits)))
  | between =>
      exact Marks.fits_union fits (Marks.fits_spread (Marks.fits_step (Marks.fits_step fits)))
  | stop => exact Marks.fits_union (Marks.fits_step fits) (Marks.fits_atEnd fits)

/-- Places that at least one code point of the class leads to. -/
theorem at_spread_step {marks : Marks} (fits : marks.Fits t) :
    (Marks.spread p false t (marks.step p t)).At j ↔ ∃ i, marks.At i ∧ i < j ∧ Run p t i j := by
  rw [Marks.at_spread (Marks.fits_step fits)]
  simp only [Marks.at_step, exists_next_run, Bool.false_eq_true, false_and, false_or]
  constructor
  · rintro ⟨k, ⟨i, marked, next⟩, run⟩
    exact ⟨i, marked, k, next, run⟩
  · rintro ⟨i, marked, k, next, run⟩
    exact ⟨k, ⟨i, marked, next⟩, run⟩

/-- Matching a piece marks exactly the places that the piece leads to from marked ones. -/
theorem at_advance {marks : Marks} {piece : Piece} (fits : marks.Fits t) :
    (advance t marks piece).At j ↔ ∃ i, marks.At i ∧ Leads t piece i j := by
  cases piece with
  | literal c => exact Marks.at_step
  | one => exact Marks.at_step
  | many => simp [advance, Leads, Marks.at_spread fits]
  | component => exact at_spread_step fits
  | set s => exact Marks.at_step
  | leading =>
      rw [advance, Marks.at_union fits
        (Marks.fits_step (Marks.fits_spread (Marks.fits_step fits))), Marks.at_step]
      simp only [at_spread_step fits, Leads]
      constructor
      · rintro (marked | ⟨k, ⟨i, marked, run⟩, next⟩)
        · exact ⟨j, marked, .inl rfl⟩
        · exact ⟨i, marked, .inr ⟨k, run, next⟩⟩
      · rintro ⟨i, marked, rfl | ⟨k, run, next⟩⟩
        · exact .inl marked
        · exact .inr ⟨k, ⟨i, marked, run⟩, next⟩
  | between =>
      rw [advance, Marks.at_union fits
        (Marks.fits_spread (Marks.fits_step (Marks.fits_step fits))),
        at_spread_step (Marks.fits_step fits)]
      simp only [Marks.at_step, Leads]
      constructor
      · rintro (marked | ⟨k, ⟨i, marked, next⟩, run⟩)
        · exact ⟨j, marked, .inl rfl⟩
        · exact ⟨i, marked, .inr ⟨k, next, run⟩⟩
      · rintro ⟨i, marked, rfl | ⟨k, next, run⟩⟩
        · exact .inl marked
        · exact .inr ⟨k, ⟨i, marked, next⟩, run⟩
  | stop =>
      rw [advance, Marks.at_union (Marks.fits_step fits) (Marks.fits_atEnd fits), Marks.at_step,
        Marks.at_atEnd fits]
      simp only [Leads]
      constructor
      · rintro (⟨i, marked, next⟩ | ⟨marked, final⟩)
        · exact ⟨i, marked, .inl next⟩
        · exact ⟨j, marked, .inr ⟨rfl, final⟩⟩
      · rintro ⟨i, marked, next | ⟨rfl, final⟩⟩
        · exact .inl ⟨i, marked, next⟩
        · exact .inr ⟨marked, final⟩

/-- Pieces move the marks to where they lead. -/
theorem at_foldl_advance {marks : Marks} (ps : List Piece) (fits : marks.Fits t) :
    (ps.foldl (advance t) marks).At j ↔ ∃ i, marks.At i ∧ LeadsAll t ps i j := by
  induction ps generalizing marks with
  | nil => simp [LeadsAll]
  | cons piece ps ih =>
      rw [List.foldl_cons, ih (fits_advance fits)]
      simp only [at_advance fits, LeadsAll]
      constructor
      · rintro ⟨k, ⟨i, marked, first⟩, rest⟩
        exact ⟨i, marked, k, first, rest⟩
      · rintro ⟨i, marked, k, first, rest⟩
        exact ⟨k, ⟨i, marked, first⟩, rest⟩

/-- Pieces match a path if they lead somewhere from its start. -/
theorem matchAll_iff {ps : List Piece} : matchAll ps t ↔ ∃ j, LeadsAll t ps 0 j := by
  have reached : matchAll ps t ↔ ∃ j, (ps.foldl (advance t) (Marks.start t)).At j := by
    simp only [matchAll, List.any_eq_true, id_eq, List.mem_iff_getElem?, Marks.At]
    simp
  rw [reached]
  simp only [at_foldl_advance ps Marks.fits_start, Marks.at_start, exists_eq_left]

/-! ## Longer paths -/

variable {r : Text}

/-- A step stays one if text follows. -/
theorem Next.append (h : Next p t i j) : Next p (t ++ r) i j := by
  have inside := h.lt_length
  obtain ⟨eq, c, at_i, fits⟩ := h
  exact ⟨eq, c, by rw [List.getElem?_append_left inside, at_i], fits⟩

/-- A run stays one if text follows. -/
theorem Run.append (h : Run p t i j) : Run p (t ++ r) i j where
  le := h.le
  inside := by
    rw [List.length_append]
    exact Nat.le_add_right_of_le h.inside
  all := by
    intro k c first last at_k
    rw [List.getElem?_append_left (Nat.lt_of_lt_of_le last h.inside)] at at_k
    exact h.all k c first last at_k

/-- Only a stop can see where a path ends. -/
theorem Leads.append {piece : Piece} (inner : piece ≠ stop) (h : Leads t piece i j) :
    Leads (t ++ r) piece i j := by
  cases piece with
  | literal c => exact Next.append h
  | one => exact Next.append h
  | many => exact Run.append h
  | component => exact ⟨h.1, h.2.append⟩
  | set s => exact Next.append h
  | leading =>
      rcases h with rfl | ⟨k, ⟨less, run⟩, next⟩
      · exact .inl rfl
      · exact .inr ⟨k, ⟨less, run.append⟩, next.append⟩
  | between =>
      rcases h with rfl | ⟨k, next, less, run⟩
      · exact .inl rfl
      · exact .inr ⟨k, next.append, less, run.append⟩
  | stop => exact absurd rfl inner

/-- Pieces lead to the same places if text follows, unless one asks for the end. -/
theorem LeadsAll.append {ps : List Piece} (inner : ∀ piece ∈ ps, piece ≠ stop)
    (h : LeadsAll t ps i j) : LeadsAll (t ++ r) ps i j := by
  induction ps generalizing i with
  | nil => exact h
  | cons piece ps ih =>
      obtain ⟨k, first, rest⟩ := h
      obtain ⟨innerFirst, innerRest⟩ := List.forall_mem_cons.mp inner
      exact ⟨k, first.append innerFirst, ih innerRest rest⟩

/-- From every place there is a longest run. -/
theorem exists_longest_run {i : Nat} (inside : i ≤ t.length) :
    ∃ j, Run p t i j ∧ ∀ c, t[j]? = some c → ¬p c := by
  by_cases more : ∃ j, Next p t i j
  · obtain ⟨_, next⟩ := more
    have := next.lt_length
    obtain rfl := next.1
    obtain ⟨j, run, final⟩ := exists_longest_run next.run.inside
    exact ⟨j, next.run.trans run, final⟩
  · exact ⟨i, .refl inside, fun c at_i fits => more ⟨i + 1, rfl, c, at_i, fits⟩⟩
termination_by t.length - i

end Piece

end EnvReads
