import EnvReads.Value.Order
import Mathlib.Data.List.Lex
import Mathlib.Data.Prod.Lex
import Mathlib.Order.Fin.Basic

/-!
# Sorting by keys that are in a linear order

`Value.sortOn?` sorts by values that need not have an order. If the keys compare as the members of a
linear order do, then it succeeds and is the stable sort by that order
(`Value.sortOn?_eq_rankSort`): a member comes before those of a higher rank, and before those of the
same rank that stood behind it (`exists_order_of_rankSort`). Texts are in such an order, by their
code points, and so are pairs of integers.
-/

namespace EnvReads

instance Text.instLinearOrder : LinearOrder Text :=
  @List.instLinearOrder CodePoint Fin.instLinearOrder

section

variable {α β : Type} [LinearOrder β]

/-- Sorts by a rank; members of the same rank keep their places. -/
def rankSort (rank : α → β) (xs : List α) : List α :=
  xs.mergeSort fun a b => decide (rank a ≤ rank b)

/-- The order of a stable sort of members that are numbered by their places. -/
def Precedes (rank : α → β) (a b : α × Nat) : Prop :=
  rank a.1 < rank b.1 ∨ rank a.1 = rank b.1 ∧ a.2 < b.2

/-- The sorted list is in the order of the ranks. -/
theorem pairwise_rankSort (rank : α → β) (xs : List α) :
    (rankSort rank xs).Pairwise fun a b => rank a ≤ rank b := by
  have sorted : (rankSort rank xs).Pairwise fun a b => decide (rank a ≤ rank b) := by
    apply List.pairwise_mergeSort
    · intro a b c first second
      simp only [decide_eq_true_eq] at first second ⊢
      exact le_trans first second
    · intro a b
      simpa using le_total (rank a) (rank b)
  exact sorted.imp fun ordered => of_decide_eq_true ordered

/-- The members of a sorted list, each with the place that it had before. -/
theorem exists_order_of_rankSort (rank : α → β) (xs : List α) :
    ∃ order : List (α × Nat), order.Perm xs.zipIdx ∧ order.map Prod.fst = rankSort rank xs ∧
      order.Pairwise (Precedes rank) := by
  let le : α → α → Bool := fun a b => decide (rank a ≤ rank b)
  refine ⟨xs.zipIdx.mergeSort (List.zipIdxLE le), List.mergeSort_perm _ _,
    List.mergeSort_zipIdx, ?_⟩
  have sorted : (xs.zipIdx.mergeSort (List.zipIdxLE le)).Pairwise
      fun a b => List.zipIdxLE le a b := by
    apply List.pairwise_mergeSort
    · apply List.zipIdxLE_trans
      intro a b c first second
      simp only [le, decide_eq_true_eq] at first second ⊢
      exact le_trans first second
    · apply List.zipIdxLE_total
      intro a b
      simpa [le] using le_total (rank a) (rank b)
  have distinct : (xs.zipIdx.mergeSort (List.zipIdxLE le)).Pairwise fun a b => a.2 ≠ b.2 := by
    have places : (xs.zipIdx.map Prod.snd).Nodup := by
      rw [List.zipIdx_map_snd]
      exact List.nodup_range'
    have places := (((List.mergeSort_perm xs.zipIdx (List.zipIdxLE le)).map Prod.snd).nodup_iff).mpr
      places
    rwa [List.Nodup, List.pairwise_map] at places
  refine (sorted.and distinct).imp ?_
  rintro a b ⟨ordered, apart⟩
  simp only [List.zipIdxLE, le, decide_eq_true_eq] at ordered
  split at ordered
  · next before =>
      split at ordered
      · next after =>
          have place := of_decide_eq_true ordered
          exact .inr ⟨le_antisymm before after, by omega⟩
      · next after => exact .inl (not_le.mp after)
  · cases ordered

namespace Value

/-- Keys are in order if each two members have keys that are. -/
theorem allOrdered_map {key : α → Value} {xs : List α}
    (h : ∀ a ∈ xs, ∀ b ∈ xs, (key a).isOrdered (key b)) : allOrdered (xs.map key) := by
  induction xs with
  | nil => rfl
  | cons x rest ih =>
      rw [List.map_cons, allOrdered, Bool.and_eq_true, List.all_eq_true]
      constructor
      · intro v mem
        obtain ⟨b, inside, rfl⟩ := List.mem_map.mp mem
        exact h x (.head _) b (.tail _ inside)
      · exact ih fun a mem b mem' => h a (.tail _ mem) b (.tail _ mem')

theorem anyNan_map {key : α → Value} {xs : List α} (h : ∀ a ∈ xs, (key a).hasNan = false) :
    anyNan (xs.map key) = false := by
  induction xs with
  | nil => rfl
  | cons x rest ih =>
      rw [List.map_cons, anyNan, h x (.head _), ih fun a mem => h a (.tail _ mem)]
      rfl

/-- Keys that compare as ranks do are sorted as ranks are. -/
theorem sortOn?_eq_rankSort {key : α → Value} {rank : α → β} {xs : List α}
    (compared : ∀ a ∈ xs, ∀ b ∈ xs, (key a).less? (key b) = some (decide (rank a < rank b)))
    (numbers : ∀ a ∈ xs, (key a).hasNan = false) : sortOn? key xs = some (rankSort rank xs) := by
  have ordered : allOrdered (xs.map key) := by
    refine allOrdered_map ?_
    intro a mem b mem'
    rw [isOrdered, compared a mem b mem']
    rfl
  have agree : ∀ a ∈ xs, ∀ b ∈ xs, (!(key b).less (key a)) = decide (rank a ≤ rank b) := by
    intro a mem b mem'
    rw [less, compared b mem' a mem]
    by_cases before : rank b < rank a
    · simp [before]
    · simp [before, not_lt.mp before]
  rw [sortOn?, ordered, anyNan_map numbers]
  have same := List.map_mergeSort (f := id) (s := fun a b => decide (rank a ≤ rank b)) agree
  rw [List.map_id, List.map_id] at same
  exact congrArg some same

/-! ## Keys in a linear order -/

/-- Texts are compared as texts. -/
theorem less?_text (s t : Text) : (text s).less? (text t) = some (decide (s < t)) := by
  rw [less?]

/-- The pair of two integers, by the first and then by the second. -/
def pair (n m : Int) : Value :=
  list [int n, int m]

/-- Pairs of integers are compared first by the first, then by the second. -/
theorem less?_pair (n m k l : Int) :
    (pair n m).less? (pair k l) = some (decide (toLex (n, m) < toLex (k, l))) := by
  have same : ∀ i j : Int, (int i).same (int j) = decide (i = j) := by
    intro i j
    simp [Value.same, amount?, Amount.ofInt, Amount.same]
  have less : ∀ i j : Int, (int i).less? (int j) = some (decide (i < j)) := by
    intro i j
    simp [less?, amount?, Amount.ofInt, Amount.less]
  have opened : (pair n m).less? (pair k l) =
      if n = k then if m = l then some false else some (decide (m < l))
      else some (decide (n < k)) := by
    rw [pair, pair, less?, lessItems?, lessItems?, lessItems?, same, same, less, less]
    simp only [decide_eq_true_eq]
  rw [opened]
  simp only [Prod.Lex.toLex_lt_toLex]
  by_cases first : n = k
  · by_cases second : m = l
    · simp [first, second]
    · simp [first, second]
  · simp [first]

end Value

end

end EnvReads
