import EnvReads.Proofs.RankedSort
import EnvReads.Proofs.UnconfirmedAliases
import Mathlib.Data.List.Perm.Basic

/-!
# The order of reads

The reads of a tree are gathered first (`Candidate.gather`), direct ones before those through a
variable `env`, each kind in the order of the tree, and then sorted by where they stand. If all of
them stand at a line and a column that are integers, then the sort succeeds and is stable: reads at
the same place keep the order in which they were gathered (`Candidate.exists_order_of_find`).
-/

namespace EnvReads

namespace Span

/-- The line and the column where something stands that may have no span, in which case both are
zero. There are none if one of them is no integer. -/
def place? : Option Span → Option (Int × Int)
  | none => some (0, 0)
  | some span =>
    span.startLine.int?.bind fun line => span.startColumn.int?.map fun column => (line, column)

/-- The key of a span with a place is a pair of integers. -/
theorem key?_of_place? {span : Option Span} {line column : Int}
    (h : place? span = some (line, column)) : key? span = Value.pair line column := by
  have int : ∀ {v : Value} {n : Int}, v.int? = some n → v = .int n := by
    intro v n found
    cases v <;> cases found
    rfl
  cases span with
  | none =>
      cases h
      rfl
  | some span =>
      obtain ⟨l, startLine, rest⟩ := Option.bind_eq_some_iff.mp h
      obtain ⟨c, startColumn, same⟩ := Option.map_eq_some_iff.mp rest
      cases same
      change Value.list [span.startLine, span.startColumn] = _
      rw [int startLine, int startColumn]
      rfl

end Span

namespace Candidate

/-- The read stands at a line and a column that are integers, or has no place. -/
def IsPlaced (c : Candidate) : Prop :=
  (Span.place? c.span).isSome

/-- Reads are ranked by their lines, and in a line by their columns. -/
def rank (c : Candidate) : Int ×ₗ Int :=
  toLex ((Span.place? c.span).getD (0, 0))

/-- The key of a read with a place is the pair of its rank. -/
theorem key?_of_isPlaced {c : Candidate} (h : c.IsPlaced) :
    Span.key? c.span = Value.pair (ofLex c.rank).1 (ofLex c.rank).2 := by
  obtain ⟨⟨line, column⟩, place⟩ := Option.isSome_iff_exists.mp h
  rw [Span.key?_of_place? place, rank, place]
  rfl

/-- Reads with places are sorted by rank. -/
theorem sort_of_isPlaced {cs : List Candidate} (h : ∀ c ∈ cs, c.IsPlaced) :
    sort cs = .ok (rankSort rank cs) := by
  have sorted : Value.sortOn? (fun c => Span.key? c.span) cs = some (rankSort rank cs) := by
    refine Value.sortOn?_eq_rankSort ?_ ?_
    · intro a mem b mem'
      rw [key?_of_isPlaced (h a mem), key?_of_isPlaced (h b mem'), Value.less?_pair]
      rfl
    · intro a mem
      rw [key?_of_isPlaced (h a mem)]
      rfl
  rw [sort, sorted]

/-- The reads that are found, each with the number under which it was gathered. They stand in the
order of their places, and at the same place in the order of these numbers. -/
theorem exists_order_of_find {tree : Node} {cs : List Candidate} (h : find tree = .ok cs) :
    ∃ (gathered : List Candidate) (order : List (Candidate × Nat)),
      gather tree = .ok gathered ∧ order.Perm gathered.zipIdx ∧ order.map Prod.fst = cs ∧
      ((∀ c ∈ gathered, c.IsPlaced) → order.Pairwise (Precedes rank)) := by
  obtain ⟨gathered, found, sorted⟩ := Except.bind_eq_ok_iff.mp h
  by_cases placed : ∀ c ∈ gathered, c.IsPlaced
  · obtain ⟨order, perm, same, pairwise⟩ := exists_order_of_rankSort rank gathered
    rw [sort_of_isPlaced placed] at sorted
    cases sorted
    exact ⟨gathered, order, found, perm, same, fun _ => pairwise⟩
  · -- Whatever the order of the reads is, they are those that were gathered.
    have numbered : List.Forall₂ (fun c p => c = p.1) gathered gathered.zipIdx := by
      have firsts : List.Forall₂ (fun c (p : Candidate × Nat) => c = p.1)
          (gathered.zipIdx.map Prod.fst) gathered.zipIdx :=
        List.forall₂_map_left_iff.mpr (List.forall₂_same.mpr fun _ _ => rfl)
      rwa [List.zipIdx_map_fst] at firsts
    obtain ⟨order, same, perm⟩ := List.perm_comp_forall₂ (perm_of_sort sorted) numbered
    refine ⟨gathered, order, found, perm, ?_, fun all => absurd all placed⟩
    have firsts := List.forall₂_map_right_iff.mpr same
    rw [List.forall₂_eq_eq_eq] at firsts
    exact firsts.symm

end Candidate

end EnvReads
