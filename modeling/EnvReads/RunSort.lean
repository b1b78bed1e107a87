import EnvReads.RunSort.Merge

/-!
# Sorting by runs

A stable sort that makes use of runs, stretches that are in order already. Runs that are short are
filled up by insertion, and neighbouring runs are merged in an order that keeps the merges balanced.
The test that compares two members can fail, and the sort then fails if it comes to that test. It
needs no order to come to an end: the result is a permutation, and the tests that it makes decide
which one.
-/

namespace EnvReads.RunSort

variable {α : Type}

/-- Puts a member into a run, behind those that it does not come before. -/
def insert (less? : α → α → Option Bool) (x : α) (run : List α) : Option (List α) := do
  let place ← bisect (fun i => run[i]?.bind (less? x)) 0 run.length
  return run.take place ++ x :: run.drop place

/-- The longest run that goes on from a member, and what follows. Each member of a falling run
comes before the one ahead of it; in a rising run none does. -/
def continueRun (less? : α → α → Option Bool) (falling : Bool) :
    α → List α → Option (List α × List α)
  | _, [] => some ([], [])
  | x, y :: rest => do
    if (← less? y x) = falling then
      let (run, others) ← continueRun less? falling y rest
      return (y :: run, others)
    else
      return ([], y :: rest)

/-- The run at the start of a list, and what follows. A falling run is turned around. -/
def firstRun (less? : α → α → Option Bool) : List α → Option (List α × List α)
  | x :: y :: rest => do
    let falling ← less? y x
    let (run, others) ← continueRun less? falling y rest
    return (if falling then (x :: y :: run).reverse else x :: y :: run, others)
  | short => some (short, [])

/-- The size that short runs are filled up to. A list of less than 64 members is one run; a longer
one is cut into a power of two of runs, or a little less, of 32 to 64 members each. -/
def minRun (size : Nat) : Nat :=
  let share := Nat.pow 2 (size.log2 - 5)
  (size + share - 1) / share

/-- A run of a list that is being sorted. -/
structure Run (α : Type) where
  /-- The place in the list where it starts. -/
  start : Nat
  items : List α
  /-- How deep in a balanced tree of merges the one with the next run is. -/
  depth : Nat := 0

/-- The depth of a merge: how often the list has to be halved until the middles of both runs are in
different parts. -/
def mergeDepth (size : Nat) (run : Run α) (next : List α) : Nat :=
  let low := 2 * run.start + run.items.length
  let high := low + run.items.length + next.length
  let parts (d : Nat) := low * Nat.pow 2 d / size != high * Nat.pow 2 d / size
  ((List.range (size.log2 + 2)).find? parts).getD 0

/-- Runs that wait to be merged, the last one first, and how many members in a row it takes a merge
to gallop. -/
structure Pending (α : Type) where
  runs : List (Run α) := []
  threshold : Nat := minGallop

namespace Pending

/-- Merges the last run with those ahead of it as long as their merges are deeper than the one with
a new run. -/
def settle (less? : α → α → Option Bool) (depth threshold : Nat) (last : Run α) :
    List (Run α) → Option (Pending α)
  | [] => some { runs := [{ last with depth }], threshold }
  | run :: others => do
    if depth < run.depth then
      let (items, threshold) ← merge less? threshold run.items last.items
      settle less? depth threshold { run with items } others
    else
      return { runs := { last with depth } :: run :: others, threshold }

/-- Adds a new run to a list of the given size. -/
def add (less? : α → α → Option Bool) (size : Nat) (p : Pending α) (items : List α) :
    Option (Pending α) :=
  match p.runs with
  | [] => some { p with runs := [{ start := 0, items }] }
  | last :: others => do
    let p ← settle less? (mergeDepth size last items) p.threshold last others
    return { p with runs := { start := last.start + last.items.length, items } :: p.runs }

/-- Merges all runs into one. A run between a shorter and a longer one is merged with the shorter.
-/
def mergeAll (less? : α → α → Option Bool) (threshold : Nat) :
    List (Run α) → Option (List α)
  | z :: y :: x :: others => do
    if x.items.length < z.items.length then
      let (items, threshold) ← merge less? threshold x.items y.items
      mergeAll less? threshold (z :: { x with items } :: others)
    else
      let (items, threshold) ← merge less? threshold y.items z.items
      mergeAll less? threshold ({ y with items } :: x :: others)
  | [z, y] => (merge less? threshold y.items z.items).map Prod.fst
  | [z] => some z.items
  | [] => some []
termination_by runs => runs.length

end Pending

/-- The first run of a list, filled up by insertion, and what follows. -/
def fullRun (less? : α → α → Option Bool) (least : Nat) (xs : List α) :
    Option (List α × List α) := do
  let (run, others) ← firstRun less? xs
  let missing := least - run.length
  let run ← (others.take missing).foldlM (fun run x => insert less? x run) run
  return (run, others.drop missing)

/-- Adds the runs of a list to those that wait; `fuel` is at least the number of runs. -/
def addRuns (less? : α → α → Option Bool) (size : Nat) :
    Nat → Pending α → List α → Option (Pending α)
  | 0, p, _ => some p
  | _, p, [] => some p
  | fuel + 1, p, x :: rest => do
    let (run, others) ← fullRun less? (minRun size) (x :: rest)
    addRuns less? size fuel (← p.add less? size run) others

/-- Sorts by a test that tells whether a member comes before another. -/
def sort? (less? : α → α → Option Bool) (xs : List α) : Option (List α) := do
  let p ← addRuns less? xs.length xs.length {} xs
  Pending.mergeAll less? p.threshold p.runs

end EnvReads.RunSort
