import EnvReads.RunSort.Gallop

/-!
# Merging of runs

Two neighbouring runs become one. The shorter of them is set aside and the merge goes from its end
of the runs to the other, forward or backward. It takes members one by one until several in a row
come from the same run; then it gallops, taking all members that come before the next one of the
other run at once, as long as that saves tests. How many in a row it takes to gallop is adapted on
the way and kept from one merge to the next.
-/

namespace EnvReads.RunSort

variable {α : Type}

inductive Direction where
  | forward
  | backward
deriving DecidableEq

/-- A merge on its way: the members taken, the last one first, and what is left of the earlier and
of the later run, the next one first. -/
structure Merge (α : Type) where
  taken : List α
  earlier : List α
  later : List α

/-- The number of members at once that galloping has to be worth. -/
def minGallop : Nat := 7

namespace Merge

def takeEarlier (m : Merge α) (n : Nat) : Merge α where
  taken := (m.earlier.take n).reverse ++ m.taken
  earlier := m.earlier.drop n
  later := m.later

def takeLater (m : Merge α) (n : Nat) : Merge α where
  taken := (m.later.take n).reverse ++ m.taken
  earlier := m.earlier
  later := m.later.drop n

/-- The merge is decided when one run is used up. The run that is set aside counts as used up with
one member left, which is known to come last. -/
def isDecided (d : Direction) (m : Merge α) : Bool :=
  match d with
  | .forward => m.earlier.length ≤ 1 || m.later.isEmpty
  | .backward => m.later.length ≤ 1 || m.earlier.isEmpty

/-- The members of a decided merge, in order. -/
def result (d : Direction) (m : Merge α) : List α :=
  match d with
  | .forward => m.taken.reverse ++ m.later ++ m.earlier
  | .backward => m.later.reverse ++ m.earlier.reverse ++ m.taken

/-- The first place of a run that is after a key, from the end of the run where the merge is. -/
def search (d : Direction) (after : α → Option Bool) (run : List α) : Option Nat :=
  match d with
  | .forward => gallop (fun i => run[i]?.bind after) run.length 0
  | .backward => do
    let size := run.length
    let place ← gallop (fun i => run[size - 1 - i]?.bind after) size (size - 1)
    return size - place

/-- The number of members of the earlier run to be taken before the next one of the later run. -/
def earlierRun (less? : α → α → Option Bool) (d : Direction) (m : Merge α) : Option Nat := do
  let key ← m.later.head?
  search d (less? key) m.earlier

/-- The number of members of the later run to be taken before the next one of the earlier run. -/
def laterRun (less? : α → α → Option Bool) (d : Direction) (m : Merge α) : Option Nat := do
  let key ← m.earlier.head?
  search d (fun x => (less? x key).map not) m.later

/-- One round of galloping, and whether it has been worth it. -/
def round (less? : α → α → Option Bool) (d : Direction) (m : Merge α) :
    Option (Merge α × Bool) := do
  let n ← m.earlierRun less? d
  let m := m.takeEarlier n
  if m.isDecided d then return (m, false)
  let m := m.takeLater 1
  if m.isDecided d then return (m, false)
  let k ← m.laterRun less? d
  let m := m.takeLater k
  if m.isDecided d then return (m, false)
  return (m.takeEarlier 1, minGallop ≤ n || minGallop ≤ k)

/-- Whether the next member to be taken is one of the later run. -/
def takesLater (less? : α → α → Option Bool) (d : Direction) (m : Merge α) : Option Bool := do
  let x ← m.earlier.head?
  let y ← m.later.head?
  let below ← less? y x
  return match d with
    | .forward => below
    | .backward => !below

/-- How a merge goes on. -/
inductive Pace where
  /-- One by one, after so many members in a row from the earlier or the later run. -/
  | step (earlier later : Nat)
  | gallop

/-- Goes on with a merge until it is decided, for at most `fuel` steps; each takes a member.
`threshold` is how many in a row it takes to gallop. -/
def run (less? : α → α → Option Bool) (d : Direction) :
    Nat → Pace → Nat → Merge α → Option (List α × Nat)
  | 0, _, threshold, m => some (m.result d, threshold)
  | fuel + 1, pace, threshold, m =>
    if m.isDecided d then
      some (m.result d, threshold)
    else
      match pace with
      | .step earlier later => do
        if ← m.takesLater less? d then
          let pace := if threshold ≤ later + 1 then .gallop else .step 0 (later + 1)
          run less? d fuel pace threshold (m.takeLater 1)
        else
          let pace := if threshold ≤ earlier + 1 then .gallop else .step (earlier + 1) 0
          run less? d fuel pace threshold (m.takeEarlier 1)
      | .gallop => do
        let (m, worth) ← m.round less? d
        if m.isDecided d then
          return (m.result d, threshold)
        else if worth then
          run less? d fuel .gallop (max 1 (threshold - 1)) m
        else
          run less? d fuel (.step 0 0) (threshold + 1) m

end Merge

/-- Merges two runs, the earlier one first. Members that are in their places already are left out:
those of the earlier run before all of the later, and those of the later after all of the earlier.
-/
def merge (less? : α → α → Option Bool) (threshold : Nat) (earlier later : List α) :
    Option (List α × Nat) := do
  let first ← later.head?
  let n ← gallop (fun i => earlier[i]?.bind (less? first)) earlier.length 0
  let (before, earlier) := (earlier.take n, earlier.drop n)
  match earlier.getLast? with
  | none => return (before ++ later, threshold)
  | some last =>
    let k ← gallop (fun i => later[i]?.bind fun x => (less? x last).map not) later.length
      (later.length - 1)
    let (later, behind) := (later.take k, later.drop k)
    if later.isEmpty then
      return (before ++ earlier ++ behind, threshold)
    else
      let fuel := earlier.length + later.length
      let (merged, threshold) ←
        if earlier.length ≤ later.length then
          Merge.run less? .forward fuel (.step 0 0) threshold
            (Merge.takeLater ⟨[], earlier, later⟩ 1)
        else
          Merge.run less? .backward fuel (.step 0 0) threshold
            (Merge.takeEarlier ⟨[], earlier.reverse, later.reverse⟩ 1)
      return (before ++ merged ++ behind, threshold)

end EnvReads.RunSort
