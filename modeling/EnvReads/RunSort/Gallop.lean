/-!
# Searching in a run

A run is searched for the place of a key by a test that tells which of its places are after the
key. In an ordered run these are all places from one on, and the searches find that one. The test
can fail, and where there is no order the searches still end, at a place that the tests on their way
have led them to.
-/

namespace EnvReads.RunSort

/-- The first place after the key, found by halving the places from `low` up to `high`. -/
def bisect (after : Nat → Option Bool) (low high : Nat) : Option Nat :=
  if low < high then do
    let middle := low + (high - low) / 2
    if ← after middle then bisect after low middle else bisect after (middle + 1) high
  else
    some low
termination_by high - low

/-- Doubles a distance as long as the test holds there and it is below the limit: the last distance
at which the test held, and the one after it. -/
def stride (holds : Nat → Option Bool) (limit last distance : Nat) : Option (Nat × Nat) :=
  if distance < limit then do
    if ← holds distance then
      stride holds limit distance (2 * distance + 1)
    else
      return (last, distance)
  else
    some (last, limit)
termination_by limit - distance

/-- The first of `size` places that is after the key, looked for in growing distances from a first
guess and then by halving. -/
def gallop (after : Nat → Option Bool) (size guess : Nat) : Option Nat := do
  if ← after guess then
    let (last, distance) ← stride (fun d => after (guess - d)) (guess + 1) 0 1
    bisect after (guess + 1 - distance) (guess - last)
  else
    let (last, distance) ← stride (fun d => (after (guess + d)).map not) (size - guess) 0 1
    bisect after (guess + last + 1) (guess + distance)

end EnvReads.RunSort
