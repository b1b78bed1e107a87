import EnvReads.Double

/-!
# Shortest decimals

The shortest decimal that reads back as a given double, and the nearest to it among those of that
length.
-/

namespace EnvReads

namespace Double

/-- The decimal exponent of `num / den`: the largest `e` with `10 ^ e ≤ num / den`, for `num` other
than zero. -/
def decimalExponent (num den : Nat) : Int :=
  let guess : Int := ((Nat.toDigits 10 num).length : Int) - (Nat.toDigits 10 den).length
  let reached :=
    if 0 ≤ guess then den * Nat.pow 10 guess.toNat ≤ num
    else den ≤ num * Nat.pow 10 (-guess).toNat
  if reached then guess else guess - 1

/-- The two neighbours of `num / den` on the grid of multiples of `10 ^ e`, and how twice the
distance to the lower one compares with the distance between them. -/
def neighbours (num den : Nat) (e : Int) : Nat × Nat × Ordering :=
  let (n, d) :=
    if 0 ≤ e then (num, den * Nat.pow 10 e.toNat) else (num * Nat.pow 10 (-e).toNat, den)
  (n / d, n / d + 1, compare (2 * (n % d)) d)

/-- The neighbour of `m * 2 ^ q` with `count` decimal digits that reads back as that double: the
nearer one if both do, and of two equally near the even one. -/
def ofLength? (m : Nat) (q : Int) (count : Nat) : Option (Nat × Int) :=
  let (num, den) := ratio m q
  let e := decimalExponent num den - (count - 1 : Nat)
  let (low, high, side) := neighbours num den e
  let readsBack (digits : Nat) : Bool := ofDecimal false digits e = finite false m q
  match readsBack low, readsBack high with
  | true, true =>
    match side with
    | .lt => some (low, e)
    | .gt => some (high, e)
    | .eq => some (if low % 2 = 0 then low else high, e)
  | true, false => some (low, e)
  | false, true => some (high, e)
  | false, false => none

/-- Digits and exponent of the shortest decimal that reads back as `m * 2 ^ q`; seventeen digits
are always enough. -/
def shortest (m : Nat) (q : Int) : Nat × Int :=
  (((List.range 17).map (· + 1)).findSome? (ofLength? m q)).getD (0, 0)

end Double

end EnvReads
