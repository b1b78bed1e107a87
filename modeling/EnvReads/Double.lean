import EnvReads.Text.Digit

/-!
# Doubles

Binary floating-point numbers of 64 bits, held as sign, significand and exponent so that reading,
printing and the test for integers are exact arithmetic on natural numbers.
-/

namespace EnvReads

/-- A double: `finite negative m q` is `m * 2 ^ q` with the given sign. The numbers built by
`ofRatio` have `m < 2 ^ 53` and `-1074 ≤ q`, and `2 ^ 52 ≤ m` unless `q = -1074`. What is not a
number has a mark that tells it from others, since it is the same as itself only. -/
inductive Double where
  | nan (mark : Nat)
  | infinity (negative : Bool)
  | finite (negative : Bool) (significand : Nat) (exponent : Int)
deriving DecidableEq

namespace Double

/-- `num / den` rounded to the nearest natural number, a half to the even one. -/
def roundDiv (num den : Nat) : Nat :=
  let low := num / den
  let rest := num % den
  if den < 2 * rest ∨ (2 * rest = den ∧ low % 2 = 1) then low + 1 else low

/-- `n * 2 ^ e` as a quotient of natural numbers. -/
def scale (num den : Nat) (e : Int) : Nat × Nat :=
  if 0 ≤ e then (num * Nat.pow 2 e.toNat, den) else (num, den * Nat.pow 2 (-e).toNat)

/-- The double nearest to `num / den`, the one with even significand of two equally near. -/
def ofRatio (negative : Bool) (num den : Nat) : Double :=
  if num = 0 then
    finite negative 0 (-1074)
  else
    let guess : Int := max ((Nat.log2 num : Int) - Nat.log2 den - 53) (-1074)
    let (n, d) := scale num den (-guess)
    let exponent := if Nat.pow 2 53 ≤ n / d then guess + 1 else guess
    let (n, d) := scale num den (-exponent)
    let m := roundDiv n d
    let (m, exponent) :=
      if m = Nat.pow 2 53 then (Nat.pow 2 52, exponent + 1) else (m, exponent)
    if 971 < exponent then infinity negative else finite negative m exponent

/-- The double nearest to `digits * 10 ^ e`. Beyond the exponents 400 and -400 the result is
infinite or zero, whatever the digits. -/
def ofDecimal (negative : Bool) (digits : Nat) (e : Int) : Double :=
  let size : Int := (Nat.toDigits 10 digits).length + e
  if digits = 0 ∨ size < -400 then finite negative 0 (-1074)
  else if 400 < size then infinity negative
  else if 0 ≤ e then ofRatio negative (digits * Nat.pow 10 e.toNat) 1
  else ofRatio negative digits (Nat.pow 10 (-e).toNat)

/-- The magnitude of a finite double as a quotient of natural numbers. -/
def ratio (significand : Nat) (exponent : Int) : Nat × Nat :=
  scale significand 1 exponent

/-- The integer that a double is equal to, if it is one. -/
def toInt? : Double → Option Int
  | finite negative m q =>
    let (num, den) := ratio m q
    if num % den = 0 then
      some (if negative then -((num / den : Nat) : Int) else ((num / den : Nat) : Int))
    else
      none
  | _ => none

/-- Whether a double differs from zero. -/
def isNonzero : Double → Bool
  | finite _ m _ => m != 0
  | _ => true

end Double

end EnvReads
