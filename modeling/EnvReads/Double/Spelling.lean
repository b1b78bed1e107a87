import EnvReads.Double.Shortest

/-!
# Spelling of doubles

`Double.plain` writes the shortest digits, positionally from 10^-4 up to 10^16 and with an
exponent of at least two digits outside, and always marks a number as fractional (`1.0`, `1e+16`).
-/

namespace EnvReads

namespace Double

/-- How doubles are spelled. -/
structure Spelling where
  /-- Least decimal exponent that is written positionally. -/
  leastPositional : Int
  /-- Least decimal exponent that is no longer written positionally. -/
  beyondPositional : Int
  /-- Least number of digits of a written exponent. -/
  exponentWidth : Nat
  nan : Text
  infinity : Text

/-- `digits * 10 ^ e`, the digits without trailing zeros. -/
def spellFinite (s : Spelling) (digits : Nat) (e : Int) : Text :=
  let all := Text.ofNat digits
  let point : Int := all.length + e - 1
  let ds := if digits = 0 then all else Text.dropEndWhile (· = '0') all
  if s.leastPositional ≤ point ∧ point < s.beyondPositional then
    if point < 0 then
      ("0." : Text) ++ List.replicate ((-point).toNat - 1) (CodePoint.ofChar '0') ++ ds
    else
      let whole := point.toNat + 1
      let padded := ds ++ List.replicate (whole - ds.length) (CodePoint.ofChar '0')
      let fraction := padded.drop whole
      padded.take whole ++ "." ++ (if fraction.isEmpty then ("0" : Text) else fraction)
  else
    let exponent := Text.ofNat point.natAbs
    let padding := List.replicate (s.exponentWidth - exponent.length) (CodePoint.ofChar '0')
    let fraction : Text := if ds.length ≤ 1 then [] else '.' :: ds.drop 1
    ds.take 1 ++ fraction ++
      (if point < 0 then ("e-" : Text) else "e+") ++ padding ++ exponent

def spell (s : Spelling) : Double → Text
  | nan _ => s.nan
  | infinity negative => if negative then '-' :: s.infinity else s.infinity
  | finite negative m q =>
    let magnitude :=
      if m = 0 then spellFinite s 0 0
      else
        let (digits, e) := shortest m q
        spellFinite s digits e
    if negative then '-' :: magnitude else magnitude

/-- The spelling of floats in record names and paths. -/
def plain : Spelling where
  leastPositional := -4
  beyondPositional := 16
  exponentWidth := 2
  nan := "nan"
  infinity := "inf"

/-- The spelling of floats in JSON text. -/
def json : Spelling :=
  { plain with nan := "NaN", infinity := "Infinity" }

end Double

end EnvReads
