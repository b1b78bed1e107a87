import EnvReads.Double
import EnvReads.Text.Blank

/-!
# Reading doubles

The decimal notation accepted for floating-point numbers: blanks around it, a sign, `inf`,
`infinity` or `nan`, or digits with an optional point and exponent. Digits may be of any script,
letters are small.
-/

namespace EnvReads

namespace Double

/-- Splits off the longest run of decimal digits. -/
def takeDigits : Text → List Nat × Text
  | [] => ([], [])
  | c :: rest =>
    match c.digit? with
    | some d => let (ds, more) := takeDigits rest; (d :: ds, more)
    | none => ([], c :: rest)

/-- Splits off a sign. -/
def takeSign : Text → Bool × Text
  | [] => (false, [])
  | c :: rest =>
    if c = '-' then (true, rest) else if c = '+' then (false, rest) else (false, c :: rest)

/-- The exponent after the mantissa: nothing, or `e` with an optional sign and digits. -/
def exponent? : Text → Option Int
  | [] => some 0
  | c :: rest =>
    if c = 'e' then
      let (negative, rest) := takeSign rest
      match takeDigits rest with
      | ([], _) => none
      | (ds, []) =>
        let n : Int := Text.ofDigits 10 ds
        some (if negative then -n else n)
      | _ => none
    else
      none

/-- Digits with an optional point, at least one digit, and an optional exponent. -/
def unsigned? (negative : Bool) (t : Text) : Option Double :=
  let (whole, rest) := takeDigits t
  let (fraction, rest) :=
    match rest with
    | c :: more => if c = '.' then takeDigits more else ([], rest)
    | [] => ([], rest)
  if whole.isEmpty && fraction.isEmpty then
    none
  else
    (exponent? rest).map fun e =>
      ofDecimal negative (Text.ofDigits 10 (whole ++ fraction)) (e - fraction.length)

def read? (t : Text) : Option Double :=
  let (negative, rest) := takeSign t.dropBothPadding
  if rest = "inf" ∨ rest = "infinity" then some (infinity negative)
  else if rest = "nan" then some (nan 0)
  else unsigned? negative rest

end Double

end EnvReads
