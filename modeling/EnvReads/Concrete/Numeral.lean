import EnvReads.Double.Reader
import EnvReads.Value

/-!
# JavaScript numerals

The value of a numeric literal. Separators are dropped wherever they stand and the mark of a big
integer is cut off; then a base may be given by `0x`, `0o` or `0b`, digits alone are an integer
(octal if they start with a zero and hold no 8 or 9), and everything else is a float. Decimal
integers are read up to a given number of digits.
-/

namespace EnvReads

namespace Numeral

/-- Lower case of ASCII letters; numerals have no other letters. -/
def lower (c : CodePoint) : CodePoint :=
  if 'A'.toNat ≤ c.val ∧ c.val ≤ 'Z'.toNat then
    (CodePoint.ofNat? (c.val + 32)).getD c
  else
    c

/-- The numeral without separators, in lower case and without the mark of a big integer. -/
def bare (t : Text) : Text :=
  let t := (t.filter (· != CodePoint.ofChar '_')).map lower
  if t.getLast? = some (CodePoint.ofChar 'n') then t.dropLast else t

/-- The bases that a numeral can name. -/
def bases : List (Text × Nat) :=
  [("0x", 16), ("0o", 8), ("0b", 2)]

/-- The base that a numeral names. -/
def base? (t : Text) : Option Nat :=
  bases.findSome? fun (mark, base) => if mark.isPrefixOf t then some base else none

/-- Whether digits alone are read in base eight: more than one of them, the first an ASCII zero
and none an ASCII eight or nine. -/
def isOldOctal (t : Text) : Bool :=
  t.length > 1 && t.head? = some (CodePoint.ofChar '0') &&
    !t.contains (CodePoint.ofChar '8') && !t.contains (CodePoint.ofChar '9')

/-- The value of a numeral that consists of digits, of which a decimal one has at most `limit`. -/
def ofDigits? (limit : Nat) (t : Text) : Option Nat :=
  if isOldOctal t then Text.numeral? 8 t
  else if t.length ≤ limit then Text.numeral? 10 t
  else none

def ofBare? (limit : Nat) (t : Text) : Option Value :=
  match base? t with
  | some base => (Text.numeral? base (Text.dropPadding (t.drop 2))).map fun n => .int n
  | none =>
    if !t.isEmpty && t.all (·.digit?.isSome) then
      (ofDigits? limit t).map fun n => .int n
    else
      (Double.read? t).map .float

/-- The value of a numeral with decimal integers of at most `limit` digits. -/
def valueUpTo? (limit : Nat) (t : Text) : Option Value :=
  ofBare? limit (bare t)

/-- The value of a numeral, an integer or a float. -/
def value? (t : Text) : Option Value :=
  valueUpTo? Text.maxDigits t

end Numeral

end EnvReads
