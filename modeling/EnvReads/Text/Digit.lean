import EnvReads.Text

/-!
# Digits

Decimal digits of all scripts: each script's digits are ten consecutive code points, so the table
holds their zeros. With them stands the limit on the length of decimal integers.
-/

namespace EnvReads

namespace CodePoint

def digitZeros : List Nat :=
  [0x30, 0x660, 0x6F0, 0x7C0, 0x966, 0x9E6, 0xA66, 0xAE6, 0xB66, 0xBE6, 0xC66, 0xCE6, 0xD66,
   0xDE6, 0xE50, 0xED0, 0xF20, 0x1040, 0x1090, 0x17E0, 0x1810, 0x1946, 0x19D0, 0x1A80, 0x1A90,
   0x1B50, 0x1BB0, 0x1C40, 0x1C50, 0xA620, 0xA8D0, 0xA900, 0xA9D0, 0xA9F0, 0xAA50, 0xABF0, 0xFF10,
   0x104A0, 0x10D30, 0x11066, 0x110F0, 0x11136, 0x111D0, 0x112F0, 0x11450, 0x114D0, 0x11650,
   0x116C0, 0x11730, 0x118E0, 0x11950, 0x11C50, 0x11D50, 0x11DA0, 0x16A60, 0x16AC0, 0x16B50,
   0x1D7CE, 0x1D7D8, 0x1D7E2, 0x1D7EC, 0x1D7F6, 0x1E140, 0x1E2F0, 0x1E950, 0x1FBF0]

/-- The value of a decimal digit of any script. -/
def digit? (c : CodePoint) : Option Nat :=
  (digitZeros.find? fun first => first ≤ c.val && c.val < first + 10).map (c.val - ·)

/-- The value of an ASCII hexadecimal digit. -/
def hexDigit? (c : CodePoint) : Option Nat :=
  if '0'.toNat ≤ c.val ∧ c.val ≤ '9'.toNat then some (c.val - '0'.toNat)
  else if 'a'.toNat ≤ c.val ∧ c.val ≤ 'f'.toNat then some (c.val - 'a'.toNat + 10)
  else if 'A'.toNat ≤ c.val ∧ c.val ≤ 'F'.toNat then some (c.val - 'A'.toNat + 10)
  else none

/-- The value of a digit in a numeral of base up to 16: a decimal digit of any script or an ASCII
letter. -/
def digitUpTo16? (c : CodePoint) : Option Nat :=
  c.digit? <|> c.hexDigit?

def isAsciiDigit (c : CodePoint) : Bool :=
  '0'.toNat ≤ c.val && c.val ≤ '9'.toNat

end CodePoint

namespace Text

/-- The number that digits denote in a base, most significant digit first. -/
def ofDigits (base : Nat) (digits : List Nat) : Nat :=
  digits.foldl (fun n d => n * base + d) 0

/-- A numeral in the given base: at least one digit, and every digit below the base. -/
def numeral? (base : Nat) (t : Text) : Option Nat := do
  let digits ← t.mapM CodePoint.digitUpTo16?
  if digits.isEmpty || digits.any (base ≤ ·) then none else some (ofDigits base digits)

/-- The number of digits up to which decimal integers are read and written. -/
def maxDigits : Nat := 4300

/-- Whether a number has at most `count` decimal digits. -/
def fitsDigits : Nat → Nat → Bool
  | 0, n => n = 0
  | count + 1, n => n = 0 || fitsDigits count (n / 10)

theorem fitsDigits_iff (count n : Nat) : fitsDigits count n = true ↔ n < Nat.pow 10 count := by
  rw [Nat.pow_eq]
  induction count generalizing n with
  | zero => simp [fitsDigits]
  | succ count ih =>
      have := Nat.pow_pos (n := count) (show 0 < 10 by omega)
      simp only [fitsDigits, Bool.or_eq_true, decide_eq_true_eq, ih, Nat.pow_succ]
      omega

end Text

end EnvReads
