import EnvReads.Text

/-!
# UTF-8

Encoding writes one to four octets per code point. Decoding runs a machine that takes one octet at
a time; each longest malformed stretch that could have begun a character counts as one fault, so
that strict decoding (`Utf8.decode?`) and decoding with replacement (`Utf8.decodeReplacing`) are
two readings of the same items.
-/

namespace EnvReads

/-- The octets of a code point. -/
def CodePoint.utf8 (c : CodePoint) : List UInt8 :=
  let n := c.val
  let tail (unit : Nat) : UInt8 := UInt8.ofNat (0x80 + n / unit % 64)
  if n < 0x80 then [UInt8.ofNat n]
  else if n < 0x800 then [UInt8.ofNat (0xC0 + n / 0x40), tail 1]
  else if n < 0x10000 then [UInt8.ofNat (0xE0 + n / 0x1000), tail 0x40, tail 1]
  else [UInt8.ofNat (0xF0 + n / 0x40000), tail 0x1000, tail 0x40, tail 1]

namespace Utf8

/-- The octets of a text, surrogates written like other code points. -/
def octets (t : Text) : List UInt8 :=
  t.flatMap CodePoint.utf8

/-- The octets of a text without surrogates. -/
def encode? (t : Text) : Option (List UInt8) :=
  if t.any CodePoint.isSurrogate then none else some (octets t)

/-- A character part way through: how many octets it still owes, the bounds of the next one, and
the bits read so far. -/
structure Pending where
  owed : Nat
  low : Nat
  high : Nat
  bits : Nat

/-- What an octet at the start of a character gives: items, and the character it opens. -/
def start (octet : UInt8) : List (Option CodePoint) × Option Pending :=
  let n := octet.toNat
  let opens (owed low high bits : Nat) : List (Option CodePoint) × Option Pending :=
    ([], some ⟨owed, low, high, bits⟩)
  if n < 0x80 then ([CodePoint.ofNat? n], none)
  else if n < 0xC2 then ([none], none)
  else if n < 0xE0 then opens 1 0x80 0xBF (n - 0xC0)
  else if n = 0xE0 then opens 2 0xA0 0xBF 0
  else if n = 0xED then opens 2 0x80 0x9F 0xD
  else if n < 0xF0 then opens 2 0x80 0xBF (n - 0xE0)
  else if n = 0xF0 then opens 3 0x90 0xBF 0
  else if n < 0xF4 then opens 3 0x80 0xBF (n - 0xF0)
  else if n = 0xF4 then opens 3 0x80 0x8F 4
  else ([none], none)

/-- One octet: the items it completes, and the character left open. -/
def step : Option Pending → UInt8 → List (Option CodePoint) × Option Pending
  | none, octet => start octet
  | some p, octet =>
    let n := octet.toNat
    if p.low ≤ n ∧ n ≤ p.high then
      let bits := p.bits * 64 + (n - 0x80)
      if p.owed ≤ 1 then
        ([CodePoint.ofNat? bits], none)
      else
        ([], some ⟨p.owed - 1, 0x80, 0xBF, bits⟩)
    else
      let (items, next) := start octet
      (none :: items, next)

/-- The characters of the octets after `pending`, with `none` for each malformed stretch. -/
def itemsAfter : Option Pending → List UInt8 → List (Option CodePoint)
  | none, [] => []
  | some _, [] => [none]
  | pending, octet :: rest =>
    let (items, next) := step pending octet
    items ++ itemsAfter next rest

def items (octets : List UInt8) : List (Option CodePoint) :=
  itemsAfter none octets

/-- The text that well-formed octets encode. -/
def decode? (octets : List UInt8) : Option Text :=
  (items octets).mapM id

/-- The text that the octets encode, with U+FFFD for each malformed stretch. -/
def decodeReplacing (octets : List UInt8) : Text :=
  (items octets).map (·.getD 0xFFFD)

end Utf8

end EnvReads
