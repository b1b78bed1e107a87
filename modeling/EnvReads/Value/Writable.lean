import EnvReads.Fault
import EnvReads.Value

/-!
# Values that can be written

An integer is written out in decimal digits only up to `Text.maxDigits` of them. Longer ones can be
read, from numerals in other bases, and compared, but no text shows them.
-/

namespace EnvReads

namespace Value

mutual

/-- Whether every integer in a value can be written. -/
def isWritable : Value → Bool
  | int n => Text.fitsDigits Text.maxDigits n.natAbs
  | list items => areWritable items
  | record fields => areFieldsWritable fields
  | _ => true

def areWritable : List Value → Bool
  | [] => true
  | v :: rest => isWritable v && areWritable rest

def areFieldsWritable : List (Text × Value) → Bool
  | [] => true
  | (_, v) :: rest => isWritable v && areFieldsWritable rest

end

/-- The value, provided that it can be written. -/
def writable (v : Value) : Except Fault Value :=
  if v.isWritable then .ok v else .error .longInteger

end Value

end EnvReads
