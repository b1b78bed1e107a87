import EnvReads.Double.Spelling
import EnvReads.Text.Quoted
import EnvReads.Value

/-!
# Values in names

How a value reads inside a name, a path or a message. In literals scalars read as in JavaScript,
with floats that are integers written as integers; the members of lists and records, which no
JavaScript literal has, are quoted.
-/

namespace EnvReads

/-- A float, as an integer if it is one. -/
def Double.display (x : Double) : Text :=
  match x.toInt? with
  | some n => Text.ofInt n
  | none => x.spell Double.plain

namespace Value

mutual

/-- A member of a list or record. -/
def displayMember : Value → Text
  | null => "None"
  | bool b => if b then "True" else "False"
  | int n => Text.ofInt n
  | float x => x.spell Double.plain
  | text t => t.quoted
  | list items => "[" ++ Text.joinWith ", " (displayItems items) ++ "]"
  | record fields => "\x7b" ++ Text.joinWith ", " (displayFields fields) ++ "\x7d"

def displayItems : List Value → List Text
  | [] => []
  | v :: rest => displayMember v :: displayItems rest

def displayFields : List (Text × Value) → List Text
  | [] => []
  | (name, v) :: rest => (name.quoted ++ ": " ++ displayMember v) :: displayFields rest

end

/-- A value inside other text: a text as it is, anything else like a member. -/
def shown : Value → Text
  | text t => t
  | v => v.displayMember

/-- The text of a literal with this value. -/
def literalText : Value → Text
  | null => "null"
  | bool b => if b then "true" else "false"
  | float x => x.display
  | v => v.shown

/-- The text of a property key with this value: a text or a number, and the two truth values under
their capitalised names. -/
def keyText? : Value → Option Text
  | text t => some t
  | int n => some (Text.ofInt n)
  | bool b => some (if b then "True" else "False")
  | float x => some x.display
  | _ => none

/-- Whether the value names a variable: a text or a number. -/
def isNaming : Value → Bool
  | text _ | int _ | float _ => true
  | _ => false

end Value

end EnvReads
