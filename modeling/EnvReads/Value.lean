import EnvReads.Double

/-!
# Values

The data that syntax trees, package manifests and reports consist of: scalars, lists and records.
The fields of a record keep their order, since it is the order in which a tree is walked and
printed.
-/

namespace EnvReads

inductive Value where
  | null
  | bool (b : Bool)
  | int (n : Int)
  | float (x : Double)
  | text (t : Text)
  | list (items : List Value)
  | record (fields : List (Text × Value))

abbrev Fields := List (Text × Value)

namespace Fields

/-- The value of the first field with the given name. -/
def field? (fields : Fields) (name : Text) : Option Value :=
  fields.lookup name

/-- Sets a field: a field of that name keeps its place, a new one is added at the end. -/
def put (name : Text) (value : Value) : Fields → Fields
  | [] => [(name, value)]
  | (other, old) :: rest =>
    if other = name then (name, value) :: rest else (other, old) :: put name value rest

end Fields

namespace Value

/-- Whether a value counts as true: all but null, false, zero and what is empty. -/
def isTruthy : Value → Bool
  | null => false
  | bool b => b
  | int n => n != 0
  | float x => x.isNonzero
  | text t => !t.isEmpty
  | list items => !items.isEmpty
  | record fields => !fields.isEmpty

def isNull : Value → Bool
  | null => true
  | _ => false

/-- The value, unless it is null. -/
def present? : Value → Option Value
  | null => none
  | v => some v

def text? : Value → Option Text
  | text t => some t
  | _ => none

def int? : Value → Option Int
  | int n => some n
  | _ => none

def fields? : Value → Option Fields
  | record fields => some fields
  | _ => none

end Value

end EnvReads
