import EnvReads.RunSort
import EnvReads.Value

/-!
# Order of values

Values are compared by what they say: numbers of all kinds and the two truth values, which count as
zero and one, compare exactly; texts compare by code points and lists member by member. Other values
are at most the same. Records are the same if they have the same fields, in whatever order. Lists
can be sorted by values also where these are not in a linear order.
-/

namespace EnvReads

/-- What a number amounts to. -/
inductive Amount where
  | nan (mark : Nat)
  | infinity (negative : Bool)
  | ratio (num : Int) (den : Nat)

namespace Amount

def ofInt (n : Int) : Amount :=
  ratio n 1

def ofDouble : Double → Amount
  | .nan mark => nan mark
  | .infinity negative => infinity negative
  | .finite negative m q =>
    let (num, den) := Double.ratio m q
    ratio (if negative then -(num : Int) else num) den

/-- Equality of amounts. What is not a number is the same as itself only. -/
def same : Amount → Amount → Bool
  | nan a, nan b => a = b
  | infinity a, infinity b => a = b
  | ratio a b, ratio c d => a * d = c * b
  | _, _ => false

/-- The order of amounts. What is not a number comes neither before nor after anything. -/
def less : Amount → Amount → Bool
  | infinity a, infinity b => a && !b
  | infinity a, ratio _ _ => a
  | ratio _ _, infinity b => !b
  | ratio a b, ratio c d => a * d < c * b
  | _, _ => false

end Amount

namespace Value

/-- The amount of a number or truth value. -/
def amount? : Value → Option Amount
  | bool b => some (Amount.ofInt (if b then 1 else 0))
  | int n => some (Amount.ofInt n)
  | float x => some (Amount.ofDouble x)
  | _ => none

mutual

/-- Whether two values say the same. -/
def same : Value → Value → Bool
  | null, null => true
  | text s, text t => s = t
  | list xs, list ys => sameItems xs ys
  | record fields, record others => fields.length = others.length && sameFields fields others
  | v, w =>
    match v.amount?, w.amount? with
    | some a, some b => a.same b
    | _, _ => false

def sameItems : List Value → List Value → Bool
  | [], [] => true
  | v :: vs, w :: ws => same v w && sameItems vs ws
  | _, _ => false

/-- Whether each of the first fields is among the others. -/
def sameFields : List (Text × Value) → Fields → Bool
  | [], _ => true
  | (name, v) :: rest, others =>
    (match others.field? name with
      | some w => same v w
      | none => false) && sameFields rest others

end

instance : BEq Value := ⟨same⟩

theorem beq_text_eq (v : Value) (t : Text) : (v == text t) = decide (v.text? = some t) := by
  change v.same (text t) = _
  cases v <;> simp [same, text?, amount?]

theorem text_beq_eq (t : Text) (v : Value) : (text t == v) = decide (v.text? = some t) := by
  change (text t).same v = _
  cases v <;> simp [same, text?, amount?, eq_comm]

theorem eq_text_of_text? {v : Value} {t : Text} (h : v.text? = some t) : v = text t := by
  cases v with
  | text s => rw [Option.some.inj h]
  | _ => cases h

mutual

/-- Whether a value comes before another; none if they have no order. -/
def less? : Value → Value → Option Bool
  | text s, text t => some (s < t)
  | list xs, list ys => lessItems? xs ys
  | v, w =>
    match v.amount?, w.amount? with
    | some a, some b => some (a.less b)
    | _, _ => none

/-- Lists are ordered by the first members that differ. -/
def lessItems? : List Value → List Value → Option Bool
  | _, [] => some false
  | [], _ :: _ => some true
  | v :: vs, w :: ws => if same v w then lessItems? vs ws else less? v w

end

/-- Whether a value comes before another. -/
def less (v w : Value) : Bool :=
  v.less? w = some true

/-- Whether two values have an order. -/
def isOrdered (v w : Value) : Bool :=
  (v.less? w).isSome

/-- Whether a value can be looked up among others: lists and records cannot. -/
def isSimple : Value → Bool
  | list _ | record _ => false
  | _ => true

mutual

/-- Whether a value has something in it that is not a number. -/
def hasNan : Value → Bool
  | float (.nan _) => true
  | list items => anyNan items
  | _ => false

def anyNan : List Value → Bool
  | [] => false
  | v :: rest => v.hasNan || anyNan rest

end

/-- Whether each two members have an order. -/
def allOrdered : List Value → Bool
  | [] => true
  | v :: rest => rest.all v.isOrdered && allOrdered rest

/-- Sorts by a key. Members with the same key keep their places. Where the keys are not in a linear
order, because some have no order or are not numbers, the result is what sorting by runs comes to;
it fails if it compares two keys that have no order. -/
def sortOn? {α : Type} (key : α → Value) (xs : List α) : Option (List α) :=
  if allOrdered (xs.map key) && !anyNan (xs.map key) then
    some (xs.mergeSort fun a b => !(key b).less (key a))
  else
    RunSort.sort? (fun a b => (key a).less? (key b)) xs

end Value

end EnvReads
