import EnvReads.Syntax.Kind
import EnvReads.Syntax.Span
import EnvReads.Value.Display
import EnvReads.Value.Order
import EnvReads.Value.Writable

/-!
# Syntax nodes

A node is a record whose field `type` is a text, its tag. The children of a node are the nodes
among its field values and among the items of its list fields, in the order of the fields; the
fields `loc` and `range` hold positions and no children.
-/

namespace EnvReads

structure Node where
  tag : Text
  fields : Fields
  type_eq : fields.field? "type" = some (.text tag)

namespace Node

/-- The node that a value is, if it is one. -/
def ofValue? : Value → Option Node
  | .record fields =>
    match h : Fields.field? fields "type" with
    | some (.text tag) => some ⟨tag, fields, h⟩
    | _ => none
  | _ => none

def toValue (n : Node) : Value :=
  .record n.fields

/-- The node with the given tag and further fields. -/
def make (tag : Text) (fields : Fields) : Node where
  tag := tag
  fields := ("type", .text tag) :: fields
  type_eq := by simp [Fields.field?]

theorem toValue_of_ofValue? {v : Value} {n : Node} (h : ofValue? v = some n) : n.toValue = v := by
  unfold ofValue? at h
  split at h
  · split at h
    · cases h; rfl
    · cases h
  · cases h

@[simp] theorem ofValue?_toValue (n : Node) : ofValue? n.toValue = some n := by
  obtain ⟨tag, fields, eq⟩ := n
  simp only [toValue, ofValue?]
  split
  · next other h =>
      have same : other = tag := by simpa using h.symm.trans eq
      subst same
      rfl
  · next h => exact absurd eq (h tag)

/-- The nodes directly in a value: itself, or the nodes among its items. -/
def nodesIn : Value → List Node
  | .list items => items.filterMap ofValue?
  | v => (ofValue? v).toList

def kind (n : Node) : Kind :=
  Kind.ofTag n.tag

def field? (n : Node) (name : Text) : Option Value :=
  n.fields.field? name

/-- The node in a field. -/
def child? (n : Node) (role : Text) : Option Node :=
  (n.field? role).bind ofValue?

/-- The nodes in a field that holds a node or a list. -/
def childrenOf (n : Node) (role : Text) : List Node :=
  (n.field? role).elim [] nodesIn

/-- Whether a field holds a position. -/
def isPosition (name : Text) : Bool :=
  name = "loc" || name = "range"

def childrenOfField (field : Text × Value) : List Node :=
  if isPosition field.1 then [] else nodesIn field.2

def children (n : Node) : List Node :=
  n.fields.flatMap childrenOfField

/-- The field `name`, null if it is missing. The name of an identifier should be a text, but
nothing makes sure of it. -/
def name (n : Node) : Value :=
  (n.field? "name").getD .null

/-- The field `value`, null if it is missing. -/
def value (n : Node) : Value :=
  (n.field? "value").getD .null

def computed (n : Node) : Bool :=
  (n.field? "computed").elim false Value.isTruthy

def operator? (n : Node) : Option Text :=
  (n.field? "operator").bind Value.text?

def span? (n : Node) : Except Fault (Option Span) :=
  Span.ofFields? n.fields

def isIdentifier (n : Node) : Bool :=
  n.kind = .identifier

/-- Whether a node is an identifier with the given name. -/
def isNamed (n : Node) (name : Text) : Bool :=
  n.isIdentifier && n.name.text? = some name

/-- The index that an offset stands for; a missing one is at the end given as `default`. -/
def index (default : Int) : Value → Except Fault Int
  | .null => .ok default
  | .int n => .ok n
  | .bool b => .ok (if b then 1 else 0)
  | _ => .error .offset

/-- The part of the source that the node's `range` delimits. -/
def textIn? (n : Node) (source : Text) : Except Fault (Option Text) :=
  match Span.range? n.fields with
  | none => .ok none
  | some (start, stop) => do
    let first ← index 0 start
    let last ← index source.length stop
    return some (slice source first last)

/-- How messages show the start of a span. -/
def startShown (span : Span) : Except Fault Text := do
  let line ← span.startLine.writable
  let column ← span.startColumn.writable
  return "@" ++ line.shown ++ ":" ++ column.shown

/-- How messages show a node. -/
def label (n : Node) : Except Fault Text := do
  let place ← (← n.span?).elim (.ok []) startShown
  return "<SyntaxNode " ++ n.tag ++ place ++ ">"

/-! The weight of a list of nodes bounds all that stands below them. -/

noncomputable def weight : List Node → Nat
  | [] => 0
  | n :: rest => 1 + sizeOf n.fields + weight rest

@[simp] theorem weight_nil : weight [] = 0 := rfl

@[simp] theorem weight_cons (n : Node) (rest : List Node) :
    weight (n :: rest) = 1 + sizeOf n.fields + weight rest := rfl

@[simp] theorem weight_append (xs ys : List Node) :
    weight (xs ++ ys) = weight xs + weight ys := by
  induction xs with
  | nil => simp
  | cons n rest ih => simp [ih, Nat.add_assoc]

theorem sizeOf_of_ofValue? {v : Value} {n : Node} (h : ofValue? v = some n) :
    sizeOf v = 1 + sizeOf n.fields := by
  rw [← toValue_of_ofValue? h, toValue, Value.record.sizeOf_spec]

theorem weight_filterMap_le (items : List Value) :
    weight (items.filterMap ofValue?) ≤ sizeOf items := by
  induction items with
  | nil => simp
  | cons v rest ih =>
      cases h : ofValue? v with
      | none => simp [h]; omega
      | some n =>
          have := sizeOf_of_ofValue? h
          simp [h]
          omega

theorem weight_nodesIn_le (v : Value) : weight (nodesIn v) ≤ sizeOf v := by
  unfold nodesIn
  split
  · next items =>
      have := weight_filterMap_le items
      simp
      omega
  · cases h : ofValue? v with
    | none => simp
    | some n =>
        have := sizeOf_of_ofValue? h
        simp
        omega

theorem weight_flatMap_le (fields : Fields) :
    weight (fields.flatMap childrenOfField) ≤ sizeOf fields := by
  induction fields with
  | nil => simp
  | cons field rest ih =>
      obtain ⟨name, v⟩ := field
      have := weight_nodesIn_le v
      simp only [List.flatMap_cons, weight_append, childrenOfField]
      split <;> simp <;> omega

theorem weight_children_le (n : Node) : weight n.children ≤ sizeOf n.fields :=
  weight_flatMap_le n.fields

theorem weight_lt_cons (n : Node) (rest : List Node) : weight rest < weight (n :: rest) := by
  rw [weight_cons]
  omega

theorem weight_children_lt (n : Node) (rest : List Node) :
    weight (n.children ++ rest) < weight (n :: rest) := by
  have := weight_children_le n
  simp
  omega

theorem sizeOf_field?_lt {n : Node} {role : Text} {v : Value} (h : n.field? role = some v) :
    sizeOf v < sizeOf n.fields := by
  have below : ∀ fields : Fields, fields.lookup role = some v → sizeOf v < sizeOf fields := by
    intro fields
    induction fields with
    | nil => simp
    | cons field rest ih =>
        obtain ⟨name, w⟩ := field
        simp only [List.lookup_cons]
        split
        · intro h
          cases h
          simp
          omega
        · intro h
          have := ih h
          simp
          omega
  exact below _ h

theorem sizeOf_child?_lt {n c : Node} {role : Text} (h : n.child? role = some c) :
    sizeOf c.fields < sizeOf n.fields := by
  simp only [child?, Option.bind_eq_some_iff] at h
  obtain ⟨v, found, node⟩ := h
  have := sizeOf_field?_lt found
  have := sizeOf_of_ofValue? node
  omega

theorem sizeOf_lt_weight_of_mem {nodes : List Node} {c : Node} (h : c ∈ nodes) :
    sizeOf c.fields < weight nodes := by
  induction nodes with
  | nil => cases h
  | cons n rest ih =>
      simp only [List.mem_cons] at h
      rcases h with rfl | h
      · simp
        omega
      · have := ih h
        simp
        omega

theorem sizeOf_mem_childrenOf_lt {n c : Node} {role : Text} (h : c ∈ n.childrenOf role) :
    sizeOf c.fields < sizeOf n.fields := by
  unfold childrenOf at h
  cases found : n.field? role with
  | none => simp [found] at h
  | some v =>
      simp only [found, Option.elim_some] at h
      have := sizeOf_field?_lt found
      have := sizeOf_lt_weight_of_mem h
      have := weight_nodesIn_le v
      omega

/-- All nodes of the forest `stack`, a node before those below it. -/
def walkFrom : List Node → List Node
  | [] => []
  | n :: rest => n :: walkFrom (n.children ++ rest)
termination_by stack => weight stack
decreasing_by exact weight_children_lt n rest

/-- The node and all nodes below it, in the order of the source fields. -/
def walk (n : Node) : List Node :=
  walkFrom [n]

theorem walkFrom_append (xs ys : List Node) : walkFrom (xs ++ ys) = walkFrom xs ++ walkFrom ys := by
  fun_induction walkFrom xs with
  | case1 => rfl
  | case2 n rest ih => rw [List.cons_append, walkFrom, ← List.append_assoc, ih, List.cons_append]

theorem walkFrom_eq_flatMap (nodes : List Node) : walkFrom nodes = nodes.flatMap walk := by
  induction nodes with
  | nil => rw [walkFrom, List.flatMap_nil]
  | cons n rest ih => rw [← List.singleton_append, walkFrom_append, ih]; rfl

theorem walk_eq (n : Node) : n.walk = n :: n.children.flatMap walk := by
  rw [walk, walkFrom, List.append_nil, walkFrom_eq_flatMap]

end Node

end EnvReads
