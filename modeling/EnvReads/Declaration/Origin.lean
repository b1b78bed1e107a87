import EnvReads.Fault
import EnvReads.Syntax.AccessPath
import EnvReads.Syntax.EnvAccess

/-!
# Origins of values

Where the value of an expression comes from, as far as its own file tells: a literal, another
module, nothing at all, or somewhere unknown. Chains of assignments are followed to their right
end, and properties are followed through object literals.
-/

namespace EnvReads

/-- The origin of a value, with the node at which it was found. -/
inductive Origin where
  /-- There is no value: `void 0`, or no expression at all. -/
  | nothing
  | literal (value : Value) (place : Node)
  /-- The value at `path` in what a module exports. -/
  | imported (specifier : Option Text) (path : List Value) (place : Node)
  | unknown (place : Node)

namespace Node

/-- The value of a template literal that is all text, from its only element. -/
def templateValue (element : Node) : Except Fault Value :=
  if element.value.isTruthy then
    match element.value with
    | .record fields =>
      match Fields.field? fields "cooked" with
      | none | some .null => .ok ((Fields.field? fields "raw").getD (.text []))
      | some cooked => .ok cooked
    | _ => .error .templateValue
  else
    .ok (.text [])

/-- The value of a literal that is no regular expression, or of a template literal without
substitutions. -/
def literalValue? (n : Node) : Except Fault (Option Value) :=
  if n.kind = .literal then
    .ok (if (n.field? "regex").any (!·.isNull) then none else some n.value)
  else if n.kind = .templateLiteral && (n.childrenOf "expressions").isEmpty then
    match n.childrenOf "quasis" with
    | [element] => (templateValue element).map some
    | _ => .ok none
  else
    .ok none

/-- Whether the fixed key of a property is the given one. -/
def hasKey (key : Value) (p : Node) : Except Fault Bool := do
  return (← p.memberKey? "key").any (· == key)

/-- The value of a key in an object literal; of several properties the last counts. -/
def propertyValue? (n : Node) (key : Value) : Except Fault (Option Node) :=
  (Fault.filter (hasKey key) n.properties).map fun keyed => keyed.getLast?.bind (·.child? "value")

/-- The key under which an object pattern takes the value of a variable. -/
def patternKey? (n : Node) (bound : Value) : Except Fault (Option Value) :=
  (n.properties.find? (·.propertyBinding == bound)).elim (.ok none) (·.memberKey? "key")

theorem sizeOf_propertyValue?_lt {n v : Node} {key : Value}
    (h : n.propertyValue? key = .ok (some v)) : sizeOf v.fields < sizeOf n.fields := by
  simp only [propertyValue?] at h
  cases found : Fault.filter (hasKey key) n.properties with
  | error fault => simp [found, Except.map] at h
  | ok keyed =>
      simp only [found, Except.map, Except.ok.injEq, Option.bind_eq_some_iff] at h
      obtain ⟨p, last, child⟩ := h
      have mem := Fault.mem_of_mem_filter found (List.mem_of_getLast? last)
      simp only [properties, List.mem_filter] at mem
      have := sizeOf_mem_childrenOf_lt mem.1
      have := sizeOf_child?_lt child
      omega

def isVoid (n : Node) : Bool :=
  n.kind = .unaryExpression && n.operator? = some "void"

/-- An assignment with `=`. -/
def isAssignment (n : Node) : Bool :=
  n.kind = .assignmentExpression && n.operator? = some "="

/-- The module whose property a member expression takes directly: `require("…").key`. -/
def objectModule? (n : Node) : Except Fault (Option Text) :=
  if n.kind = .memberExpression then (n.child? "object").elim (.ok none) requiredModule?
  else .ok none

/-- The origin of what `require("…")` or a fixed property of it gives. -/
def requireOrigin? (n : Node) (path : List Value) : Except Fault (Option Origin) := do
  match ← n.requiredModule? with
  | some specifier => return some (.imported (some specifier) path n)
  | none =>
    match ← n.objectModule? with
    | some specifier =>
      return (← n.memberKey? "property").map fun key => .imported (some specifier) (key :: path) n
    | none => return none

/-- The origin of the value at `path` in the value of an expression. -/
def origin (n : Node) (path : List Value) : Except Fault Origin :=
  if n.isVoid then
    .ok .nothing
  else if n.isAssignment then
    match _h : n.child? "right" with
    | some right => origin right path
    | none => .ok .nothing
  else do
    let literal ← if path.isEmpty then n.literalValue? else .ok none
    match literal with
    | some v => .ok (.literal v n)
    | none =>
      match ← n.requireOrigin? path with
      | some o => .ok o
      | none =>
        match path with
        | [] => .ok (.unknown n)
        | key :: rest =>
          if n.kind = .objectExpression then
            match _h : n.propertyValue? key with
            | .ok (some value) => origin value rest
            | .ok none => .ok (.unknown n)
            | .error fault => .error fault
          else
            .ok (.unknown n)
termination_by sizeOf n.fields
decreasing_by
  · exact sizeOf_child?_lt _h
  · exact sizeOf_propertyValue?_lt _h

/-- The origin of an expression that may be missing. -/
def originOf (n : Option Node) (path : List Value) : Except Fault Origin :=
  n.elim (.ok .nothing) (·.origin path)

end Node

end EnvReads
