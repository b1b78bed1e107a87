import EnvReads.Syntax.EnvAccess

/-!
# `env` spelled out

The tree in which each identifier `env` that is used as the environment is replaced by `process.env`
(`Node.spelled`). The replacement keeps the kinds of nodes, their places, their names and whether
they are computed. It makes direct reads of the uses of `env` that have something to read
(`Node.isEnvMember_spelled`, `Node.isEnvDestructuring_spelled`) and leaves no other uses
(`Node.isAliasUse_spelled`).
-/

namespace EnvReads

/-- Where an identifier `env` is used as the environment: as the object of a member expression and
as the initial value of a declaration. -/
def Kind.takesEnv (k : Kind) (role : Text) : Bool :=
  k = .memberExpression && role = "object" || k = .variableDeclarator && role = "init"

namespace Node

def identifier (name : Text) : Node :=
  make Kind.identifier.tag [("name", .text name)]

/-- The member expression `process.env`. -/
def processEnv : Node :=
  make Kind.memberExpression.tag [("computed", .bool false),
    ("object", (identifier "process").toValue), ("property", (identifier "env").toValue)]

end Node

namespace Value

mutual

/-- The value with each use of `env` in it replaced by `process.env`, if it is a node or a list. -/
def spelled : Value → Value
  | record fields =>
    match Fields.field? fields "type" with
    | some (text tag) => record (spelledFields (Kind.ofTag tag) fields)
    | _ => record fields
  | list items => list (spelledItems items)
  | v => v

def spelledItems : List Value → List Value
  | [] => []
  | v :: rest => spelled v :: spelledItems rest

/-- The fields of a node of the given kind. Positions are left as they are. -/
def spelledFields (k : Kind) : List (Text × Value) → List (Text × Value)
  | [] => []
  | (name, v) :: rest =>
    (name,
      if Node.isPosition name then v
      else if k.takesEnv name && (Node.ofValue? v).any (·.isNamed "env") then
        Node.processEnv.toValue
      else spelled v) :: spelledFields k rest

end

/-- The value of one field of a node. -/
def spelledAt (k : Kind) (role : Text) (v : Value) : Value :=
  if Node.isPosition role then v
  else if k.takesEnv role && (Node.ofValue? v).any (·.isNamed "env") then Node.processEnv.toValue
  else v.spelled

theorem spelledFields_eq_map (k : Kind) (fields : Fields) :
    spelledFields k fields = fields.map fun f => (f.1, spelledAt k f.1 f.2) := by
  induction fields with
  | nil => rfl
  | cons f rest ih => rw [spelledFields, ih, List.map_cons, spelledAt]

theorem spelledItems_eq_map (items : List Value) : spelledItems items = items.map spelled := by
  induction items with
  | nil => rfl
  | cons v rest ih => rw [spelledItems, ih, List.map_cons]

/-- A field that is spelled out. -/
theorem field?_spelledFields (k : Kind) (fields : Fields) (role : Text) :
    Fields.field? (spelledFields k fields) role =
      (Fields.field? fields role).map (spelledAt k role) := by
  rw [spelledFields_eq_map]
  induction fields with
  | nil => rfl
  | cons f rest ih =>
      obtain ⟨name, v⟩ := f
      simp only [Fields.field?, List.map_cons, List.lookup_cons] at ih ⊢
      cases same : role == name with
      | true =>
          rw [eq_of_beq same]
          rfl
      | false => exact ih

theorem spelledAt_text (k : Kind) (role t : Text) : spelledAt k role (text t) = text t := by
  rw [spelledAt]
  split
  · rfl
  · rw [if_neg (by simp [Node.ofValue?])]
    rfl

/-- Spelling out changes no text. -/
theorem text?_spelled (v : Value) : v.spelled.text? = v.text? := by
  cases v with
  | record fields =>
      rw [spelled]
      split <;> rfl
  | _ => rfl

/-- It does not change what counts as true. -/
theorem isTruthy_spelled (v : Value) : v.spelled.isTruthy = v.isTruthy := by
  cases v with
  | record fields =>
      rw [spelled]
      split
      · simp [isTruthy, spelledFields_eq_map]
      · rfl
  | list items => simp [spelled, isTruthy, spelledItems_eq_map]
  | _ => rfl

end Value

namespace Node

open Value (spelledAt)

/-- The tree with each use of `env` in it replaced by `process.env`. -/
def spelled (n : Node) : Node where
  tag := n.tag
  fields := Value.spelledFields n.kind n.fields
  type_eq := by rw [Value.field?_spelledFields, n.type_eq, Option.map_some, Value.spelledAt_text]

/-- The child that stands for the given one. -/
def spelledChild (k : Kind) (role : Text) (c : Node) : Node :=
  if k.takesEnv role && c.isNamed "env" then processEnv else c.spelled

/-- Spelling out does not change the kind of a node. -/
@[simp] theorem kind_spelled (n : Node) : n.spelled.kind = n.kind := rfl

/-- The value of a node is spelled out as the node is. -/
theorem spelled_toValue (n : Node) : n.toValue.spelled = n.spelled.toValue := by
  rw [toValue, Value.spelled, n.type_eq]
  rfl

/-- A value that is spelled out is a node if the value is. -/
theorem ofValue?_spelled (v : Value) : ofValue? v.spelled = (ofValue? v).map spelled := by
  cases node : ofValue? v with
  | some n =>
      rw [← toValue_of_ofValue? node, spelled_toValue, ofValue?_toValue]
      rfl
  | none =>
      cases v with
      | record fields =>
          rw [Value.spelled]
          split
          · next tag type =>
              have found : ofValue? (Node.mk tag fields type).toValue = none := node
              rw [ofValue?_toValue] at found
              cases found
          · exact node
      | _ => rfl

/-- A value that is a node holds this node. -/
theorem nodesIn_of_ofValue? {v : Value} {n : Node} (h : ofValue? v = some n) : nodesIn v = [n] := by
  rw [← toValue_of_ofValue? h]
  change (ofValue? n.toValue).toList = [n]
  rw [ofValue?_toValue]
  rfl

/-- The nodes in a value are spelled out one by one. -/
theorem nodesIn_spelled (v : Value) : nodesIn v.spelled = (nodesIn v).map spelled := by
  cases v with
  | list items =>
      rw [Value.spelled, Value.spelledItems_eq_map, nodesIn, nodesIn, List.filterMap_map,
        List.map_filterMap]
      exact congrArg (List.filterMap · items) (funext ofValue?_spelled)
  | record fields =>
      have same := congrArg Option.toList (ofValue?_spelled (.record fields))
      rw [Option.toList_map] at same
      rw [← show (ofValue? (.record fields)).toList = nodesIn (.record fields) from rfl, ← same,
        Value.spelled]
      split <;> rfl
  | _ => rfl

/-- The fields of a node are spelled out one by one. -/
theorem field?_spelled (n : Node) (role : Text) :
    n.spelled.field? role = (n.field? role).map (spelledAt n.kind role) :=
  Value.field?_spelledFields n.kind n.fields role

/-- So are its children. -/
theorem child?_spelled (n : Node) {role : Text} (field : isPosition role = false) :
    n.spelled.child? role = (n.child? role).map (spelledChild n.kind role) := by
  rw [child?, child?, field?_spelled]
  cases n.field? role with
  | none => rfl
  | some v =>
      simp only [Option.map_some, Option.bind_some, spelledAt, field]
      have kept := ofValue?_spelled v
      cases node : ofValue? v with
      | none =>
          rw [node] at kept
          simpa using kept
      | some c =>
          rw [node] at kept
          by_cases taken : n.kind.takesEnv role && c.isNamed "env"
          · simp [spelledChild, taken]
          · simpa [spelledChild, taken] using kept

/-- A field that holds no position and, whatever the kind of the node, no use of `env`. -/
def isKept (role : Text) : Bool :=
  !isPosition role && role ≠ "object" && role ≠ "init"

section

variable (n : Node) (role : Text) (kept : isKept role)
include kept

theorem field?_spelled_of_isKept : n.spelled.field? role = (n.field? role).map Value.spelled := by
  simp only [isKept, Bool.and_eq_true, Bool.not_eq_true', decide_eq_true_eq] at kept
  rw [field?_spelled]
  refine congrArg (Option.map · _) (funext fun v => ?_)
  simp [spelledAt, Kind.takesEnv, kept]

/-- A child that cannot be a use of `env` is spelled out by itself. -/
theorem child?_spelled_of_isKept : n.spelled.child? role = (n.child? role).map spelled := by
  rw [child?, child?, n.field?_spelled_of_isKept role kept]
  cases n.field? role with
  | none => rfl
  | some v => exact ofValue?_spelled v

/-- So are several of them. -/
theorem childrenOf_spelled : n.spelled.childrenOf role = (n.childrenOf role).map spelled := by
  rw [childrenOf, childrenOf, n.field?_spelled_of_isKept role kept]
  cases n.field? role with
  | none => rfl
  | some v => exact nodesIn_spelled v

end

/-- Whether a key is computed does not change. -/
theorem computed_spelled (n : Node) : n.spelled.computed = n.computed := by
  rw [computed, computed, n.field?_spelled_of_isKept "computed" (by decide)]
  cases n.field? "computed" with
  | none => rfl
  | some v => exact v.isTruthy_spelled

/-- The name of an identifier does not change. -/
theorem isNamed_spelled (n : Node) (name : Text) : n.spelled.isNamed name = n.isNamed name := by
  have same : n.spelled.name.text? = n.name.text? := by
    rw [Node.name, Node.name, n.field?_spelled_of_isKept "name" (by decide)]
    cases n.field? "name" with
    | none => rfl
    | some v => exact v.text?_spelled
  rw [isNamed, isNamed, same]
  rfl

/-- Neither does the place of a node. -/
theorem span?_spelled (n : Node) : n.spelled.span? = n.span? := by
  have position : ∀ {role}, isPosition role →
      n.spelled.fields.field? role = n.fields.field? role := by
    intro role field
    refine (n.field?_spelled role).trans ?_
    change _ = n.field? role
    cases n.field? role with
    | none => rfl
    | some v => simp [spelledAt, field]
  have loc : n.spelled.fields.field? "loc" = n.fields.field? "loc" := position (by decide)
  have range : n.spelled.fields.field? "range" = n.fields.field? "range" := position (by decide)
  rw [span?, span?, Span.ofFields?, Span.ofFields?, Span.range?, Span.range?, loc, range]

/-! ## The shapes of reads -/

/-- `process.env` is no identifier. -/
theorem isNamed_processEnv (name : Text) : processEnv.isNamed name = false := by
  have kind : processEnv.isIdentifier = false := by decide
  rw [isNamed, kind, Bool.false_and]

theorem isProcessEnv_processEnv : processEnv.isProcessEnv = true := by decide

/-- A child keeps its name, unless it is `env`. -/
theorem isNamed_spelledChild (k : Kind) (role : Text) (c : Node) {name : Text}
    (other : name ≠ "env") : (spelledChild k role c).isNamed name = c.isNamed name := by
  rw [spelledChild]
  split
  · next replaced =>
      rw [Bool.and_eq_true, isNamed, Bool.and_eq_true, decide_eq_true_eq] at replaced
      rw [isNamed_processEnv, isNamed, replaced.2.2]
      simp [other.symm]
  · exact isNamed_spelled c name

/-- Where the environment can stand, no `env` is left. -/
theorem isNamed_env_spelledChild {k : Kind} {role : Text} (taken : k.takesEnv role = true)
    (c : Node) : (spelledChild k role c).isNamed "env" = false := by
  rw [spelledChild, taken, Bool.true_and]
  split
  · exact isNamed_processEnv "env"
  · next kept => rw [isNamed_spelled, Bool.eq_false_iff.mpr kept]

/-- Spelling out makes no `process.env` of a node itself. -/
theorem isProcessEnv_spelled (n : Node) : n.spelled.isProcessEnv = n.isProcessEnv := by
  rw [isProcessEnv, isProcessEnv, kind_spelled, computed_spelled]
  by_cases member : n.kind = .memberExpression
  · rw [n.child?_spelled_of_isKept "property" (by decide), n.child?_spelled (by decide),
      Option.any_map, Option.any_map]
    congr 3
    · funext c
      exact isNamed_spelledChild n.kind "object" c (by decide)
    · funext c
      exact isNamed_spelled c "env"
  · simp [member]

/-- Where the environment can stand, `env` becomes `process.env`. -/
theorem isProcessEnv_spelledChild {k : Kind} {role : Text} (taken : k.takesEnv role = true)
    (c : Node) :
    (spelledChild k role c).isProcessEnv = (c.isProcessEnv || c.isNamed "env") := by
  rw [spelledChild, taken, Bool.true_and]
  split
  · next named => rw [isProcessEnv_processEnv, named, Bool.or_true]
  · next kept => rw [isProcessEnv_spelled, Bool.eq_false_iff.mpr kept, Bool.or_false]

theorem any_or {p q : Node → Bool} (c : Option Node) :
    (c.any fun c => p c || q c) = (c.any p || c.any q) := by
  cases c <;> rfl

/-- A member of the environment was one, or was a member of `env`. -/
theorem isEnvMember_spelled (n : Node) :
    n.spelled.isEnvMember = (n.isEnvMember || n.isAliasMember) := by
  rw [isEnvMember, isEnvMember, isAliasMember, kind_spelled]
  by_cases member : n.kind = .memberExpression
  · have taken : n.kind.takesEnv "object" = true := by rw [member]; decide
    rw [n.child?_spelled (by decide), Option.any_map, ← Bool.and_or_distrib_left, ← any_or]
    congr 2
    funext c
    exact isProcessEnv_spelledChild taken c
  · simp [member]

/-- A pattern for the environment was one, or was a pattern for `env`. -/
theorem isEnvDestructuring_spelled (n : Node) :
    n.spelled.isEnvDestructuring = (n.isEnvDestructuring ||
      n.isAliasBinding && (n.child? "id").any (·.kind = .objectPattern)) := by
  rw [isEnvDestructuring, isEnvDestructuring, isAliasBinding, kind_spelled]
  by_cases declarator : n.kind = .variableDeclarator
  · have taken : n.kind.takesEnv "init" = true := by rw [declarator]; decide
    have init : (n.spelled.child? "init").any isProcessEnv =
        ((n.child? "init").any isProcessEnv || (n.child? "init").any (·.isNamed "env")) := by
      rw [n.child?_spelled (by decide), Option.any_map, ← any_or]
      congr 1
      funext c
      exact isProcessEnv_spelledChild taken c
    have target : (n.spelled.child? "id").any (·.kind = .objectPattern) =
        (n.child? "id").any (·.kind = .objectPattern) := by
      rw [n.child?_spelled_of_isKept "id" (by decide), Option.any_map]
      rfl
    rw [init, target]
    cases (n.child? "id").any (·.kind = .objectPattern) <;> simp [declarator]
  · simp [declarator]

/-- No use of `env` is left. -/
theorem isAliasUse_spelled (n : Node) : n.spelled.isAliasUse = false := by
  have gone : ∀ {role}, isPosition role = false → n.kind.takesEnv role = true →
      (n.spelled.child? role).any (·.isNamed "env") = false := by
    intro role field taken
    rw [n.child?_spelled field, Option.any_map]
    cases n.child? role with
    | none => rfl
    | some c => exact isNamed_env_spelledChild taken c
  rw [isAliasUse, isAliasBinding, isAliasMember, kind_spelled, Bool.or_eq_false_iff]
  constructor
  · by_cases declarator : n.kind = .variableDeclarator
    · rw [gone (by decide) (by rw [declarator]; decide), Bool.and_false]
    · simp [declarator]
  · by_cases member : n.kind = .memberExpression
    · rw [gone (by decide) (by rw [member]; decide), Bool.and_false]
    · simp [member]

end Node

end EnvReads
