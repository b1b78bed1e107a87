import EnvReads.Proofs.PathTexts

/-!
# What a tree is asked

Nothing makes sure that a tree has the shape that the JavaScript grammar gives it, and some of what
a node is asked has no answer if it has not: the text of a literal that is an integer too long to
write, the texts of a template element that holds something else, the number of the arguments of a
call that are no list, the place of a node with a malformed location. For each step of resolution
stand here the questions that it puts (`Node.PathAsks`, `Node.OriginAsks`, …), and that it succeeds
exactly if each of them has an answer.
-/

namespace EnvReads

namespace Value

def isRecord : Value → Bool
  | record _ => true
  | _ => false

/-- Whether a value has members to count. What is empty has none. -/
def isCountable : Value → Bool
  | list _ | record _ | text _ => true
  | v => !v.isTruthy

/-- A value can be written if no integer in it is too long. -/
theorem isOk_writable {v : Value} : v.writable.isOk = v.isWritable := by
  rw [writable]
  cases v.isWritable <;> rfl

end Value

/-- What a node can be asked for. -/
inductive Aspect where
  /-- The text of a literal that is a key. -/
  | key
  /-- The texts of a template element. -/
  | element
  /-- The number of the arguments of a call. -/
  | arguments
  /-- The place of the node. -/
  | place
  /-- The node as messages show it. -/
  | label
deriving DecidableEq

/-- One side of a location is a record, or there is nothing. -/
def Span.HasSide (loc : Fields) (side : Text) : Prop :=
  ∀ v, loc.field? side = some v → v.isTruthy → v.isRecord

/-- The location of a node, if it is a record, has sides that are records. -/
def Node.IsPlaced (n : Node) : Prop :=
  ∀ loc, n.field? "loc" = some (.record loc) → Span.HasSide loc "start" ∧ Span.HasSide loc "end"

/-- Something that a node is asked for. -/
structure Question where
  aspect : Aspect
  node : Node

/-- The node has what it is asked for. -/
def Question.HasAnswer (q : Question) : Prop :=
  match q.aspect with
  | .key => q.node.value.keyText?.isSome → q.node.value.isWritable
  | .element => q.node.value.isTruthy → q.node.value.isRecord
  | .arguments => ∀ v, q.node.field? "arguments" = some v → v.isCountable
  | .place => q.node.IsPlaced
  | .label => q.node.IsPlaced ∧ ∀ span, q.node.span? = .ok (some span) →
      span.startLine.isWritable ∧ span.startColumn.isWritable

/-- One side of a location can be had if it is a record with a line and a column. -/
theorem Span.isOk_position_iff {loc : Fields} {side : Text} :
    (position loc side).isOk ↔ HasSide loc side := by
  rw [position, HasSide]
  cases loc.field? side with
  | none => simp
  | some v =>
      simp only [Option.some.injEq, forall_eq']
      cases v with
      | record fields => simp [Value.isRecord]
      | null | bool _ | int _ | float _ | text _ | list _ =>
          simp only [Value.isRecord]
          split <;> simp_all

namespace Node

variable {tree n : Node} {p : StaticPath} {keys : List Value} {q : Question}

/-- The span of a node can be had if the node has its place. -/
theorem isOk_span?_iff : n.span?.isOk ↔ n.IsPlaced := by
  rw [span?, Span.ofFields?, IsPlaced, ← field?]
  cases n.field? "loc" with
  | none => simp
  | some v =>
      cases v with
      | record loc =>
          simp only [Except.isOk_map, Span.ofLocation, Except.isOk_bind_iff, Except.isOk_pure,
            and_true, exists_and_right, Except.exists_eq_ok_iff, Span.isOk_position_iff,
            Option.some.injEq, Value.record.injEq, forall_eq']
      | null | bool _ | int _ | float _ | text _ | list _ => simp

/-- The label of a node can be had if the question for it has an answer. -/
theorem isOk_label_iff : n.label.isOk ↔ Question.HasAnswer ⟨.label, n⟩ := by
  simp only [Question.HasAnswer, ← isOk_span?_iff, label, Except.isOk_bind_iff, Except.isOk_pure,
    and_true, Except.exists_eq_ok_iff]
  cases n.span? with
  | error fault => simp
  | ok span =>
      cases span with
      | none => simp
      | some span =>
          simp only [Option.elim_some, startShown, Except.isOk_bind_iff, Except.isOk_pure, and_true,
            exists_and_right, Except.exists_eq_ok_iff, Value.isOk_writable, Except.isOk_ok,
            true_and, Except.ok.injEq, Option.some.injEq, exists_eq_left', forall_eq']

/-! ## Keys and paths -/

/-- The fixed key in a role is asked for its text if it is a literal. -/
inductive KeyAsks (n : Node) (role : Text) : Question → Prop
  | literal {key : Node} : n.child? role = some key → key.kind = .literal →
      KeyAsks n role ⟨.key, key⟩

/-- A key can be had if it is no literal or its text can be written. -/
theorem isOk_staticKey?_iff {computed : Bool} :
    (n.staticKey? computed).isOk ↔ (n.kind = .literal → Question.HasAnswer ⟨.key, n⟩) := by
  rw [staticKey?, Question.HasAnswer]
  split
  · next identifier =>
      have kind : n.kind = .identifier := of_decide_eq_true (Bool.and_eq_true_iff.mp identifier).1
      simp [kind]
  · split
    · next literal =>
        cases n.value.keyText? with
        | none => simp
        | some t => simp [literal, Value.isOk_writable]
    · next other => simp [other]

/-- The key of a member can be had if what it asks has answers. -/
theorem isOk_memberKey?_iff {role : Text} :
    (n.memberKey? role).isOk ↔ ∀ q, KeyAsks n role q → q.HasAnswer := by
  rw [memberKey?]
  cases child : n.child? role with
  | none =>
      refine iff_of_true rfl fun q asks => ?_
      cases asks with
      | literal found => cases child.symm.trans found
  | some key =>
      rw [Option.elim_some, isOk_staticKey?_iff]
      constructor
      · rintro h q (⟨found, literal⟩)
        cases child.symm.trans found
        exact h literal
      · intro h literal
        exact h _ (.literal child literal)

/-- What is asked to read an access chain as a static path. -/
inductive PathAsks : Node → Question → Prop
  | object {n object : Node} {q : Question} : n.kind = .memberExpression →
      n.child? "object" = some object → PathAsks object q → PathAsks n q
  | key {n object : Node} {head : StaticPath} {q : Question} : n.kind = .memberExpression →
      n.child? "object" = some object → object.staticPath? = .ok (some head) →
      KeyAsks n "property" q → PathAsks n q

/-- The path of an expression can be had if what it asks has answers. -/
theorem isOk_staticPath?_iff : n.staticPath?.isOk ↔ ∀ q, PathAsks n q → q.HasAnswer := by
  fun_induction staticPath? n with
  | case1 n identifier =>
      have kind : n.kind = .identifier := of_decide_eq_true identifier
      refine iff_of_true rfl fun q asks => ?_
      cases asks with
      | object member | key member => cases kind.symm.trans member
  | case2 n identifier member object child ih =>
      rw [Except.isOk_bind_iff]
      constructor
      · rintro ⟨head, found, h⟩ q asks
        cases asks with
        | object _ found' asks =>
            cases child.symm.trans found'
            exact ih.mp (Except.isOk_iff.mpr ⟨head, found⟩) q asks
        | key _ found' path asks =>
            cases child.symm.trans found'
            cases found.symm.trans path
            obtain ⟨key, keyed, -⟩ := Except.isOk_bind_iff.mp h
            exact isOk_memberKey?_iff.mp (Except.isOk_iff.mpr ⟨key, keyed⟩) q asks
      · intro h
        have before := ih.mpr fun q asks => h q (.object member child asks)
        obtain ⟨head, found⟩ := Except.isOk_iff.mp before
        refine ⟨head, found, ?_⟩
        cases head with
        | none => rfl
        | some head =>
            have keyed := isOk_memberKey?_iff.mpr fun q asks => h q (.key member child found asks)
            exact Except.isOk_bind_of_forall keyed fun _ _ => rfl
  | case3 n identifier member missing =>
      refine iff_of_true rfl fun q asks => ?_
      cases asks with
      | object _ found | key _ found => cases missing.symm.trans found
  | case4 n identifier other =>
      refine iff_of_true rfl fun q asks => ?_
      cases asks with
      | object member | key member => exact absurd member other

/-! ## Origins -/

/-- What is asked for the value of a literal: the texts of a template without substitutions. -/
inductive LiteralAsks (n : Node) : Question → Prop
  | element {element : Node} : n.kind = .templateLiteral → n.childrenOf "expressions" = [] →
      n.childrenOf "quasis" = [element] → LiteralAsks n ⟨.element, element⟩

theorem isOk_templateValue_iff : (templateValue n).isOk ↔ Question.HasAnswer ⟨.element, n⟩ := by
  rw [templateValue, Question.HasAnswer]
  split
  · next full =>
      cases value : n.value with
      | record fields =>
          refine iff_of_true ?_ fun _ => rfl
          dsimp only
          split <;> rfl
      | null | bool _ | int _ | float _ | text _ | list _ =>
          rw [value] at full
          simp [full, Value.isRecord]
  · next empty => simp [empty]

/-- The value of a literal can be had if what it asks has answers. -/
theorem isOk_literalValue?_iff : n.literalValue?.isOk ↔ ∀ q, LiteralAsks n q → q.HasAnswer := by
  rw [literalValue?]
  split
  · next literal =>
      refine iff_of_true rfl fun q asks => ?_
      cases asks with
      | element template => cases literal.symm.trans template
  · split
    · next template =>
        obtain ⟨kind, whole⟩ := Bool.and_eq_true_iff.mp template
        have kind : n.kind = .templateLiteral := of_decide_eq_true kind
        split
        · next element sole =>
            rw [Except.isOk_map, isOk_templateValue_iff]
            constructor
            · rintro h q ⟨-, -, found⟩
              cases sole.symm.trans found
              exact h
            · intro h
              exact h _ (.element kind (List.isEmpty_iff.mp whole) sole)
        · next other =>
            refine iff_of_true rfl fun q asks => ?_
            cases asks with
            | element _ _ found => exact absurd found (other _)
    · next other =>
        refine iff_of_true rfl fun q asks => ?_
        cases asks with
        | element template whole => simp [template, whole] at other

/-- A call of `require`. -/
def isRequireCall (n : Node) : Bool :=
  n.kind = .callExpression && (n.child? "callee").any (·.isNamed "require")

/-- The arguments of a call can be counted if they are a list. -/
theorem isOk_argumentCount_iff :
    n.argumentCount.isOk ↔ Question.HasAnswer ⟨.arguments, n⟩ := by
  rw [argumentCount, Question.HasAnswer]
  cases n.field? "arguments" with
  | none => simp [Value.isTruthy]
  | some v =>
      simp only [Option.getD_some, Option.some.injEq, forall_eq']
      cases v with
      | list items | record fields | text t => simp [Value.isCountable]
      | null | bool _ | int _ | float _ =>
          simp only [Value.isCountable]
          split <;> simp_all

/-- The module that a call requires can be had if its arguments can be counted. -/
theorem isOk_requiredModule?_iff : n.requiredModule?.isOk ↔
    (n.isRequireCall → Question.HasAnswer ⟨.arguments, n⟩) := by
  rw [requiredModule?, ← isRequireCall]
  split
  · next call =>
      simp only [Except.isOk_bind_iff, Except.isOk_pure, and_true, Except.exists_eq_ok_iff,
        isOk_argumentCount_iff, call, forall_const]
  · next other => simp [other]

/-- What is asked for the module that an expression takes its value from. -/
inductive ModuleAsks (n : Node) : Question → Prop
  | call : n.isRequireCall → ModuleAsks n ⟨.arguments, n⟩
  | object {object : Node} : n.kind = .memberExpression → n.child? "object" = some object →
      object.isRequireCall → ModuleAsks n ⟨.arguments, object⟩
  | key {object : Node} {specifier : Text} {q : Question} : n.kind = .memberExpression →
      n.child? "object" = some object → object.requiredModule? = .ok (some specifier) →
      KeyAsks n "property" q → ModuleAsks n q

theorem kind_of_isRequireCall (h : n.isRequireCall) : n.kind = .callExpression :=
  of_decide_eq_true (Bool.and_eq_true_iff.mp h).1

/-- Only calls and member expressions are asked for modules. -/
theorem kind_of_moduleAsks (h : ModuleAsks n q) :
    n.kind = .callExpression ∨ n.kind = .memberExpression := by
  cases h with
  | call call => exact .inl (kind_of_isRequireCall call)
  | object member | key member => exact .inr member

theorem requiredModule?_of_not_isRequireCall (h : ¬n.isRequireCall) :
    n.requiredModule? = .ok none := by
  rw [requiredModule?, ← isRequireCall, if_neg h]

/-- The module that a member is taken of can be had if the arguments of its call can be counted. -/
theorem isOk_objectModule?_iff : n.objectModule?.isOk ↔ ∀ object, n.kind = .memberExpression →
    n.child? "object" = some object → object.isRequireCall →
      Question.HasAnswer ⟨.arguments, object⟩ := by
  rw [objectModule?]
  split
  · next member =>
      cases n.child? "object" with
      | none => simp
      | some object => simp [member, isOk_requiredModule?_iff]
  · next other => simp [other]

theorem objectModule?_eq_some_iff {specifier : Text} :
    n.objectModule? = .ok (some specifier) ↔ n.kind = .memberExpression ∧
      ∃ object, n.child? "object" = some object ∧
        object.requiredModule? = .ok (some specifier) := by
  rw [objectModule?]
  split
  · next member => cases n.child? "object" <;> simp [member]
  · next other => simp [other]

/-- The module that an expression comes from can be had if what it asks has answers. -/
theorem isOk_requireOrigin?_iff :
    (n.requireOrigin? keys).isOk ↔ ∀ q, ModuleAsks n q → q.HasAnswer := by
  rw [requireOrigin?, Except.isOk_bind_iff]
  constructor
  · rintro ⟨required, found, h⟩ q asks
    have counted := isOk_requiredModule?_iff.mp (Except.isOk_iff.mpr ⟨required, found⟩)
    -- only a call names a module itself, and then nothing is asked of an object
    have whole (member : n.kind = .memberExpression) : required = none := by
      have other : ¬n.isRequireCall := fun call => by
        cases member.symm.trans (kind_of_isRequireCall call)
      cases found.symm.trans (requiredModule?_of_not_isRequireCall other)
      rfl
    cases asks with
    | call call => exact counted call
    | object member child call =>
        cases whole member
        obtain ⟨object, objectFound, -⟩ := Except.isOk_bind_iff.mp h
        exact isOk_objectModule?_iff.mp (Except.isOk_iff.mpr ⟨object, objectFound⟩) _ member child
          call
    | key member child brought asks =>
        cases whole member
        have object := objectModule?_eq_some_iff.mpr ⟨member, _, child, brought⟩
        obtain ⟨specifier, objectFound, h⟩ := Except.isOk_bind_iff.mp h
        cases object.symm.trans objectFound
        obtain ⟨key, keyed, -⟩ := Except.isOk_bind_iff.mp h
        exact isOk_memberKey?_iff.mp (Except.isOk_iff.mpr ⟨key, keyed⟩) q asks
  · intro h
    have counted := isOk_requiredModule?_iff.mpr fun call => h _ (.call call)
    obtain ⟨required, found⟩ := Except.isOk_iff.mp counted
    refine ⟨required, found, ?_⟩
    cases required with
    | some specifier => rfl
    | none =>
        have object := isOk_objectModule?_iff.mpr fun _ member child call =>
          h _ (.object member child call)
        refine Except.isOk_bind_of_forall object fun specifier objectFound => ?_
        cases specifier with
        | none => rfl
        | some specifier =>
            obtain ⟨member, object, child, brought⟩ := objectModule?_eq_some_iff.mp objectFound
            have keyed := isOk_memberKey?_iff.mpr fun q asks =>
              h q (.key member child brought asks)
            exact Except.isOk_bind_of_forall keyed fun _ _ => rfl

/-- What is asked for the properties of an object literal: their keys. -/
inductive PropertyAsks (n : Node) : Question → Prop
  | key {p : Node} {q : Question} : p ∈ n.properties → KeyAsks p "key" q → PropertyAsks n q

/-- The value of a property can be had if the keys of all properties can. -/
theorem isOk_propertyValue?_iff {key : Value} :
    (n.propertyValue? key).isOk ↔ ∀ q, PropertyAsks n q → q.HasAnswer := by
  have keyed (p : Node) : (hasKey key p).isOk ↔ ∀ q, KeyAsks p "key" q → q.HasAnswer := by
    rw [hasKey, Except.isOk_bind_iff, ← isOk_memberKey?_iff]
    simp only [Except.isOk_pure, and_true, Except.exists_eq_ok_iff]
  simp only [propertyValue?, Except.isOk_map, Fault.isOk_filter_iff, keyed]
  constructor
  · rintro h q ⟨mem, asks⟩
    exact h _ mem q asks
  · intro h p mem q asks
    exact h q (.key mem asks)

/-- What is asked to find where the value at some keys in the value of an expression comes from. -/
inductive OriginAsks : Node → List Value → Question → Prop
  | right {n right : Node} {keys : List Value} {q : Question} : n.isAssignment →
      n.child? "right" = some right → OriginAsks right keys q → OriginAsks n keys q
  | literal {n : Node} {q : Question} : LiteralAsks n q → OriginAsks n [] q
  | module {n : Node} {keys : List Value} {q : Question} : ModuleAsks n q → OriginAsks n keys q
  | property {n : Node} {key : Value} {keys : List Value} {q : Question} :
      n.kind = .objectExpression → PropertyAsks n q → OriginAsks n (key :: keys) q
  | value {n value : Node} {key : Value} {keys : List Value} {q : Question} :
      n.kind = .objectExpression → n.propertyValue? key = .ok (some value) →
      OriginAsks value keys q → OriginAsks n (key :: keys) q

/-- An object literal takes its value from no module. -/
theorem requireOrigin?_of_objectExpression (h : n.kind = .objectExpression) :
    n.requireOrigin? keys = .ok none := by
  have other : ¬n.isRequireCall := fun call => by cases h.symm.trans (kind_of_isRequireCall call)
  rw [requireOrigin?, requiredModule?_of_not_isRequireCall other, objectModule?, h]
  rfl

/-- What is asked of an expression that is no literal. -/
structure RestAnswered (n : Node) (keys : List Value) : Prop where
  module : ∀ q, ModuleAsks n q → q.HasAnswer
  property : ∀ key rest, keys = key :: rest → n.kind = .objectExpression →
    ∀ q, PropertyAsks n q → q.HasAnswer
  value : ∀ key rest value, keys = key :: rest → n.kind = .objectExpression →
    n.propertyValue? key = .ok (some value) → ∀ q, OriginAsks value rest q → q.HasAnswer

/-- The origin of an expression that is no literal is found if what is asked of it has answers. -/
theorem isOk_rest_iff
    (ih : ∀ key rest value, n.propertyValue? key = .ok (some value) →
      ((value.origin rest).isOk ↔ ∀ q, OriginAsks value rest q → q.HasAnswer)) :
    (n.requireOrigin? keys >>= fun found =>
      match found with
      | some o => .ok o
      | none =>
        match keys with
        | [] => .ok (.unknown n)
        | key :: rest =>
          if n.kind = .objectExpression then
            match _found : n.propertyValue? key with
            | .ok (some value) => value.origin rest
            | .ok none => .ok (.unknown n)
            | .error fault => .error fault
          else
            .ok (.unknown n)).isOk ↔ RestAnswered n keys := by
  rw [Except.isOk_bind_iff]
  constructor
  · rintro ⟨found, required, h⟩
    have module := isOk_requireOrigin?_iff.mp (Except.isOk_iff.mpr ⟨found, required⟩)
    -- An object literal is no module, so its property has been looked for.
    have looked {key : Value} {rest : List Value} (same : keys = key :: rest)
        (object : n.kind = .objectExpression) : ∃ value?, n.propertyValue? key = .ok value? ∧
          ∀ value, value? = some value → (value.origin rest).isOk := by
      subst same
      cases required.symm.trans (requireOrigin?_of_objectExpression object)
      simp only [if_pos object] at h
      split at h
      · next value given =>
          refine ⟨some value, given, ?_⟩
          rintro _ ⟨⟩
          exact h
      · next given =>
          refine ⟨none, given, ?_⟩
          rintro _ ⟨⟩
      · cases h
    refine ⟨module, fun key rest same object => ?_, fun key rest value same object given => ?_⟩
    · obtain ⟨_, found, -⟩ := looked same object
      exact isOk_propertyValue?_iff.mp (Except.isOk_iff.mpr ⟨_, found⟩)
    · obtain ⟨_, found, ok⟩ := looked same object
      cases given.symm.trans found
      exact (ih key rest value given).mp (ok value rfl)
  · rintro ⟨module, property, value⟩
    obtain ⟨found, required⟩ := Except.isOk_iff.mp (isOk_requireOrigin?_iff.mpr module)
    refine ⟨found, required, ?_⟩
    cases found with
    | some o => rfl
    | none =>
        cases keys with
        | nil => rfl
        | cons key rest =>
            simp only
            split
            · next object =>
                split
                · next v given =>
                    exact (ih key rest v given).mpr (value key rest v rfl object given)
                · rfl
                · next fault fails =>
                    have given : (n.propertyValue? key).isOk :=
                      isOk_propertyValue?_iff.mpr (property key rest rfl object)
                    rw [fails] at given
                    cases given
            · rfl

theorem kind_of_literalAsks (h : LiteralAsks n q) : n.kind = .templateLiteral := by
  cases h with
  | element template => exact template

/-- The expressions that are asked anything. -/
theorem kind_of_originAsks (h : OriginAsks n keys q) : n.kind ∈ [.assignmentExpression,
    .templateLiteral, .callExpression, .memberExpression, .objectExpression] := by
  cases h with
  | right assign => simp [kind_of_isAssignment assign]
  | literal asks => simp [kind_of_literalAsks asks]
  | module asks => rcases kind_of_moduleAsks asks with kind | kind <;> simp [kind]
  | property object | value object => simp [object]

/-- Of an assignment only its right side is asked. -/
theorem exists_right_of_originAsks (assign : n.isAssignment) (h : OriginAsks n keys q) :
    ∃ right, n.child? "right" = some right ∧ OriginAsks right keys q := by
  have kind := kind_of_isAssignment assign
  cases h with
  | right _ child asks => exact ⟨_, child, asks⟩
  | literal asks => cases kind.symm.trans (kind_of_literalAsks asks)
  | module asks =>
      rcases kind_of_moduleAsks asks with other | other <;> cases kind.symm.trans other
  | property object | value object => cases kind.symm.trans object

/-- An expression that is no assignment is asked for its literal value and for the rest. -/
theorem originAnswered_iff (assign : ¬n.isAssignment) :
    (∀ q, OriginAsks n keys q → q.HasAnswer) ↔
      (keys = [] → ∀ q, LiteralAsks n q → q.HasAnswer) ∧ RestAnswered n keys := by
  constructor
  · refine fun h => ⟨?_, fun q asks => h q (.module asks), ?_, ?_⟩
    · rintro rfl q asks
      exact h q (.literal asks)
    · rintro key rest rfl object q asks
      exact h q (.property object asks)
    · rintro key rest value rfl object given q asks
      exact h q (.value object given asks)
  · rintro ⟨literal, module, property, value⟩ q asks
    cases asks with
    | right assign' => exact absurd assign' assign
    | literal asks => exact literal rfl q asks
    | module asks => exact module q asks
    | property object asks => exact property _ _ rfl object q asks
    | value object given asks => exact value _ _ _ rfl object given q asks

/-- Nothing else is asked of a literal. -/
theorem restAnswered_of_literalValue? {v : Value} (h : n.literalValue? = .ok (some v)) :
    RestAnswered n keys := by
  have kind := kind_of_literalValue? h
  refine ⟨fun q asks => ?_, fun key rest _ object => ?_, fun key rest value _ object => ?_⟩
  · rcases kind_of_moduleAsks asks with other | other <;> simp [other] at kind
  · simp [object] at kind
  · simp [object] at kind

/-- The origin of a value is found exactly if all that is asked on the way has an answer. -/
theorem isOk_origin_iff : (n.origin keys).isOk ↔ ∀ q, OriginAsks n keys q → q.HasAnswer := by
  fun_induction origin n keys with
  | case1 n keys void =>
      have kind : n.kind = .unaryExpression := of_decide_eq_true (Bool.and_eq_true_iff.mp void).1
      refine iff_of_true rfl fun q asks => ?_
      have other := kind_of_originAsks asks
      simp [kind] at other
  | case2 n keys void assign right child ih =>
      rw [ih]
      refine ⟨fun h q asks => ?_, fun h q asks => h q (.right assign child asks)⟩
      obtain ⟨right', child', asks⟩ := exists_right_of_originAsks assign asks
      cases child.symm.trans child'
      exact h q asks
  | case3 n keys void assign child =>
      refine iff_of_true rfl fun q asks => ?_
      obtain ⟨right, child', -⟩ := exists_right_of_originAsks assign asks
      cases child.symm.trans child'
  | case4 n keys void assign rest empty ih =>
      rw [originAnswered_iff assign, Except.isOk_bind_iff]
      constructor
      · rintro ⟨literal, found, h⟩
        refine ⟨fun _ => isOk_literalValue?_iff.mp (Except.isOk_iff.mpr ⟨literal, found⟩), ?_⟩
        cases literal with
        | none => exact (isOk_rest_iff ih).mp h
        | some v => exact restAnswered_of_literalValue? found
      · rintro ⟨answered, h⟩
        have valued := isOk_literalValue?_iff.mpr (answered (List.isEmpty_iff.mp empty))
        obtain ⟨literal, found⟩ := Except.isOk_iff.mp valued
        refine ⟨literal, found, ?_⟩
        cases literal with
        | none => exact (isOk_rest_iff ih).mpr h
        | some v => rfl
  | case5 n keys void assign rest empty ih =>
      rw [originAnswered_iff assign, ← isOk_rest_iff ih]
      refine (and_iff_right fun nil => absurd ?_ empty).symm
      rw [nil]
      rfl

/-- The origin of an optional value can be had if what the value asks has answers. -/
theorem isOk_originOf_iff {value : Option Node} : (originOf value keys).isOk ↔
    ∀ n, value = some n → ∀ q, OriginAsks n keys q → q.HasAnswer := by
  cases value with
  | none => simp [originOf]
  | some n => simp [originOf, isOk_origin_iff]

end Node

end EnvReads
