import EnvReads.Proofs.ConversionRules
import EnvReads.Proofs.PositionFaithfulness

/-!
# What a rule of conversion makes

A rule that does not fail places a node: it gives the node a tag and fields, and adds where the node
stands. So the tag of a converted node is known from the rule (`Concrete.ruleTag`), its fields are
those that the rule has put together, and its children are the nodes in these fields. Only
parentheses around a single node are no node of their own (`Concrete.inside?`).
-/

namespace EnvReads

namespace Node

/-- An optional node is read back from its value. -/
@[simp] theorem ofValue?_optional (r : Option Node) : ofValue? (Concrete.optional r) = r := by
  cases r with
  | none => rfl
  | some n => exact ofValue?_toValue n

/-- The nodes in the value of a node: itself. -/
@[simp] theorem nodesIn_toValue (n : Node) : nodesIn n.toValue = [n] := by
  change (ofValue? n.toValue).toList = [n]
  rw [ofValue?_toValue]
  rfl

/-- The nodes in the value of an optional node. -/
@[simp] theorem nodesIn_optional (r : Option Node) :
    nodesIn (Concrete.optional r) = r.toList := by
  cases r with
  | none => rfl
  | some n => exact nodesIn_toValue n

/-- The nodes in the value of a list. -/
@[simp] theorem nodesIn_listOf (nodes : List Node) : nodesIn (Concrete.listOf nodes) = nodes := by
  change (nodes.map toValue).filterMap ofValue? = nodes
  rw [List.filterMap_map]
  have same : ofValue? ∘ toValue = some := funext ofValue?_toValue
  rw [same, List.filterMap_some]

/-- The children that fields give a node. -/
def childrenIn (fields : Fields) : List Node :=
  fields.flatMap childrenOfField

/-- Where a node stands makes no difference to its children. -/
theorem childrenIn_put {name : Text} (position : isPosition name) (v : Value) (fields : Fields) :
    childrenIn (fields.put name v) = childrenIn fields := by
  induction fields with
  | nil => simp [Fields.put, childrenIn, childrenOfField, position]
  | cons field rest ih =>
      obtain ⟨other, old⟩ := field
      rw [Fields.put]
      split
      · next same =>
          subst same
          simp [childrenIn, childrenOfField, position]
      · simpa [childrenIn] using ih

end Node

namespace SourceCode

variable {s : SourceCode} {m : Mark} {tag : Text} {fields : Fields} {n : Node}

/-- A placed node has the given fields, and in addition its place. -/
theorem exists_of_place (h : s.place m tag fields = .ok n) :
    ∃ start stop loc, s.offset m.startByte = .ok start ∧ s.offset m.endByte = .ok stop ∧
      n = Node.make tag ((fields.put "range" (.list [.int start, .int stop])).put "loc" loc) := by
  obtain ⟨start, first, h⟩ := Except.bind_eq_ok_iff.mp h
  obtain ⟨stop, last, h⟩ := Except.bind_eq_ok_iff.mp h
  obtain ⟨begins, -, h⟩ := Except.bind_eq_ok_iff.mp h
  obtain ⟨ends, -, h⟩ := Except.bind_eq_ok_iff.mp h
  exact ⟨start, stop, _, first, last, (Except.ok.inj h).symm⟩

/-- A node that is placed has the tag it is given. -/
theorem tag_of_place (h : s.place m tag fields = .ok n) : n.tag = tag := by
  obtain ⟨_, _, _, -, -, rfl⟩ := exists_of_place h
  rfl

/-- It has the fields it is given, those for the position apart. -/
theorem field?_of_place (h : s.place m tag fields = .ok n) {name : Text}
    (type : name ≠ "type") (position : ¬Node.isPosition name) :
    n.field? name = fields.field? name := by
  obtain ⟨_, _, _, -, -, rfl⟩ := exists_of_place h
  simp only [Node.isPosition, Bool.or_eq_true, decide_eq_true_eq, not_or] at position
  rw [Node.field?, Node.make, Fields.field?, List.lookup_cons, beq_false_of_ne type]
  exact (Fields.field?_put_of_ne position.1 _ _).trans (Fields.field?_put_of_ne position.2 _ _)

/-- It has the children that its fields give. -/
theorem children_of_place (h : s.place m tag fields = .ok n) :
    n.children = Node.childrenIn fields := by
  obtain ⟨start, stop, loc, -, -, rfl⟩ := exists_of_place h
  change Node.childrenIn (("type", .text tag) :: _) = _
  have type : Node.childrenOfField ("type", .text tag) = [] := rfl
  rw [Node.childrenIn, List.flatMap_cons, type, List.nil_append]
  exact (Node.childrenIn_put (by decide) _ _).trans (Node.childrenIn_put (by decide) _ _)

/-- The range of a placed node is that of its mark. -/
theorem range_of_place (h : s.place m tag fields = .ok n) :
    ∃ start stop, s.offset m.startByte = .ok start ∧ s.offset m.endByte = .ok stop ∧
      n.field? "range" = some (.list [.int start, .int stop]) := by
  obtain ⟨start, stop, loc, first, last, rfl⟩ := exists_of_place h
  refine ⟨start, stop, first, last, ?_⟩
  have type : ("range" : Text) ≠ "type" := by decide
  have other : ("range" : Text) ≠ "loc" := by decide
  rw [Node.field?, Node.make, Fields.field?, List.lookup_cons, beq_false_of_ne type]
  exact (Fields.field?_put_of_ne other _ _).trans (Fields.field?_put_self _ _ _)

end SourceCode

namespace Concrete

open Rose
open Except (Ensures)

/-! ## Tags -/

/-- The node has the tag. -/
def HasTag (tag : Text) (n : Node) : Prop :=
  n.tag = tag

/-- The node stands where the mark says, with the tag. -/
def PlacedAs (s : SourceCode) (m : Mark) (tag : Text) (n : Node) : Prop :=
  ∃ fields, s.place m tag fields = .ok n

theorem placedAs_place {s : SourceCode} {m : Mark} {tag : Text} {fields : Fields} :
    Ensures (PlacedAs s m tag) (s.place m tag fields) :=
  fun _ placed => ⟨fields, placed⟩

/-- The tag that the rule for a node gives it. A node without a rule of its own keeps its type. -/
def ruleTag (s : SourceCode) (m : Mark) (ds : List Draft) : Text :=
  match m.symbol with
  | .program => "Program"
  | .expressionStatement => "ExpressionStatement"
  | .lexicalDeclaration | .variableDeclaration => "VariableDeclaration"
  | .variableDeclarator => "VariableDeclarator"
  | .identifier | .propertyIdentifier | .shorthandPropertyIdentifier
  | .shorthandPropertyIdentifierPattern | .statementIdentifier | .undefined => "Identifier"
  | .privatePropertyIdentifier => "PrivateIdentifier"
  | .this => "ThisExpression"
  | .memberExpression | .subscriptExpression => "MemberExpression"
  | .callExpression => "CallExpression"
  | .newExpression => "NewExpression"
  | .assignmentExpression | .augmentedAssignmentExpression => "AssignmentExpression"
  | .unaryExpression => "UnaryExpression"
  | .binaryExpression =>
    if isLogical (roleText? s ds "operator") then "LogicalExpression" else "BinaryExpression"
  | .ternaryExpression => "ConditionalExpression"
  | .sequenceExpression => "SequenceExpression"
  | .spreadElement => "SpreadElement"
  | .string | .number | .trueLiteral | .falseLiteral | .nullLiteral | .regex => "Literal"
  | .templateString => "TemplateLiteral"
  | .object => "ObjectExpression"
  | .objectPattern => "ObjectPattern"
  | .arrayPattern => "ArrayPattern"
  | .assignmentPattern => "AssignmentPattern"
  | .restPattern => "RestElement"
  | .importStatement => "ImportDeclaration"
  | .exportStatement =>
    if ds.any (·.symbol = .default) then "ExportDefaultDeclaration" else "ExportNamedDeclaration"
  | _ => m.type

/-- A call that is made has arguments that are no template. -/
theorem exists_of_call {s : SourceCode} {m : Mark} {ds : List Draft} {n : Node}
    (h : call s m ds = .ok n) :
    ∃ callee given, role ds "function" = .ok callee ∧ arguments ds = .ok given ∧
      s.place m "CallExpression" [
        ("callee", callee),
        ("arguments", given),
        ("optional", .bool (inRole? ds "optional_chain").isSome)] = .ok n := by
  obtain ⟨callee, called, h⟩ := Except.bind_eq_ok_iff.mp h
  have rest : (arguments ds >>= fun given => s.place m "CallExpression" [
      ("callee", callee),
      ("arguments", given),
      ("optional", .bool (inRole? ds "optional_chain").isSome)]) = .ok n := by
    split at h
    · split at h
      · obtain ⟨_, -, thrown⟩ := Except.bind_eq_ok_iff.mp h
        cases thrown
      · exact h
    · exact h
  obtain ⟨given, listed, placed⟩ := Except.bind_eq_ok_iff.mp rest
  exact ⟨callee, given, called, listed, placed⟩

/-- A call is placed with its tag, whatever it calls. -/
theorem placedAs_call {s : SourceCode} {m : Mark} {ds : List Draft} :
    Ensures (PlacedAs s m "CallExpression") (call s m ds) := by
  intro n made
  obtain ⟨_, _, -, -, placed⟩ := exists_of_call made
  exact ⟨_, placed⟩

/-- An export is placed with a tag that says whether it is the default one. -/
theorem placedAs_exportDeclaration {s : SourceCode} {m : Mark} {ds : List Draft} :
    Ensures (PlacedAs s m (if ds.any (·.symbol = .default) then "ExportDefaultDeclaration"
      else "ExportNamedDeclaration")) (exportDeclaration s m ds) := by
  rw [exportDeclaration]
  split
  · exact .bind_of_forall fun _ => placedAs_place
  · exact .bind_of_forall fun _ => .bind_of_forall fun _ => .bind_of_forall fun _ => placedAs_place

/-- A rule places its node where the mark says, with the tag of the rule. -/
theorem placedAs_assembleKept (s : SourceCode) (m : Mark) (ds : List Draft) :
    Ensures (PlacedAs s m (ruleTag s m ds)) (assembleKept s m ds) := by
  rw [ruleTag, assembleKept]
  cases m.symbol with
  | callExpression => exact placedAs_call
  | exportStatement => exact placedAs_exportDeclaration
  | identifier | propertyIdentifier | shorthandPropertyIdentifier
  | shorthandPropertyIdentifierPattern | statementIdentifier | undefined
  | privatePropertyIdentifier | this => exact placedAs_place
  | number | trueLiteral | falseLiteral | nullLiteral | regex => exact placedAs_place
  | ternaryExpression =>
      exact .bind_of_forall fun _ => .bind_of_forall fun _ => .bind_of_forall fun _ =>
        placedAs_place
  | variableDeclarator | memberExpression | subscriptExpression | newExpression
  | assignmentExpression | augmentedAssignmentExpression | binaryExpression | assignmentPattern
  | importStatement => exact .bind_of_forall fun _ => .bind_of_forall fun _ => placedAs_place
  | _ => exact .bind_of_forall fun _ => placedAs_place

/-- Every rule gives the tag that is listed for it. -/
theorem hasTag_assembleKept (s : SourceCode) (m : Mark) (ds : List Draft) :
    Ensures (HasTag (ruleTag s m ds)) (assembleKept s m ds) := by
  intro n made
  obtain ⟨fields, placed⟩ := placedAs_assembleKept s m ds n made
  exact SourceCode.tag_of_place placed

/-! ## Parentheses -/

/-- The single node in parentheses. -/
def inside? (c : Concrete) : Option Concrete :=
  if c.symbol = .parenthesizedExpression then
    match kept c.children with
    | [d] => some d
    | _ => none
  else
    none

theorem inside?_eq_some_iff {c d : Concrete} :
    c.inside? = some d ↔ c.symbol = .parenthesizedExpression ∧ kept c.children = [d] := by
  rw [inside?]
  split
  · next symbol =>
      split
      · next e single => simp [symbol, single]
      · next several =>
          simp only [reduceCtorEq, false_iff, not_and]
          exact fun _ => several d
  · next symbol => simp [symbol]

/-- Parentheses use what is in them. -/
theorem uses_of_inside? {c d : Concrete} (h : c.inside? = some d) : c.uses = [d] := by
  obtain ⟨symbol, single⟩ := inside?_eq_some_iff.mp h
  rw [uses, symbol]
  exact single

theorem mem_uses_of_inside? {c d : Concrete} (h : c.inside? = some d) : d ∈ c.uses := by
  rw [uses_of_inside? h]
  exact .head _

/-- Parentheses convert to what is in them. -/
theorem convert_of_inside? {s : SourceCode} {c d : Concrete} (h : c.inside? = some d) :
    convert s c = convert s d := by
  obtain ⟨symbol, single⟩ := inside?_eq_some_iff.mp h
  have symbol : c.mark.symbol = .parenthesizedExpression := symbol
  rw [convert_eq, assemble, symbol, kept_draft, single]
  rfl

/-- A node that is not in parentheses converts by the rule for its symbol. -/
theorem assembleKept_of_convert {s : SourceCode} {c : Concrete} {n : Node} (bare : c.inside? = none)
    (h : convert s c = .ok (some n)) :
    assembleKept s c.mark (c.children.map (draft s)) = .ok n := by
  rw [convert_eq, assemble] at h
  split at h
  · cases h
  · split at h
    · next d symbol single =>
        rw [kept_draft] at single
        obtain ⟨k, single, -⟩ := List.map_eq_singleton_iff.mp single
        cases bare.symm.trans (inside?_eq_some_iff.mpr ⟨symbol, single⟩)
    · obtain ⟨m, made, eq⟩ := Except.map_eq_ok_iff.mp h
      cases eq
      exact made

end Concrete

end EnvReads
