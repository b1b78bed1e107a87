import EnvReads.Syntax.Node
import EnvReads.Text.Blank
import EnvReads.Value.Writable

/-!
# Access paths

Two views of an access chain such as `a.b["c"]`: the static path that its declarations are looked
up by (`Node.staticPath?`), and the text that stands for it in a report (`Node.accessPath`).
-/

namespace EnvReads

/-- A variable and the property keys applied to it, in trees that keep to the rules all of them
texts. The variable is null when its identifier has no name. -/
structure StaticPath where
  root : Value
  keys : List Value

namespace StaticPath

/-- The path as a list of segments. -/
def segments (p : StaticPath) : List Value :=
  p.root :: p.keys

/-- Whether `p` is the path `q` or an initial part of it. -/
def isInitialOf (p q : StaticPath) : Bool :=
  p.root == q.root && p.keys.isPrefixOf q.keys

/-- The dotted text of a path whose segments are texts. -/
def dotted (p : StaticPath) : Except Fault Text :=
  match p.segments.mapM Value.text? with
  | some texts => .ok (Text.joinWith "." texts)
  | none => .error .unnamedSegment

end StaticPath

namespace Node

/-- The fixed name of a property key: an identifier that is not computed, or a literal. -/
def staticKey? (computed : Bool) (n : Node) : Except Fault (Option Value) :=
  if n.isIdentifier && !computed then .ok n.name.present?
  else if n.kind = .literal then
    match n.value.keyText? with
    | some t => n.value.writable.map fun _ => some (.text t)
    | none => .ok none
  else .ok none

/-- The fixed key of a property or of a member expression. -/
def memberKey? (n : Node) (role : Text) : Except Fault (Option Value) :=
  (n.child? role).elim (.ok none) (staticKey? n.computed)

/-- The static path of an access chain with fixed keys that starts at an identifier. -/
def staticPath? (n : Node) : Except Fault (Option StaticPath) :=
  if n.isIdentifier then
    .ok (some ⟨n.name, []⟩)
  else if n.kind = .memberExpression then
    match _h : n.child? "object" with
    | some object => do
      match ← staticPath? object with
      | some head =>
        return (← n.memberKey? "property").map fun key => ⟨head.root, head.keys ++ [key]⟩
      | none => return none
    | none => .ok none
  else
    .ok none
termination_by sizeOf n.fields
decreasing_by exact sizeOf_child?_lt _h

/-- The source text of an expression with its blanks collapsed, or its tag if there is no text. -/
def sourceText (source : Option Text) (n : Node) : Except Fault Text := do
  match ← source.elim (.ok none) n.textIn? with
  | some (c :: rest) => return Text.joinWith " " (Text.words (c :: rest))
  | _ => return "<" ++ n.tag ++ ">"

/-- What stands for an access chain: a text, save that an identifier alone stands for itself with
whatever name it has. -/
def accessPath (source : Option Text) (n : Node) : Except Fault Value :=
  match n.kind with
  | .identifier => .ok n.name
  | .thisExpression => .ok (.text "this")
  | .literal => n.value.writable.map fun v => .text v.literalText
  | .memberExpression =>
    match _ho : n.child? "object", _hp : n.child? "property" with
    | some object, some property => do
      let head ← accessPath source object
      let key ← accessPath source property
      return .text (head.shown ++ "." ++ key.shown)
    | _, _ => (n.sourceText source).map .text
  | _ => (n.sourceText source).map .text
termination_by sizeOf n.fields
decreasing_by
  · exact sizeOf_child?_lt _ho
  · exact sizeOf_child?_lt _hp

end Node

end EnvReads
