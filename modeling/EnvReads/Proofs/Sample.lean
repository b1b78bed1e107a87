import EnvReads.Syntax.EnvAccess

/-!
# Nodes for samples

The nodes that the sample trees of other files are put together from, each with the fields that the
analysis looks at and no place in a source.
-/

namespace EnvReads.Sample

def node (kind : Kind) (fields : Fields) : Value :=
  .record (("type", .text kind.tag) :: fields)

def name (t : Text) : Value :=
  node .identifier [("name", .text t)]

def text (t : Text) : Value :=
  node .literal [("value", .text t)]

/-- `object.key`. -/
def member (object : Value) (key : Text) : Value :=
  node .memberExpression [("computed", .bool false), ("object", object), ("property", name key)]

/-- `object[key]`. -/
def entry (object key : Value) : Value :=
  node .memberExpression [("computed", .bool true), ("object", object), ("property", key)]

def processEnv : Value :=
  member (name "process") "env"

def statement (expression : Value) : Value :=
  node .expressionStatement [("expression", expression)]

def assignment (left right : Value) : Value :=
  node .assignmentExpression [("operator", .text "="), ("left", left), ("right", right)]

def declaration (target init : Value) : Value :=
  node .variableDeclaration [("declarations", .list [
    node .variableDeclarator [("id", target), ("init", init)]])]

def property (key : Text) (value : Value) : Value :=
  node .property [("key", name key), ("computed", .bool false), ("value", value)]

def object (properties : List Value) : Value :=
  node .objectExpression [("properties", .list properties)]

def require (specifier : Text) : Value :=
  node .callExpression [("callee", name "require"), ("arguments", .list [text specifier])]

/-- `function () { … }`. -/
def function (body : List Value) : Value :=
  .record [("type", .text "FunctionExpression"),
    ("body", .record [("type", .text "BlockStatement"), ("body", .list body)])]

def program (body : List Value) : Node :=
  Node.make Kind.program.tag [("body", .list body)]

end EnvReads.Sample
