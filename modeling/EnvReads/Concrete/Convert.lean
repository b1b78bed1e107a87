import EnvReads.Concrete.Numeral
import EnvReads.Concrete.Place

/-!
# From concrete trees to syntax trees

The nodes that the analysis knows become ESTree nodes; every other node keeps its type and holds
its converted children in one field, so that a search still passes through it. Error nodes are such
nodes. Parentheses around one expression vanish.

Conversion labels every node of the concrete tree with what it converts to (`Converted`). A node's
own label is put together from the labels below it (`assemble`), so no rule is recursive, and a
fault below a node counts only if the node's rule looks there.
-/

namespace EnvReads

/-- A concrete node with what it converts to: a node, nothing, or a fault. -/
abbrev Draft := Rose (Mark × Except ConcreteFault (Option Node))

namespace Draft

def result (d : Draft) : Except ConcreteFault (Option Node) :=
  d.label.2

/-- What a node that may be missing converts to. -/
def resultOf (d : Option Draft) : Except ConcreteFault (Option Node) :=
  d.elim (.ok none) result

/-- The conversions of several nodes, without those that convert to nothing. -/
def results (ds : List Draft) : Except ConcreteFault (List Node) := do
  let nodes ← ds.mapM result
  .ok (nodes.filterMap id)

end Draft

namespace Concrete

open Draft Rose

/-- The value of a field for a node that may be missing. -/
def optional (n : Option Node) : Value :=
  n.elim .null Node.toValue

def listOf (nodes : List Node) : Value :=
  .list (nodes.map Node.toValue)

def unescaped (t : Text) : Except ConcreteFault Text :=
  (unescape t).mapError .escape

/-- The conversion of the node in a role, as the value of a field. -/
def role (ds : List Draft) (name : Text) : Except ConcreteFault Value :=
  (resultOf (inRole? ds name)).map optional

/-- The conversion of the first kept node, as the value of a field. -/
def firstKept (ds : List Draft) : Except ConcreteFault Value :=
  (resultOf (kept ds).head?).map optional

/-- The text of the node in a role, as the value of a field. -/
def roleText? (s : SourceCode) (ds : List Draft) (name : Text) : Option Text :=
  (inRole? ds name).map (s.textOf ·.mark)

def identifier (s : SourceCode) (m : Mark) : Except ConcreteFault Node :=
  s.place m "Identifier" [("name", .text (s.textOf m))]

/-- A literal with its value and its source text, and further fields. -/
def literal (s : SourceCode) (m : Mark) (v : Value) (fields : Fields) :
    Except ConcreteFault Node :=
  s.place m "Literal" (("value", v) :: ("raw", .text (s.textOf m)) :: fields)

/-- The text between the quotes of a string. -/
def inner (s : SourceCode) (m : Mark) : Text :=
  slice (s.textOf m) 1 (-1)

/-! ## Templates -/

/-- The part of a template literal between two substitutions. -/
def templateElement (s : SourceCode) (start stop : Int) (tail : Bool) :
    Except ConcreteFault Value := do
  let raw := s.cut start stop
  let first ← s.offset start
  let last ← s.offset stop
  let cooked ← unescaped raw
  .ok (Node.toValue (Node.make "TemplateElement" [
    ("value", .record [("raw", .text raw), ("cooked", .text cooked)]),
    ("tail", .bool tail),
    ("range", .list [.int first, .int last])]))

/-- The elements and expressions of a template from `start` up to `stop`, given its substitutions
in order. -/
def templateParts (s : SourceCode) (stop : Int) :
    Int → List Draft → Except ConcreteFault (List Value × List Value)
  | start, [] => do
    let last ← templateElement s start stop true
    .ok ([last], [])
  | start, d :: ds => do
    let element ← templateElement s start d.mark.startByte false
    let expression ← (kept d.children).head?.elim (.ok []) fun part =>
      (result part).map fun n => [optional n]
    let (elements, expressions) ← templateParts s stop d.mark.endByte ds
    .ok (element :: elements, expression ++ expressions)

def templateLiteral (s : SourceCode) (m : Mark) (ds : List Draft) : Except ConcreteFault Node := do
  let substitutions := (named ds).filter (·.symbol = .templateSubstitution)
  let (elements, expressions) ← templateParts s (m.endByte - 1) (m.startByte + 1) substitutions
  s.place m "TemplateLiteral" [("quasis", .list elements), ("expressions", .list expressions)]

/-! ## Objects -/

/-- A property of an object or of an object pattern. -/
def property (s : SourceCode) (m : Mark) (key : Value) (computed : Bool) (value : Value)
    (shorthand : Bool) : Except ConcreteFault Node :=
  s.place m "Property" [
    ("key", key),
    ("computed", .bool computed),
    ("value", value),
    ("kind", .text "init"),
    ("method", .bool false),
    ("shorthand", .bool shorthand)]

/-- The key of a property: the expression in brackets, or the name itself. -/
def propertyKey (key : Option Draft) : Except ConcreteFault Value :=
  match key with
  | some d =>
    if d.symbol = .computedPropertyName then firstKept d.children else d.result.map optional
  | none => .ok .null

/-- A member of an object or of an object pattern. -/
def member (s : SourceCode) (d : Draft) : Except ConcreteFault (Option Node) :=
  match d.symbol with
  | .pair | .pairPattern => do
    let key := inRole? d.children "key"
    let keyValue ← propertyKey key
    let value ← role d.children "value"
    property s d.mark keyValue (key.any (·.symbol = .computedPropertyName)) value false
  | .shorthandPropertyIdentifier | .shorthandPropertyIdentifierPattern => do
    let name ← identifier s d.mark
    property s d.mark name.toValue false name.toValue true
  | .objectAssignmentPattern =>
    match inRole? d.children "left" with
    | some left =>
      if left.symbol.isIdentifierLike then do
        let name ← identifier s left.mark
        let right ← role d.children "right"
        let value ← s.place d.mark "AssignmentPattern" [("left", name.toValue), ("right", right)]
        property s d.mark name.toValue false value.toValue true
      else
        d.result
    | none => d.result
  | _ => d.result

def object (s : SourceCode) (m : Mark) (tag : Text) (ds : List Draft) :
    Except ConcreteFault Node := do
  let members ← (kept ds).mapM (member s)
  s.place m tag [("properties", listOf (members.filterMap id))]

/-! ## Imports and exports -/

/-- The name of an import or export; a string is a name too. -/
def moduleName (s : SourceCode) (d : Option Draft) : Except ConcreteFault Value :=
  match d with
  | none => .ok .null
  | some d =>
    if d.symbol = .string then do
      let name ← unescaped (inner s d.mark)
      (s.place d.mark "Identifier" [("name", .text name)]).map Node.toValue
    else
      (identifier s d.mark).map Node.toValue

/-- One entry in the braces of an import. -/
def importSpecifier (s : SourceCode) (d : Draft) : Except ConcreteFault Node := do
  let imported := inRole? d.children "name"
  let renamed := inRole? d.children "alias"
  let localName ← moduleName s (renamed <|> imported)
  let importedName ← moduleName s imported
  s.place d.mark "ImportSpecifier" [("local", localName), ("imported", importedName)]

/-- The specifiers of one part of an import clause. -/
def importPart (s : SourceCode) (d : Draft) : Except ConcreteFault (List Node) :=
  match d.symbol with
  | .identifier => do
    let name ← identifier s d.mark
    let specifier ← s.place d.mark "ImportDefaultSpecifier" [("local", name.toValue)]
    .ok [specifier]
  | .namespaceImport =>
    match (named d.children).find? (·.symbol = .identifier) with
    | some target => do
      let name ← identifier s target.mark
      let specifier ← s.place d.mark "ImportNamespaceSpecifier" [("local", name.toValue)]
      .ok [specifier]
    | none => .ok []
  | .namedImports =>
    ((named d.children).filter (·.symbol = .importSpecifier)).mapM (importSpecifier s)
  | _ => .ok []

def importDeclaration (s : SourceCode) (m : Mark) (ds : List Draft) :
    Except ConcreteFault Node := do
  let clauses := (named ds).filter (·.symbol = .importClause)
  let specifiers ← (clauses.flatMap (named ·.children)).mapM (importPart s)
  let source ← role ds "source"
  s.place m "ImportDeclaration" [("specifiers", listOf specifiers.flatten), ("source", source)]

def exportDeclaration (s : SourceCode) (m : Mark) (ds : List Draft) :
    Except ConcreteFault Node :=
  let declaration := inRole? ds "declaration"
  if ds.any (·.symbol = .default) then do
    let value ← resultOf (inRole? ds "value" <|> declaration)
    s.place m "ExportDefaultDeclaration" [("declaration", optional value)]
  else do
    let declared ← resultOf declaration
    let specifiers ← results ((named ds).filter (·.symbol = .exportClause))
    let source ← role ds "source"
    s.place m "ExportNamedDeclaration" [
      ("declaration", optional declared),
      ("specifiers", listOf specifiers),
      ("source", source)]

/-! ## Expressions -/

def memberExpression (s : SourceCode) (m : Mark) (ds : List Draft) (computed : Bool)
    (propertyRole : Text) : Except ConcreteFault Node := do
  let object ← role ds "object"
  let property ← role ds propertyRole
  s.place m "MemberExpression" [
    ("computed", .bool computed),
    ("object", object),
    ("property", property),
    ("optional", .bool (inRole? ds "optional_chain").isSome)]

/-- The arguments of a call. -/
def arguments (ds : List Draft) : Except ConcreteFault Value :=
  match inRole? ds "arguments" with
  | some d => (results (kept d.children)).map listOf
  | none => .ok (.list [])

/-- A call. A tagged template is not supported, but the faults of its parts come first. -/
def call (s : SourceCode) (m : Mark) (ds : List Draft) : Except ConcreteFault Node := do
  let callee ← role ds "function"
  match inRole? ds "arguments" with
  | some d =>
    if d.symbol = .templateString then
      let _ ← result d
      throw .taggedTemplate
  | none => pure ()
  let arguments ← arguments ds
  s.place m "CallExpression" [
    ("callee", callee),
    ("arguments", arguments),
    ("optional", .bool (inRole? ds "optional_chain").isSome)]

def newExpression (s : SourceCode) (m : Mark) (ds : List Draft) : Except ConcreteFault Node := do
  let callee ← role ds "constructor"
  let arguments ← arguments ds
  s.place m "NewExpression" [("callee", callee), ("arguments", arguments)]

/-- A node with an operator and two sides. -/
def binary (s : SourceCode) (m : Mark) (tag : Text) (operator : Value) (ds : List Draft) :
    Except ConcreteFault Node := do
  let left ← role ds "left"
  let right ← role ds "right"
  s.place m tag [("operator", operator), ("left", left), ("right", right)]

def isLogical (operator : Option Text) : Bool :=
  operator = some "&&" || operator = some "||" || operator = some "??"

/-- The text of a node that may be missing. -/
def textOrNull (t : Option Text) : Value :=
  t.elim .null .text

/-! ## All nodes -/

/-- A node that keeps its type and holds its children in one field. -/
def generic (s : SourceCode) (m : Mark) (ds : List Draft) : Except ConcreteFault Node := do
  let children ← results ds
  s.place m m.type [("children", listOf children)]

/-- What a node that is not left out converts to, given the drafts of its children. -/
def assembleKept (s : SourceCode) (m : Mark) (ds : List Draft) : Except ConcreteFault Node :=
  match m.symbol with
  | .program => do
    let body ← results (named ds)
    s.place m "Program" [("sourceType", .text "module"), ("body", listOf body)]
  | .expressionStatement => do
    let expression ← firstKept ds
    s.place m "ExpressionStatement" [("expression", expression)]
  | .lexicalDeclaration | .variableDeclaration => do
    let declarations ← results ((named ds).filter (·.symbol = .variableDeclarator))
    let kind := (roleText? s ds "kind").getD "var"
    s.place m "VariableDeclaration" [("declarations", listOf declarations), ("kind", .text kind)]
  | .variableDeclarator => do
    let id ← role ds "name"
    let init ← role ds "value"
    s.place m "VariableDeclarator" [("id", id), ("init", init)]
  | .identifier | .propertyIdentifier | .shorthandPropertyIdentifier
  | .shorthandPropertyIdentifierPattern | .statementIdentifier => identifier s m
  | .privatePropertyIdentifier =>
    let name := (s.textOf m).dropWhile (· = CodePoint.ofChar '#')
    s.place m "PrivateIdentifier" [("name", .text name)]
  | .this => s.place m "ThisExpression" []
  | .undefined => s.place m "Identifier" [("name", .text "undefined")]
  | .memberExpression => memberExpression s m ds false "property"
  | .subscriptExpression => memberExpression s m ds true "index"
  | .parenthesizedExpression => generic s m (kept ds)
  | .callExpression => call s m ds
  | .newExpression => newExpression s m ds
  | .assignmentExpression | .augmentedAssignmentExpression =>
    binary s m "AssignmentExpression" (.text ((roleText? s ds "operator").getD "=")) ds
  | .unaryExpression => do
    let argument ← role ds "argument"
    s.place m "UnaryExpression" [
      ("operator", textOrNull (roleText? s ds "operator")),
      ("prefix", .bool true),
      ("argument", argument)]
  | .binaryExpression =>
    let operator := roleText? s ds "operator"
    let tag : Text := if isLogical operator then "LogicalExpression" else "BinaryExpression"
    binary s m tag (textOrNull operator) ds
  | .ternaryExpression => do
    let test ← role ds "condition"
    let consequent ← role ds "consequence"
    let alternate ← role ds "alternative"
    s.place m "ConditionalExpression" [
      ("test", test), ("consequent", consequent), ("alternate", alternate)]
  | .sequenceExpression => do
    let expressions ← results (named ds)
    s.place m "SequenceExpression" [("expressions", listOf expressions)]
  | .spreadElement => do
    let argument ← firstKept ds
    s.place m "SpreadElement" [("argument", argument)]
  | .string => do
    let value ← unescaped (inner s m)
    literal s m (.text value) []
  | .number => literal s m ((Numeral.value? (s.textOf m)).getD .null) []
  | .trueLiteral => literal s m (.bool true) []
  | .falseLiteral => literal s m (.bool false) []
  | .nullLiteral => literal s m .null []
  | .regex =>
    literal s m .null [("regex", .record [
      ("pattern", .text ((roleText? s ds "pattern").getD "")),
      ("flags", .text ((roleText? s ds "flags").getD ""))])]
  | .templateString => templateLiteral s m ds
  | .object => object s m "ObjectExpression" ds
  | .objectPattern => object s m "ObjectPattern" ds
  | .arrayPattern => do
    let elements ← results (named ds)
    s.place m "ArrayPattern" [("elements", listOf elements)]
  | .assignmentPattern => do
    let left ← role ds "left"
    let right ← role ds "right"
    s.place m "AssignmentPattern" [("left", left), ("right", right)]
  | .restPattern => do
    let argument ← firstKept ds
    s.place m "RestElement" [("argument", argument)]
  | .importStatement => importDeclaration s m ds
  | .exportStatement => exportDeclaration s m ds
  | _ => generic s m (named ds)

/-- What a node converts to, given the drafts of its children. Parentheses around a single node
convert to what that node does. -/
def assemble (s : SourceCode) (m : Mark) (ds : List Draft) :
    Except ConcreteFault (Option Node) :=
  if m.symbol.isSkipped then
    .ok none
  else
    match m.symbol, kept ds with
    | .parenthesizedExpression, [d] => result d
    | _, _ => (assembleKept s m ds).map some

/-- The concrete tree with every node labelled with what it converts to. -/
def draft (s : SourceCode) (c : Concrete) : Draft :=
  c.annotate (assemble s)

/-- The syntax tree of a concrete tree; a tree that is all comment has none. -/
def convert (s : SourceCode) (c : Concrete) : Except ConcreteFault (Option Node) :=
  (draft s c).result

/-- The grammars that concrete trees are parsed by. -/
def grammars : List Text :=
  ["javascript", "tsx"]

/-- The syntax tree of a parsed source. A source with errors is refused unless `recover` is set;
then its error nodes are kept. -/
def toSyntax (code : Text) (recover : Bool) (c : Concrete) :
    Except ConcreteFault (Option Node) :=
  if c.label.hasError && !recover then
    let place := c.firstError.label.start
    .error (.syntaxError (place.row + 1) place.column)
  else
    convert (SourceCode.ofText code) c

end Concrete

end EnvReads
