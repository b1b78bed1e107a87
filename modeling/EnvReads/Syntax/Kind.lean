import EnvReads.Text

/-!
# Kinds of syntax nodes

The node types of an ESTree syntax tree that the analysis tells apart; all others are `unknown`.
-/

namespace EnvReads

inductive Kind where
  | program
  | identifier
  | literal
  | templateLiteral
  | templateElement
  | thisExpression
  | memberExpression
  | variableDeclaration
  | variableDeclarator
  | assignmentExpression
  | assignmentPattern
  | callExpression
  | unaryExpression
  | objectPattern
  | objectExpression
  | property
  | restElement
  | expressionStatement
  | importDeclaration
  | importDefaultSpecifier
  | importSpecifier
  | importNamespaceSpecifier
  | exportNamedDeclaration
  | exportDefaultDeclaration
  | unknown
deriving DecidableEq

namespace Kind

/-- The tag of the nodes of a kind. -/
def tag : Kind → Text
  | program => "Program"
  | identifier => "Identifier"
  | literal => "Literal"
  | templateLiteral => "TemplateLiteral"
  | templateElement => "TemplateElement"
  | thisExpression => "ThisExpression"
  | memberExpression => "MemberExpression"
  | variableDeclaration => "VariableDeclaration"
  | variableDeclarator => "VariableDeclarator"
  | assignmentExpression => "AssignmentExpression"
  | assignmentPattern => "AssignmentPattern"
  | callExpression => "CallExpression"
  | unaryExpression => "UnaryExpression"
  | objectPattern => "ObjectPattern"
  | objectExpression => "ObjectExpression"
  | property => "Property"
  | restElement => "RestElement"
  | expressionStatement => "ExpressionStatement"
  | importDeclaration => "ImportDeclaration"
  | importDefaultSpecifier => "ImportDefaultSpecifier"
  | importSpecifier => "ImportSpecifier"
  | importNamespaceSpecifier => "ImportNamespaceSpecifier"
  | exportNamedDeclaration => "ExportNamedDeclaration"
  | exportDefaultDeclaration => "ExportDefaultDeclaration"
  | unknown => "<unknown>"

def all : List Kind :=
  [program, identifier, literal, templateLiteral, templateElement, thisExpression,
    memberExpression, variableDeclaration, variableDeclarator, assignmentExpression,
    assignmentPattern, callExpression, unaryExpression, objectPattern, objectExpression, property,
    restElement, expressionStatement, importDeclaration, importDefaultSpecifier, importSpecifier,
    importNamespaceSpecifier, exportNamedDeclaration, exportDefaultDeclaration, unknown]

/-- The kind of a tag. -/
def ofTag (tag : Text) : Kind :=
  (all.find? (·.tag = tag)).getD unknown

@[simp] theorem ofTag_tag (k : Kind) : ofTag k.tag = k := by
  cases k <;> decide

/-- The kinds below which a search never descends. -/
def isLeaf : Kind → Bool
  | identifier | literal | templateElement | thisExpression => true
  | _ => false

end Kind

end EnvReads
