import EnvReads.Text

/-!
# Grammar symbols

The node types of a concrete JavaScript syntax tree that conversion treats in a way of their own;
all others are `other`.
-/

namespace EnvReads

inductive Symbol where
  | program
  | expressionStatement
  | lexicalDeclaration
  | variableDeclaration
  | variableDeclarator
  | identifier
  | propertyIdentifier
  | shorthandPropertyIdentifier
  | shorthandPropertyIdentifierPattern
  | statementIdentifier
  | privatePropertyIdentifier
  | this
  | undefined
  | memberExpression
  | subscriptExpression
  | parenthesizedExpression
  | callExpression
  | newExpression
  | assignmentExpression
  | augmentedAssignmentExpression
  | unaryExpression
  | binaryExpression
  | ternaryExpression
  | sequenceExpression
  | spreadElement
  | string
  | number
  | trueLiteral
  | falseLiteral
  | nullLiteral
  | regex
  | templateString
  | templateSubstitution
  | object
  | objectPattern
  | pair
  | pairPattern
  | objectAssignmentPattern
  | computedPropertyName
  | arrayPattern
  | assignmentPattern
  | restPattern
  | importStatement
  | importClause
  | namespaceImport
  | namedImports
  | importSpecifier
  | exportStatement
  | exportClause
  | default
  | error
  | comment
  | hashBangLine
  | optionalChain
  | other
deriving DecidableEq

namespace Symbol

/-- The names of the symbols in the grammar. -/
def names : List (String × Symbol) :=
  [("program", program),
    ("expression_statement", expressionStatement),
    ("lexical_declaration", lexicalDeclaration),
    ("variable_declaration", variableDeclaration),
    ("variable_declarator", variableDeclarator),
    ("identifier", identifier),
    ("property_identifier", propertyIdentifier),
    ("shorthand_property_identifier", shorthandPropertyIdentifier),
    ("shorthand_property_identifier_pattern", shorthandPropertyIdentifierPattern),
    ("statement_identifier", statementIdentifier),
    ("private_property_identifier", privatePropertyIdentifier),
    ("this", this),
    ("undefined", undefined),
    ("member_expression", memberExpression),
    ("subscript_expression", subscriptExpression),
    ("parenthesized_expression", parenthesizedExpression),
    ("call_expression", callExpression),
    ("new_expression", newExpression),
    ("assignment_expression", assignmentExpression),
    ("augmented_assignment_expression", augmentedAssignmentExpression),
    ("unary_expression", unaryExpression),
    ("binary_expression", binaryExpression),
    ("ternary_expression", ternaryExpression),
    ("sequence_expression", sequenceExpression),
    ("spread_element", spreadElement),
    ("string", string),
    ("number", number),
    ("true", trueLiteral),
    ("false", falseLiteral),
    ("null", nullLiteral),
    ("regex", regex),
    ("template_string", templateString),
    ("template_substitution", templateSubstitution),
    ("object", object),
    ("object_pattern", objectPattern),
    ("pair", pair),
    ("pair_pattern", pairPattern),
    ("object_assignment_pattern", objectAssignmentPattern),
    ("computed_property_name", computedPropertyName),
    ("array_pattern", arrayPattern),
    ("assignment_pattern", assignmentPattern),
    ("rest_pattern", restPattern),
    ("import_statement", importStatement),
    ("import_clause", importClause),
    ("namespace_import", namespaceImport),
    ("named_imports", namedImports),
    ("import_specifier", importSpecifier),
    ("export_statement", exportStatement),
    ("export_clause", exportClause),
    ("default", default),
    ("ERROR", error),
    ("comment", comment),
    ("hash_bang_line", hashBangLine),
    ("optional_chain", optionalChain)]

def table : List (Text × Symbol) :=
  names.map fun (name, symbol) => (name, symbol)

def ofName (name : Text) : Symbol :=
  (table.lookup name).getD other

/-- Nodes that conversion leaves out. -/
def isSkipped : Symbol → Bool
  | comment | hashBangLine | optionalChain => true
  | _ => false

/-- Nodes that convert to identifiers with their text as name. -/
def isIdentifierLike : Symbol → Bool
  | identifier | propertyIdentifier | shorthandPropertyIdentifier
  | shorthandPropertyIdentifierPattern | statementIdentifier => true
  | _ => false

end Symbol

end EnvReads
