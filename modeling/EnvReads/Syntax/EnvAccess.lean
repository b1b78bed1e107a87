import EnvReads.Syntax.Node

/-!
# Reads of the environment

The shapes of JavaScript code that read environment variables: `process.env.KEY`,
`const { KEY } = process.env`, and the same through a variable `env` that was itself taken from
`process`. With them stand the shapes that bring in other modules, `require("…")` and `import`.
-/

namespace EnvReads

namespace Node

/-- `process.env` itself. -/
def isProcessEnv (n : Node) : Bool :=
  n.kind = .memberExpression && !n.computed &&
    (n.child? "object").any (·.isNamed "process") && (n.child? "property").any (·.isNamed "env")

/-- `process.env.KEY` or `process.env[key]`. -/
def isEnvMember (n : Node) : Bool :=
  n.kind = .memberExpression && (n.child? "object").any isProcessEnv

/-- `{ … } = process.env` in a declaration. -/
def isEnvDestructuring (n : Node) : Bool :=
  n.kind = .variableDeclarator && (n.child? "id").any (·.kind = .objectPattern) &&
    (n.child? "init").any isProcessEnv

/-- A read of the environment that needs no alias. -/
def isDirectRead (n : Node) : Bool :=
  n.isEnvMember || n.isEnvDestructuring

/-- A declaration initialised with the identifier `env`. -/
def isAliasBinding (n : Node) : Bool :=
  n.kind = .variableDeclarator && (n.child? "init").any (·.isNamed "env")

/-- `env.KEY` or `env[key]`. -/
def isAliasMember (n : Node) : Bool :=
  n.kind = .memberExpression && (n.child? "object").any (·.isNamed "env")

/-- A read of the environment, provided that `env` is the environment. -/
def isAliasUse (n : Node) : Bool :=
  n.isAliasBinding || n.isAliasMember

/-- The variable that a property of an object pattern binds: `b` in `{ a: b = 1 }`. It is null if
the property binds none. -/
def boundName (value : Node) : Value :=
  let target := if value.kind = .assignmentPattern then value.child? "left" else some value
  target.elim .null fun n => if n.isIdentifier then n.name else .null

/-- The variable that a node binds as a property of an object pattern. -/
def propertyBinding (n : Node) : Value :=
  (n.child? "value").elim .null boundName

/-- `const { env } = process` or `const env = process.env`. -/
def bindsEnv (n : Node) : Bool :=
  n.kind = .variableDeclarator &&
    match n.child? "id", n.child? "init" with
    | some target, some init =>
      if target.isNamed "env" then
        init.isProcessEnv
      else
        target.kind = .objectPattern && init.isNamed "process" &&
          (target.childrenOf "properties").any fun p =>
            p.kind = .property && p.propertyBinding.text? = some "env"
    | _, _ => false

/-- How many arguments a call has: the members of a list, or whatever else can be counted. -/
def argumentCount (n : Node) : Except Fault Nat :=
  match (n.field? "arguments").getD .null with
  | .list items => .ok items.length
  | .record fields => .ok fields.length
  | .text t => .ok t.length
  | v => if v.isTruthy then .error .arguments else .ok 0

/-- The text of the only argument of a call, if it is a literal. -/
def soleArgument? (n : Node) : Option Text :=
  match n.childrenOf "arguments" with
  | [argument] => if argument.kind = .literal then argument.value.text? else none
  | _ => none

/-- The module that a call `require("…")` with a single literal argument names. -/
def requiredModule? (n : Node) : Except Fault (Option Text) :=
  if n.kind = .callExpression && (n.child? "callee").any (·.isNamed "require") then do
    let count ← n.argumentCount
    return if count = 1 then n.soleArgument? else none
  else
    .ok none

def isRequire (n : Node) : Except Fault Bool :=
  n.requiredModule?.map Option.isSome

/-- `x = require("…")` in a declaration. -/
def isRequireBinding (n : Node) : Except Fault Bool :=
  if n.kind = .variableDeclarator then (n.child? "init").elim (.ok false) isRequire else .ok false

/-- The module that an `import` declaration names. -/
def importedModule? (n : Node) : Option Text :=
  if n.kind = .importDeclaration then (n.child? "source").bind (·.value.text?) else none

/-- The module that a call or an import brings in. -/
def broughtModule? (n : Node) : Except Fault (Option Text) := do
  return (← n.requiredModule?) <|> n.importedModule?

/-- The module that a call, a declaration or an import brings in. -/
def moduleSpecifier? (n : Node) : Except Fault (Option Text) :=
  if n.kind = .variableDeclarator then (n.child? "init").elim (.ok none) broughtModule?
  else n.broughtModule?

/-- The properties of an object or object pattern. -/
def properties (n : Node) : List Node :=
  (n.childrenOf "properties").filter (·.kind = .property)

/-- The names that a declaration binds. An identifier without a name counts as one. -/
def boundNames (n : Node) : List Value :=
  match n.child? "id" with
  | some target =>
    if target.isIdentifier then
      [target.name]
    else if target.kind = .objectPattern then
      (target.properties.map propertyBinding).filter Value.isTruthy
    else
      []
  | none => []

/-- The names that a declaration binds, to be looked up. -/
def declaredNames (n : Node) : Except Fault (List Value) :=
  if n.boundNames.all Value.isSimple then .ok n.boundNames else .error .compoundName

end Node

end EnvReads
