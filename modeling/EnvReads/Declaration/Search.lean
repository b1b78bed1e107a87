import EnvReads.Declaration.Origin
import EnvReads.Syntax.Search

/-!
# Declarations of a path

The declarations, assignments and imports in a file that give a static path its value, and the
origin of that value in each of them.
-/

namespace EnvReads

namespace Node

/-- The variable that an import specifier binds, null if there is none. -/
def localName (n : Node) : Value :=
  (n.child? "local").elim .null name

/-- The export that an import specifier takes; null for a whole module. -/
def importedName (n : Node) : Value :=
  match n.kind with
  | .importDefaultSpecifier => .text "default"
  | .importSpecifier => (n.child? "imported").elim .null name
  | _ => .null

/-- The path on the left side of an assignment. -/
def leftPath? (n : Node) : Except Fault (Option StaticPath) :=
  (n.child? "left").elim (.ok none) staticPath?

/-- The path that an assignment with `=` sets. -/
def assignedPath? (n : Node) : Except Fault (Option StaticPath) :=
  if n.isAssignment then n.leftPath? else .ok none

/-- Whether a declaration binds the name. -/
def bindsName (name : Value) (n : Node) : Except Fault Bool := do
  let names ← n.declaredNames
  if name.isSimple then return names.contains name else throw .compoundName

/-- Whether a node gives the path, or an initial part of it, a value. -/
def declares (p : StaticPath) (n : Node) : Except Fault Bool :=
  match n.kind with
  | .variableDeclarator => n.bindsName p.root
  | .assignmentExpression => n.assignedPath?.map fun left => left.any (·.isInitialOf p)
  | .importDeclaration => .ok ((n.childrenOf "specifiers").any (·.localName == p.root))
  | _ => .ok false

def declarationsOf (tree : Node) (p : StaticPath) : Except Fault (List Node) :=
  tree.searchTrying (declares p)

/-- The origin of the path in a variable declaration. -/
def declaratorOrigin? (p : StaticPath) (n : Node) : Except Fault (Option Origin) :=
  match n.child? "init" with
  | none => .ok (some .nothing)
  | some init =>
    match n.child? "id" with
    | none => .ok none
    | some target =>
      if target.isIdentifier then
        (init.origin p.keys).map some
      else if target.kind = .objectPattern then do
        match ← target.patternKey? p.root with
        | some key => (init.origin (key :: p.keys)).map some
        | none => return none
      else
        .ok none

/-- The path of what an import specifier takes, with keys below it. -/
def exportedPath (n : Node) (keys : List Value) : List Value :=
  if n.importedName.isTruthy then n.importedName :: keys else keys

/-- The origin of the path in an import. -/
def importOrigin? (p : StaticPath) (n : Node) : Option Origin :=
  ((n.childrenOf "specifiers").find? (·.localName == p.root)).map fun specifier =>
    .imported n.importedModule? (specifier.exportedPath p.keys) n

/-- The origin of the path in one of its declarations; none if the form of the declaration is not
supported. An assignment that is found for the path has a left side to be read. -/
def declarationOrigin? (p : StaticPath) (n : Node) : Except Fault (Option Origin) :=
  match n.kind with
  | .variableDeclarator => n.declaratorOrigin? p
  | .assignmentExpression => do
    match ← n.leftPath? with
    | some left => (originOf (n.child? "right") (p.keys.drop left.keys.length)).map some
    | none => throw .unassigned
  | .importDeclaration => .ok (n.importOrigin? p)
  | _ => .ok none

end Node

end EnvReads
