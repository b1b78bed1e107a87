import EnvReads.Declaration.Search

/-!
# Exports of a module

Where a module gives an export its value: assignments to `module.exports` and `exports`, exported
declarations, and the default export.
-/

namespace EnvReads

/-- The path of an export: its name, and the keys below it. -/
structure ExportPath where
  name : Value
  keys : List Value

namespace ExportPath

/-- The path of an export; the empty path is the module itself. -/
def ofList? : List Value → Option ExportPath
  | [] => none
  | name :: keys => some ⟨name, keys⟩

def isDefault (p : ExportPath) : Bool :=
  p.name.text? = some "default"

/-- The path below `module.exports`, where the default export is the whole. -/
def slots (p : ExportPath) : List Value :=
  if p.isDefault then p.keys else p.name :: p.keys

end ExportPath

namespace StaticPath

/-- The part of the exports that an assignment to the path sets: the keys after `module.exports`,
or after `exports`, which itself cannot be replaced. -/
def exportSlot? (p : StaticPath) : Option (List Value) :=
  if p.root.text? = some "module" then
    match p.keys with
    | key :: slot => if key.text? = some "exports" then some slot else none
    | [] => none
  else if p.root.text? = some "exports" && !p.keys.isEmpty then
    some p.keys
  else
    none

end StaticPath

namespace Node

/-- Whether a node can give an export its value. -/
def isExport (n : Node) : Bool :=
  match n.kind with
  | .assignmentExpression | .exportNamedDeclaration | .exportDefaultDeclaration => true
  | _ => false

/-- What an assignment gives to an export: the value, and the keys still to follow in it. -/
def assignedExport (p : ExportPath) (n : Node) :
    Except Fault (List (Option Node × List Value)) := do
  match (← n.assignedPath?).bind StaticPath.exportSlot? with
  | some slot =>
    return if slot.isPrefixOf p.slots then [(n.child? "right", p.slots.drop slot.length)] else []
  | none => return []

/-- Whether a declaration declares a variable of the given name. -/
def declaresVariable (name : Value) (d : Node) : Bool :=
  (d.child? "id").any fun target => target.isIdentifier && target.name == name

/-- What an exported declaration gives to an export. -/
def declaredExport (p : ExportPath) (n : Node) : List (Option Node × List Value) :=
  match n.child? "declaration" with
  | some declaration =>
    if declaration.kind = .variableDeclaration then
      ((declaration.childrenOf "declarations").filter (declaresVariable p.name)).map fun d =>
        (d.child? "init", p.keys)
    else
      []
  | none => []

/-- What a node gives to an export. -/
def exportedAt (p : ExportPath) (n : Node) : Except Fault (List (Option Node × List Value)) :=
  match n.kind with
  | .assignmentExpression => n.assignedExport p
  | .exportNamedDeclaration => .ok (n.declaredExport p)
  | .exportDefaultDeclaration =>
    .ok (if p.isDefault then [(n.child? "declaration", p.keys)] else [])
  | _ => .ok []

/-- The values of an export in a module, in the order of the tree. -/
def exports (tree : Node) (p : ExportPath) : Except Fault (List (Option Node × List Value)) :=
  ((tree.search isExport).mapM (exportedAt p)).map List.flatten

end Node

end EnvReads
