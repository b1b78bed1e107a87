import EnvReads.Concrete.Symbol

/-!
# Concrete trees

What an error-tolerant parser gives for a source: every token and every node of the grammar with
its place, and marks where the source does not follow the grammar.
-/

namespace EnvReads

/-- A tree with a label at every node. -/
inductive Rose (α : Type) where
  | node (label : α) (children : List (Rose α))
deriving Inhabited

namespace Rose

variable {α β : Type}

def label : Rose α → α
  | node a _ => a

def children : Rose α → List (Rose α)
  | node _ cs => cs

mutual

/-- Adds to every label a value computed from it and from the subtrees below it, which already
carry theirs. -/
def annotate (f : α → List (Rose (α × β)) → β) : Rose α → Rose (α × β)
  | node a cs =>
    let below := annotateAll f cs
    node (a, f a below) below

def annotateAll (f : α → List (Rose (α × β)) → β) : List (Rose α) → List (Rose (α × β))
  | [] => []
  | c :: cs => annotate f c :: annotateAll f cs

end

@[simp] theorem annotateAll_eq_map (f : α → List (Rose (α × β)) → β) (cs : List (Rose α)) :
    annotateAll f cs = cs.map (annotate f) := by
  induction cs with
  | nil => rfl
  | cons c cs ih => simp [annotateAll, ih]

end Rose

/-- A place in a source: row and column from zero, the column in octets. -/
structure Point where
  row : Nat
  column : Nat
deriving Inhabited

/-- What a concrete tree says about one of its nodes. -/
structure Mark where
  /-- The name of the node's symbol. -/
  type : Text
  startByte : Nat
  endByte : Nat
  start : Point
  stop : Point
  /-- The role of the node in its parent. -/
  role : Option Text
  isNamed : Bool
  /-- The parser put the node in where the source has nothing. -/
  isMissing : Bool
  /-- There is an error in or below the node. -/
  hasError : Bool
deriving Inhabited

namespace Mark

def symbol (m : Mark) : Symbol :=
  Symbol.ofName m.type

/-- Whether the node itself is an error. -/
def isError (m : Mark) : Bool :=
  m.symbol = .error || m.isMissing

end Mark

/-- Labels that carry the mark of a concrete node. -/
class Marked (α : Type) where
  mark : α → Mark

instance : Marked Mark := ⟨id⟩

instance {β : Type} : Marked (Mark × β) := ⟨Prod.fst⟩

namespace Rose

variable {α : Type} [Marked α]

def mark (t : Rose α) : Mark :=
  Marked.mark t.label

def symbol (t : Rose α) : Symbol :=
  t.mark.symbol

/-- The nodes of the grammar, without tokens. -/
def named (ts : List (Rose α)) : List (Rose α) :=
  ts.filter (·.mark.isNamed)

/-- The nodes of the grammar that conversion does not leave out. -/
def kept (ts : List (Rose α)) : List (Rose α) :=
  (named ts).filter (!·.symbol.isSkipped)

/-- The first node in a role. -/
def inRole? (ts : List (Rose α)) (role : Text) : Option (Rose α) :=
  ts.find? (·.mark.role = some role)

end Rose

abbrev Concrete := Rose Mark

namespace Concrete

mutual

/-- The first error below a node, looking only where the marks point to one; the node itself if
there is none. -/
def firstError : Concrete → Concrete
  | .node m cs => (firstErrorAmong cs).getD (.node m cs)

def firstErrorAmong : List Concrete → Option Concrete
  | [] => none
  | c :: cs =>
    if c.mark.isError then some c
    else if c.mark.hasError then some (firstError c)
    else firstErrorAmong cs

end

end Concrete

end EnvReads
