import EnvReads.Syntax.Node

/-!
# Pruned search

A search walks a tree in order and stops at what it finds: below a node of a leaf kind, below an
accepted node and below a suspect nothing is visited. The nodes still to visit are kept in a list,
so the depth of a tree costs no stack.
-/

namespace EnvReads

/-- What a search looks for. -/
structure Query where
  /-- Nodes to collect. -/
  accepts : Node → Bool
  /-- Nodes to collect apart, if they are not accepted. -/
  suspects : Node → Bool := fun _ => false
  /-- Kinds that are passed over together with all below them. -/
  isLeaf : Kind → Bool := Kind.isLeaf

/-- What a search collects, in the order of the tree. -/
structure Found where
  accepted : List Node
  suspects : List Node

namespace Query

/-- Visits the nodes of `pending` in order; `accepted` and `suspects` are collected last first. -/
def visit (q : Query) (accepted suspects : List Node) : List Node → Found
  | [] => ⟨accepted.reverse, suspects.reverse⟩
  | n :: rest =>
    if q.isLeaf n.kind then
      visit q accepted suspects rest
    else if q.accepts n then
      visit q (n :: accepted) suspects rest
    else if q.suspects n then
      visit q accepted (n :: suspects) rest
    else
      visit q accepted suspects (n.children ++ rest)
termination_by pending => Node.weight pending
decreasing_by
  all_goals first
    | exact Node.weight_children_lt n rest
    | exact Node.weight_lt_cons n rest

def run (q : Query) (root : Node) : Found :=
  q.visit [] [] [root]

end Query

namespace Node

/-- The nodes that satisfy `p`, save those below a leaf or below another of them. -/
def search (root : Node) (p : Node → Bool) : List Node :=
  (Query.run { accepts := p } root).accepted

/-- Whether a test holds, or fails. -/
def isFound (p : Node → Except Fault Bool) (n : Node) : Bool :=
  match p n with
  | .ok false => false
  | _ => true

/-- The search for a test that can fail: it ends with the first failure in the order of the tree,
which is the first one among the nodes where the test does not say no. -/
def searchTrying (root : Node) (p : Node → Except Fault Bool) : Except Fault (List Node) :=
  Fault.filter p (root.search (isFound p))

end Node

end EnvReads
