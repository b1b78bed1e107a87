import EnvReads.Syntax.EnvAccess
import EnvReads.Syntax.Search

/-!
# Candidates

The reads of environment variables in a tree. Reads through a variable `env` count only if the tree
somewhere takes `env` from `process`.
-/

namespace EnvReads

structure Candidate where
  /-- The member expression, or the property of an object pattern. -/
  node : Node
  /-- The node that names the variable. -/
  key : Node
  computed : Bool
  span : Option Span

namespace Candidate

/-- The read at a node whose variable another node names. -/
def ofKey (n key : Node) : Except Fault Candidate :=
  n.span?.map fun span => ⟨n, key, n.computed, span⟩

/-- The read that a member of an object pattern makes, if it is a property with a key. The place of
other members is asked for too, to tell where something is passed over. -/
def ofMember (p : Node) : Except Fault (Option Candidate) :=
  match p.child? "key" with
  | some key => (ofKey p key).map fun c => if p.kind = .property then some c else none
  | none => p.span?.map fun _ => none

/-- One read for a member expression, one for each property of an object pattern. -/
def ofNode (n : Node) : Except Fault (List Candidate) :=
  match n.kind with
  | .memberExpression => (n.child? "property").toList.mapM (ofKey n)
  | .variableDeclarator =>
    match n.child? "id" with
    | some target =>
      if target.kind = .objectPattern then
        ((target.childrenOf "properties").mapM ofMember).map fun found => found.filterMap id
      else
        .ok []
    | none => .ok []
  | _ => .ok []

/-- The reads at several nodes. -/
def ofNodes (nodes : List Node) : Except Fault (List Candidate) :=
  (nodes.mapM ofNode).map List.flatten

/-- Reads are ordered by where they stand; those without a place stand first. -/
def sort (cs : List Candidate) : Except Fault (List Candidate) :=
  match Value.sortOn? (fun c => Span.key? c.span) cs with
  | some sorted => .ok sorted
  | none => .error .unordered

/-- A key that names its variable by itself. -/
def hasLiteralKey (c : Candidate) : Bool :=
  c.key.kind = .literal || (!c.computed && c.key.isIdentifier)

def needsResolution (c : Candidate) : Bool :=
  !c.hasLiteralKey

/-- The query for reads: direct ones, and those that depend on `env`. -/
def query : Query where
  accepts := Node.isDirectRead
  suspects := Node.isAliasUse

/-- Whether a tree takes `env` from `process`. -/
def confirmsAlias (tree : Node) : Bool :=
  !(tree.search Node.bindsEnv).isEmpty

/-- The reads in a tree as the search comes to them, direct ones first. -/
def gather (tree : Node) : Except Fault (List Candidate) := do
  let found := query.run tree
  let direct ← ofNodes found.accepted
  let aliased ← if confirmsAlias tree then ofNodes found.suspects else .ok []
  return direct ++ aliased

/-- The reads in a tree, in the order of the source; direct reads come before others at the same
place. -/
def find (tree : Node) : Except Fault (List Candidate) :=
  gather tree >>= sort

end Candidate

end EnvReads
