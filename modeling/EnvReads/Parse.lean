import EnvReads.Concrete.Convert

/-!
# Parsing with several strategies

JavaScript parsers are not part of this library; they are given as `Parsers`, functions from
source text to trees in some monad. A source is parsed by the first strategy that works: strict and
tolerant ESTree parsers first, then parsers that give concrete trees, at last with recovery from
errors.
-/

namespace EnvReads

/-- What an ESTree parser takes the source for. -/
inductive Goal where
  | module
  | script
deriving DecidableEq

/-- The parsers at hand. A failure comes with its reason. -/
structure Parsers (m : Type → Type) where
  /-- An ESTree parser with its options. -/
  estree : Goal → Fields → Text → m (Except Text Value)
  /-- A parser for a grammar that gives concrete trees. -/
  concrete : Text → Text → m (Except Text Concrete)

inductive Engine where
  | estree (goal : Goal) (options : Fields)
  | concrete (grammar : Text) (recover : Bool)

structure Strategy where
  name : Text
  engine : Engine

namespace Strategy

def defaults : List Strategy :=
  [⟨"module", .estree .module [("jsx", .bool true)]⟩,
    ⟨"module-tolerant", .estree .module [("jsx", .bool true), ("tolerant", .bool true)]⟩,
    ⟨"script-tolerant", .estree .script [("tolerant", .bool true)]⟩,
    ⟨"modern", .concrete "javascript" false⟩,
    ⟨"flow", .concrete "tsx" false⟩,
    ⟨"loose", .concrete "javascript" true⟩]

/-- Positions are always asked for, unless an option says otherwise. -/
def withPositions (options : Fields) : Fields :=
  options.foldl (fun fields (name, v) => fields.put name v)
    [("loc", .bool true), ("range", .bool true)]

/-- Parses a source by one strategy. -/
def run {m : Type → Type} [Monad m] (parsers : Parsers m) (code : Text) (s : Strategy) :
    m (Except Text Value) :=
  match s.engine with
  | .estree goal options => parsers.estree goal (withPositions options) code
  | .concrete grammar recover => do
    if Concrete.grammars.contains grammar then
      match ← parsers.concrete grammar code with
      | .error reason => pure (.error reason)
      | .ok tree =>
        match Concrete.toSyntax code recover tree with
        | .error fault => pure (.error fault.message)
        | .ok node => pure (.ok (Concrete.optional node))
    else
      pure (.error (ConcreteFault.unknownGrammar grammar).message)

end Strategy

/-- Why a source gives no syntax tree. -/
inductive ParseFault where
  /-- Every strategy failed, each for its reason. -/
  | unparsable (attempts : List (Text × Text))
  /-- A parser succeeded with something that is no node. -/
  | notANode

def ParseFault.message : ParseFault → Text
  | unparsable attempts =>
    let reasons := attempts.map fun (name, reason) => name ++ ": " ++ reason
    "Unparsable source (" ++ Text.joinWith "; " reasons ++ ")"
  | notANode => "Not a syntax node"

/-- Blanks out a first line that starts with `#!`, so that nothing after it moves. -/
def stripHashbang (source : Text) : Text :=
  if ("#!" : Text).isPrefixOf source then
    let line := source.takeWhile (· != CodePoint.ofChar '\n')
    List.replicate line.length (CodePoint.ofChar ' ') ++ source.drop line.length
  else
    source

/-- A syntax tree and the name of the strategy that found it. -/
structure Parsed where
  tree : Node
  strategy : Text

/-- Tries the strategies in order; `attempts` are the failures so far, last first. -/
def parseBy {m : Type → Type} [Monad m] (parsers : Parsers m) (code : Text) :
    List (Text × Text) → List Strategy → m (Except ParseFault Parsed)
  | attempts, [] => pure (.error (.unparsable attempts.reverse))
  | attempts, s :: rest => do
    match ← s.run parsers code with
    | .error reason => parseBy parsers code ((s.name, reason) :: attempts) rest
    | .ok tree =>
      match Node.ofValue? tree with
      | some node => pure (.ok ⟨node, s.name⟩)
      | none => pure (.error .notANode)

def parse {m : Type → Type} [Monad m] (parsers : Parsers m) (strategies : List Strategy)
    (source : Text) : m (Except ParseFault Parsed) :=
  parseBy parsers (stripHashbang source) [] strategies

end EnvReads
