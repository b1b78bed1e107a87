import EnvReads.Fault
import EnvReads.FileSystem

/-!
# Source units

A file that has been read and parsed.
-/

namespace EnvReads

structure SourceUnit where
  path : Path
  source : Text
  tree : Node

/-- Why a file gives no source unit. -/
inductive LoadFault where
  | read (fault : ReadFault)
  | parse (fault : ParseFault)

/-- The parsers, restricted to one file: each gives what the file carries. -/
def ParserOutput.parsers (output : ParserOutput) : Parsers Id where
  estree _ _ _ :=
    match output with
    | .estree tree => .ok tree
    | _ => .error "no parse"
  concrete _ _ :=
    match output with
    | .concrete tree => .ok tree
    | _ => .error "no parse"

namespace SourceUnit

def load (fs : FileSystem) (path : Path) : Except LoadFault SourceUnit := do
  let source ← (fs.readText path).mapError .read
  let content ← (fs.file path).mapError fun fault => .read (.file fault)
  let parsed ← (Id.run (parse content.parsed.parsers Strategy.defaults source)).mapError .parse
  return ⟨path, source, parsed.tree⟩

/-- Loads a module that another file refers to. A module that is JSON, or cannot be read or parsed,
counts as absent. -/
def loadModule (fs : FileSystem) (path : Path) : Except Fault (Option SourceUnit) := do
  if path.suffix.lower = ".json" then
    return none
  else if ← fs.isFile path then
    match load fs path with
    | .ok unit => return some unit
    | .error (.parse .notANode) => throw .notANode
    | .error _ => return none
  else
    return none

end SourceUnit

end EnvReads
