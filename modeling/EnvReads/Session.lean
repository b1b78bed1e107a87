import EnvReads.Module.Cache
import EnvReads.SourceUnit

/-!
# Sessions

A run reads modules through a cache and may write files. What it has written stays written when it
ends with a fault.
-/

namespace EnvReads

structure Session where
  files : FileSystem
  modules : Cache SourceUnit

/-- A computation in a session that may end with a fault. -/
abbrev Run := EStateM Fault Session

namespace Run

/-- A module, loaded if it is not in the cache. -/
def loadModule (path : Path) : Run (Option SourceUnit) := do
  let session ← get
  let load (p : Path) : Run (Option SourceUnit) :=
    Fault.raise (SourceUnit.loadModule session.files p)
  let (unit, modules) ← session.modules.get load path
  set { session with modules }
  return unit

/-- Puts a unit into the cache. -/
def addModule (unit : SourceUnit) : Run Unit :=
  modify fun session => { session with modules := session.modules.add unit.path unit }

/-- A file operation that leaves the cache alone. -/
def withFiles {α : Type} (operation : EStateM FileFault FileSystem α) :
    Run (Except FileFault α) := do
  let session ← get
  match operation.run session.files with
  | .ok a files =>
    set { session with files }
    return .ok a
  | .error fault files =>
    set { session with files }
    return .error fault

end Run

end EnvReads
