import EnvReads.Module.Export
import EnvReads.Module.Lookup
import EnvReads.Record
import EnvReads.Session
import EnvReads.Value.Json

/-!
# Resolution of computed keys

The evidence for the value of a computed key: one block of sites for each declaration of its path.
A module that a declaration refers to is named, and if modules are followed its exports are looked
up too; modules that those refer to are only named.
-/

namespace EnvReads

/-- How keys are resolved. -/
structure Resolver where
  /-- Whether exports of modules are looked up. -/
  followModules : Bool := false
  /-- Where to write the trees of files in which a path has no declaration. -/
  debugDir : Option Path := none

/-- Where modules come from. -/
abbrev Loader := Path → Run (Option SourceUnit)

/-- How the exports of a module contribute sites. -/
abbrev Enter := Path → ExportPath → Run (List Site)

/-- Modules are named and not looked into. -/
def Enter.never : Enter :=
  fun _ _ => pure []

namespace Origin

/-- The file of the module that a file refers to. -/
def locate (specifier : Option Text) (importer : Path) : Run (Option Path) := do
  match specifier with
  | none => return none
  | some specifier =>
    let session ← get
    Fault.raise (Module.lookup session.files.view specifier importer)

/-- The sites of an origin in the given file. -/
def sites (enter : Enter) (path : Path) : Origin → Run (List Site)
  | nothing => return []
  | literal value place => return [Site.literal path (← Fault.raise place.span?) value]
  | unknown place => return [Site.unresolved path (← Fault.raise place.span?)]
  | imported specifier keys place => do
    match ← locate specifier path with
    | none => return [Site.unresolved path (← Fault.raise place.span?)]
    | some target =>
      match ExportPath.ofList? keys with
      | none => return [Site.moduleReference target]
      | some p =>
        let more ← enter target p
        return Site.moduleReference target :: more

end Origin

/-- The sites that the values of an export give. -/
def exportSites (enter : Enter) (unit : SourceUnit) :
    List (Option Node × List Value) → Run (List Site)
  | [] => return []
  | (value, keys) :: rest => do
    let origin ← Fault.raise (Node.originOf value keys)
    let here ← origin.sites enter unit.path
    let more ← exportSites enter unit rest
    return here ++ more

/-- Looks up an export in its module, at most `hops` modules deep. -/
def Enter.hops (load : Loader) : Nat → Enter
  | 0 => Enter.never
  | n + 1 => fun target p => do
    match ← load target with
    | none => return []
    | some unit => exportSites (Enter.hops load n) unit (← Fault.raise (unit.tree.exports p))

namespace Resolver

def enter (load : Loader) (r : Resolver) : Enter :=
  if r.followModules then Enter.hops load 1 else Enter.never

/-- The file in the debug directory that the tree of a source file is written to. -/
def dumpName (path : Path) : Text :=
  let shown := Text.dropBothWhile (· = CodePoint.slash) path.toText
  Text.replace CodePoint.slash "__" shown ++ ".tree.json"

/-- Makes the debug directory and an empty file in it for a tree. -/
def prepareDump (dir : Path) (unit : SourceUnit) : EStateM FileFault FileSystem Unit := do
  FileSystem.makeDirectories dir
  FileSystem.put (dir.child (dumpName unit.path)) []

/-- Writes a tree to the debug directory. That the operating system does not let it be written
there is no fault, but a tree that has no JSON text in Unicode ends the run, and leaves what comes
before the place where that shows. -/
def dump (dir : Path) (unit : SourceUnit) : Run Unit := do
  match ← Run.withFiles (prepareDump dir unit) with
  | .error fault =>
    match fault.fatal? with
    | some fault => throw fault
    | none => return ()
  | .ok () =>
    let (octets, ending) := Json.emit (Json.chunks 0 unit.tree.toValue)
    discard (Run.withFiles (FileSystem.put (dir.child (dumpName unit.path)) octets))
    Fault.raise ending

/-- The warning for a declaration whose form is not supported. -/
def unsupported (declaration : Node) (p : StaticPath) : Except Fault Text := do
  return "Unsupported declaration " ++ (← declaration.label) ++ " for " ++ (← p.dotted)

/-- What declarations contribute: sites and warnings. -/
structure Evidence where
  sites : List Site
  warnings : List Text

/-- The contribution of one declaration of a path. -/
def declarationEvidence (load : Loader) (r : Resolver) (unit : SourceUnit) (p : StaticPath)
    (declaration : Node) : Run Evidence := do
  match ← Fault.raise (declaration.declarationOrigin? p) with
  | some origin => return ⟨← origin.sites (r.enter load) unit.path, []⟩
  | none => return ⟨[], [← Fault.raise (unsupported declaration p)]⟩

def evidence (load : Loader) (r : Resolver) (unit : SourceUnit) (p : StaticPath) :
    List Node → Run Evidence
  | [] => return ⟨[], []⟩
  | d :: rest => do
    let here ← r.declarationEvidence load unit p d
    let more ← r.evidence load unit p rest
    return ⟨here.sites ++ more.sites, here.warnings ++ more.warnings⟩

/-- The evidence for a computed key, with modules from a loader. Without any declaration there is
none, and the tree is written to the debug directory if there is one. Such a path is also asked for
its text, to tell what has no declaration. -/
def resolveThrough (load : Loader) (r : Resolver) (unit : SourceUnit) (key : Node) :
    Run Evidence := do
  match ← Fault.raise key.staticPath? with
  | none => return ⟨[], []⟩
  | some p =>
    match ← Fault.raise (unit.tree.declarationsOf p) with
    | [] =>
      discard (Fault.raise p.dotted)
      match r.debugDir with
      | none => return ⟨[], []⟩
      | some dir =>
        dump dir unit
        return ⟨[], []⟩
    | declarations => r.evidence load unit p declarations

/-- The evidence for a computed key, with modules from the session. -/
def resolve (r : Resolver) (unit : SourceUnit) (key : Node) : Run Evidence :=
  r.resolveThrough Run.loadModule unit key

/-- The record of one read. -/
def record (r : Resolver) (unit : SourceUnit) (c : Candidate) : Run Record := do
  let found ← if c.needsResolution then r.resolve unit c.key else pure ⟨[], []⟩
  Fault.raise (Record.ofCandidate unit.path unit.source c found.sites found.warnings)

/-- The records of all reads in a file. -/
def analyze (r : Resolver) (unit : SourceUnit) : Run (List Record) := do
  let candidates ← Fault.raise (Candidate.find unit.tree)
  candidates.mapM (r.record unit)

end Resolver

end EnvReads
