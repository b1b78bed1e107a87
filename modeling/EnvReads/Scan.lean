import EnvReads.Declaration.Resolve
import EnvReads.Listing
import EnvReads.Value.Json

/-!
# Scans

A scan analyzes files one after the other with one module cache and puts their records together.
Files that cannot be read or parsed are skipped.
-/

namespace EnvReads

structure ScanConfig where
  selection : Selection := {}
  followModules : Bool := false
  relativePaths : Bool := true
  /-- Where the trees of files with unsupported declarations are written. -/
  debugDir : Option Path := none

/-- Why a file is skipped. -/
inductive SkipReason where
  | unreadable
  | unparsable
deriving DecidableEq

structure ScanResult where
  root : Path
  /-- The paths that were tried, in order. -/
  visited : List Path
  scanned : Nat
  skipped : List (Path × SkipReason)
  records : List Record

/-- What one file adds to a scan. -/
inductive FileOutcome where
  | skipped (reason : SkipReason)
  | analyzed (records : List Record)

namespace FileOutcome

def isAnalyzed : FileOutcome → Bool
  | skipped _ => false
  | analyzed _ => true

def skipReason? : FileOutcome → Option SkipReason
  | skipped reason => some reason
  | analyzed _ => none

def records : FileOutcome → List Record
  | skipped _ => []
  | analyzed records => records

end FileOutcome

namespace ScanConfig

def resolver (config : ScanConfig) : Resolver where
  followModules := config.followModules
  debugDir := config.debugDir

/-- Analyzes one file. A file that loads is also put into the module cache. -/
def scanFile (config : ScanConfig) (path : Path) : Run FileOutcome := do
  let session ← get
  match SourceUnit.load session.files path with
  | .error (.parse .notANode) => throw .notANode
  | .error (.parse _) => return .skipped .unparsable
  | .error (.read .notUtf8) => return .skipped .unreadable
  | .error (.read (.file fault)) =>
    match fault.fatal? with
    | some fault => throw fault
    | none => return .skipped .unreadable
  | .ok unit =>
    Run.addModule unit
    let records ← config.resolver.analyze unit
    return .analyzed records

/-- Analyzes files in order; each comes back with its outcome. -/
def scanEach (config : ScanConfig) : List Path → Run (List (Path × FileOutcome))
  | [] => return []
  | path :: rest => do
    let outcome ← config.scanFile path
    let more ← config.scanEach rest
    return (path, outcome) :: more

end ScanConfig

namespace ScanResult

def ofOutcomes (root : Path) (outcomes : List (Path × FileOutcome)) : Except Fault ScanResult := do
  return {
    root
    visited := outcomes.map Prod.fst
    scanned := outcomes.countP (·.2.isAnalyzed)
    skipped := outcomes.filterMap fun (path, outcome) => outcome.skipReason?.map (path, ·)
    records := ← Record.aggregate (outcomes.flatMap (·.2.records)) }

/-- The visited paths as progress shows them. -/
def shownPaths (r : ScanResult) : List Text :=
  r.visited.map (displayPath (some r.root))

/-- The records as a report shows them. -/
def toValue (r : ScanResult) (relativePaths : Bool) : Value :=
  .list (r.records.map (Record.toValue (if relativePaths then some r.root else none)))

/-- The report as JSON text. -/
def json (r : ScanResult) (relativePaths : Bool) : Except Fault Text :=
  Json.write (r.toValue relativePaths)

end ScanResult

namespace ScanConfig

/-- Scans the given files in a new session on a file system. -/
def scanFiles (config : ScanConfig) (root : Path) (paths : List Path) :
    EStateM Fault FileSystem ScanResult := fun fs =>
  match (config.scanEach paths).run ⟨fs, Cache.empty⟩ with
  | .ok outcomes session =>
    Fault.raise (ScanResult.ofOutcomes (Path.resolve fs.cwd root) outcomes) session.files
  | .error fault session => .error fault session.files

/-- Lists the source files below a directory. -/
def listFiles (config : ScanConfig) (root : Path) : EStateM Fault FileSystem (List Path) := do
  Fault.raise (config.selection.list (← get) root)

/-- Scans the source files below a directory. -/
def scan (config : ScanConfig) (root : Path) : EStateM Fault FileSystem ScanResult := do
  let paths ← config.listFiles root
  config.scanFiles root paths

end ScanConfig

end EnvReads
