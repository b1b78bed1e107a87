import EnvReads.CommandLine
import EnvReads.FileSystem.Change
import EnvReads.Value.JsonReader

/-!
# The program

Reads the working directory, the directory to scan and the `node_modules` directories above it from
the disk, and what stands where the output goes; then runs the command and carries out what it
changed. Symbolic links are passed over. What cannot be read is there without permission to read it.
The syntax tree of a file is expected beside it, as JSON, under the file's name with `.estree.json`
added.
-/

namespace EnvReads

namespace Disk

def treeSuffix : String := ".estree.json"

/-- What the parsers make of a file, if its tree is there. -/
def readTree (path : String) : IO ParserOutput := do
  match ← (IO.FS.readBinFile (path ++ treeSuffix)).toBaseIO with
  | .error _ => return .nothing
  | .ok octets =>
    match (Utf8.decode? octets.toList).map (Json.read octets.size) with
    | some (.ok tree) => return .estree tree
    | _ => return .nothing

partial def readEntry (e : IO.FS.DirEntry) : IO (Option Entry) := do
  let info ← e.path.symlinkMetadata
  match info.type with
  | .dir =>
    match ← e.path.readDir.toBaseIO with
    | .error _ => return some (.directory e.fileName { read := false } [])
    | .ok inside => return some (.folder e.fileName (← inside.toList.filterMapM readEntry))
  | .file =>
    match ← (IO.FS.readBinFile e.path).toBaseIO with
    | .error _ => return some (.file e.fileName { octets := [], permissions := { read := false } })
    | .ok octets =>
      let parsed ← readTree e.path.toString
      return some (.file e.fileName { octets := octets.toList, parsed })
  | _ => return none

/-- Adds what the disk has at a path. -/
def load (fs : FileSystem) (p : Path) : IO FileSystem := do
  let e : IO.FS.DirEntry := ⟨p.parent.toText.toString, p.name.toString⟩
  match ← (readEntry e).toBaseIO with
  | .error _ => return fs
  | .ok none => return fs
  | .ok (some (.directory [] permissions entries)) => return { fs with permissions, entries }
  | .ok (some entry) =>
    match (FileSystem.makeDirectories p.parent).run fs with
    | .ok _ fs => return fs.insert p.parent entry
    | .error _ fs => return fs

/-- Adds what the disk has at a path, a directory without what is in it, unless it is there. -/
def loadOutline (fs : FileSystem) (p : Path) : IO FileSystem := do
  if (fs.entry p).isOk then
    return fs
  let e : IO.FS.DirEntry := ⟨p.parent.toText.toString, p.name.toString⟩
  match ← e.path.metadata.toBaseIO with
  | .error _ => return fs
  | .ok info =>
    match info.type with
    | .dir => return fs.insert p.parent (.folder p.name [])
    | _ => load fs p

/-- The paths that a command may write to, and those above them. -/
def written (cwd : Path) : Command → List Path
  | .scan _ options =>
    let targets := (options.output :: options.debugDir.toList).map fun t =>
      Path.resolve cwd (Path.ofText t)
    targets.flatMap fun p => p.ancestors.reverse ++ [p]
  | _ => []

/-- The paths that a command can reach. -/
def reached (cwd : Path) : Command → List Path
  | .scan target _ =>
    let root := Path.resolve cwd (Path.ofText target)
    cwd :: root :: root.ancestors.map (·.child "node_modules")
  | _ => []

/-- The paths that do not lie below another one. -/
def topmost (paths : List Path) : List Path :=
  (paths.filter fun p => !p.ancestors.any paths.contains).eraseDups

def carryOut : Change → IO Unit
  | .makeDirectory p => IO.FS.createDirAll p.toText.toString
  | .write p octets => IO.FS.writeBinFile p.toText.toString ⟨octets.toArray⟩

end Disk

/-- Runs a command on the disk. -/
def Command.runOnDisk (command : Command) : IO UInt32 := do
  let cwd := Path.ofText (← IO.currentDir).toString
  let files ← (Disk.topmost (Disk.reached cwd command)).foldlM Disk.load { entries := [], cwd }
  let before ← (Disk.written cwd command).foldlM Disk.loadOutline files
  let (result, after) : Except Fault Output × FileSystem :=
    match (command.run {}).run before with
    | .ok output fs => (.ok output, fs)
    | .error fault fs => (.error fault, fs)
  (before.changes after).forM Disk.carryOut
  match result with
  | .ok output =>
    IO.print output.stdout.toString
    IO.eprint output.stderr.toString
    return UInt32.ofNat output.exitCode
  | .error _ =>
    IO.eprintln "The scan was given up: an input is malformed."
    return 1

end EnvReads

def main (args : List String) : IO UInt32 :=
  match EnvReads.Command.read? (args.map EnvReads.Text.ofString) with
  | some command => command.runOnDisk
  | none => do
    IO.eprintln EnvReads.Output.usage.toString
    return 2
