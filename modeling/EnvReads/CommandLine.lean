import EnvReads.CommandLine.Console
import EnvReads.CommandLine.Options
import EnvReads.Scan
import EnvReads.Text.Quoted

/-!
# The command line

Runs a command on a file system. A report goes to one of the two output streams or to a file; what
else is said goes to the error stream, through a console.
-/

namespace EnvReads

/-- The libraries that a command is run with. -/
structure Libraries where
  matcher : Matcher := .standard
  console : Console := .standard

structure Output where
  exitCode : Nat := 0
  stdout : Text := []
  stderr : Text := []

namespace Output

def version : Text := "[bold]envscan[/bold] v0.1.0"

def usage : Text :=
  "Usage: envscan scan TARGET [OPTIONS]\n       envscan version"

/-- How the error stream shows a surrogate. -/
def escapeSurrogate (c : CodePoint) : Text :=
  if c.isSurrogate then "\\u" ++ Text.ofHex 4 c.val else [c]

def line (t : Text) : Text :=
  t ++ [Piece.lineFeed]

/-- Adds to the error stream. -/
def addError (o : Output) (t : Text) : Output :=
  { o with stderr := o.stderr ++ t.flatMap escapeSurrogate }

/-- Says something on the error stream. -/
def say (console : Console) (t : Text) (o : Output) : Except Fault Output :=
  (console.print t).map o.addError

/-- Says several things. -/
def sayAll (console : Console) (o : Output) : List Text → Except Fault Output
  | [] => .ok o
  | t :: rest => do
    let o ← o.say console t
    o.sayAll console rest

/-- Ends with an error. -/
def fail (console : Console) (code : Nat) (t : Text) (o : Output) : Except Fault Output := do
  let o ← o.say console ("[red]Error:[/red] " ++ t)
  return { o with exitCode := code }

end Output

/-- Where a report goes. -/
inductive Destination where
  | stdout
  | stderr
  | file (path : Text)

namespace Destination

def ofText (t : Text) : Destination :=
  if t = "stdout" then .stdout else if t = "stderr" then .stderr else .file t

end Destination

/-- Writes a report to a file. The file is emptied before the report is made. -/
def writeReport (path : Text) (report : Except Fault Text) :
    EStateM Fault FileSystem (Except FileFault Unit) := do
  let fs ← get
  match fs.writeAt path [] with
  | .error fault =>
    match fault.fatal? with
    | some fault => throw fault
    | none => return .error fault
  | .ok emptied =>
    set emptied
    match Utf8.encode? (← Fault.raise report) with
    | none => throw .unencodable
    | some octets =>
      match emptied.writeAt path octets with
      | .error fault => return .error fault
      | .ok written =>
        set written
        return .ok ()

namespace Destination

/-- Delivers a report. -/
def deliver (console : Console) (report : Except Fault Text) (o : Output) :
    Destination → EStateM Fault FileSystem Output
  | .stdout => do
    let t ← Fault.raise report
    if t.any CodePoint.isSurrogate then throw .unencodable
    else return { o with stdout := o.stdout ++ t }
  | .stderr => do
    let t ← Fault.raise report
    return o.addError t
  | .file path => do
    match ← writeReport path report with
    | .ok () => return o
    | .error fault =>
      let reason := "Failed to write report: " ++ fault.message ++ ": " ++ path.quoted
      Fault.raise (o.fail console 1 reason)

end Destination

namespace ScanOptions

def config (matcher : Matcher) (options : ScanOptions) : ScanConfig where
  selection := { respectIgnore := !options.noIgnore, matcher }
  followModules := options.followModules
  relativePaths := !options.absolutePaths
  debugDir := options.debugDir.map Path.ofText

/-- The warnings of a scan. -/
def warnings (result : ScanResult) : List Text :=
  result.records.flatMap fun r => r.warnings.map fun warning =>
    "[yellow]Warning:[/yellow] " ++ r.line (some result.root) ++ ": " ++ warning

/-- What a detailed scan says before it looks into files. -/
def foundLine (paths : List Path) : Text :=
  "[dim]Found " ++ Text.ofNat paths.length ++ " source files[/dim]"

/-- What a detailed scan says before its report. -/
def details (result : ScanResult) : List Text :=
  ["[dim]  - " ++ Text.ofNat result.scanned ++ " files analyzed[/dim]",
    "[dim]  - " ++ Text.ofNat result.skipped.length ++ " files skipped[/dim]",
    "[dim]  - " ++ Text.ofNat result.records.length ++ " environment variables[/dim]"] ++
    warnings result

/-- What is said before files are looked into. -/
def announce (options : ScanOptions) (console : Console) (paths : List Path) :
    Except Fault Output :=
  Output.sayAll console {} (if options.verbose then [foundLine paths] else [])

/-- The progress that is shown. -/
def progressOf (options : ScanOptions) (console : Console) (result : ScanResult) :
    Except Fault Text :=
  if options.progress && console.isTerminal then console.draw result.shownPaths else .ok []

/-- What is said before the report. -/
def comment (options : ScanOptions) (console : Console) (result : ScanResult) (o : Output) :
    Except Fault Output := do
  let progress ← options.progressOf console result
  (o.addError progress).sayAll console (if options.verbose then details result else [])

/-- Scans a directory and says all that is said before the report. -/
def prepare (lib : Libraries) (options : ScanOptions) (root : Path) :
    EStateM Fault FileSystem (ScanResult × Output) := do
  let config := options.config lib.matcher
  let paths ← config.listFiles root
  let o ← Fault.raise (options.announce lib.console paths)
  let result ← config.scanFiles root paths
  let o ← Fault.raise (options.comment lib.console result o)
  return (result, o)

/-- Scans a directory and delivers the report. -/
def runIn (lib : Libraries) (options : ScanOptions) (root : Path) :
    EStateM Fault FileSystem Output := do
  let (result, o) ← options.prepare lib root
  let report := (result.json !options.absolutePaths).map Output.line
  (Destination.ofText options.output).deliver lib.console report o

/-- The fault of a text that can be no path. -/
def checkTarget (target : Text) : Except Fault Unit :=
  match FileSystem.checkText target with
  | .ok () => .ok ()
  | .error fault => fault.fatal?.elim (.ok ()) .error

/-- Checks the format and the target, in this order, and scans. -/
def run (lib : Libraries) (options : ScanOptions) (target : Text) :
    EStateM Fault FileSystem Output := do
  let fs ← get
  let root := Path.resolve fs.cwd (Path.ofText target)
  let fail (code : Nat) (t : Text) := Fault.raise (Output.fail lib.console code t {})
  if options.format ≠ "json" then
    fail 2 ("Unsupported format: " ++ options.format)
  else
    Fault.raise (checkTarget target)
    if !(← Fault.raise (fs.contains root)) then
      fail 1 ("Path does not exist: " ++ target)
    else if !(← Fault.raise (fs.isDirectory root)) then
      fail 1 ("Path is not a directory: " ++ target)
    else
      options.runIn lib root

end ScanOptions

namespace Command

def run (lib : Libraries) : Command → EStateM Fault FileSystem Output
  | .help => return { stdout := Output.line Output.usage }
  | .version => Fault.raise (Output.say lib.console Output.version {})
  | .scan target options => options.run lib target

end Command

end EnvReads
