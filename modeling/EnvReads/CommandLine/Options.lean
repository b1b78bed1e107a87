import EnvReads.FileSystem

/-!
# Command line options

Reads the arguments of the command line. Options may stand before and after operands: `--name value`
or `--name=value`, and short ones as `-n value`, `-nvalue` or several flags in one word. An option
takes the next argument as its value whatever it looks like, `--` ends the options, and of repeated
options the last one counts. An option whose value is a directory takes only what can be a path.
-/

namespace EnvReads

structure ScanOptions where
  format : Text := "json"
  output : Text := "stdout"
  followModules : Bool := false
  noIgnore : Bool := false
  absolutePaths : Bool := false
  debugDir : Option Text := none
  progress : Bool := true
  verbose : Bool := false
  help : Bool := false

/-- Whether the values that count are such as their options take. -/
def ScanOptions.isValid (o : ScanOptions) : Bool :=
  o.debugDir.all FileSystem.isPathText

/-- What an option does. -/
inductive Switch where
  | flag (raise : ScanOptions → ScanOptions)
  | value (assign : Text → ScanOptions → ScanOptions)

/-- The options that a command knows. -/
structure Grammar where
  long : List (Text × Switch)
  short : List (CodePoint × Switch) := []

namespace Grammar

def long? (g : Grammar) (name : Text) : Option Switch :=
  g.long.lookup name

def short? (g : Grammar) (letter : CodePoint) : Option Switch :=
  g.short.lookup letter

def helpSwitch : Switch := .flag fun o => { o with help := true }

def plain : Grammar where
  long := [("--help", helpSwitch)]

def formatSwitch : Switch := .value fun t o => { o with format := t }
def outputSwitch : Switch := .value fun t o => { o with output := t }
def verboseSwitch : Switch := .flag fun o => { o with verbose := true }

def scan : Grammar where
  long := [
    ("--format", formatSwitch),
    ("--output", outputSwitch),
    ("--follow-modules", .flag fun o => { o with followModules := true }),
    ("--no-ignore", .flag fun o => { o with noIgnore := true }),
    ("--absolute-paths", .flag fun o => { o with absolutePaths := true }),
    ("--debug-dir", .value fun t o => { o with debugDir := some t }),
    ("--progress", .flag fun o => { o with progress := true }),
    ("--no-progress", .flag fun o => { o with progress := false }),
    ("--verbose", verboseSwitch),
    ("--help", helpSwitch)]
  short := [('f', formatSwitch), ('o', outputSwitch), ('v', verboseSwitch)]

end Grammar

/-- What the next argument is taken for. -/
inductive Expectation where
  | optionOrOperand
  | operand
  | value (assign : Text → ScanOptions → ScanOptions)

structure Reading where
  options : ScanOptions := {}
  operands : List Text := []
  expected : Expectation := .optionOrOperand

namespace Reading

def addOperand (r : Reading) (t : Text) : Reading :=
  { r with operands := r.operands ++ [t] }

/-- Reads the letters of a word after its hyphen. -/
def readLetters (g : Grammar) : Text → Reading → Option Reading
  | [], r => some r
  | c :: rest, r =>
    match g.short? c with
    | none => none
    | some (.flag raise) => readLetters g rest { r with options := raise r.options }
    | some (.value assign) =>
      if rest.isEmpty then
        some { r with expected := .value assign }
      else
        some { r with options := assign rest r.options }

def isEquals (c : CodePoint) : Bool :=
  c = '='

def readLong (g : Grammar) (t : Text) (r : Reading) : Option Reading :=
  match g.long? (t.takeWhile (!isEquals ·)), t.dropWhile (!isEquals ·) with
  | none, _ => none
  | some (.flag raise), [] => some { r with options := raise r.options }
  | some (.flag _), _ :: _ => none
  | some (.value assign), [] => some { r with expected := .value assign }
  | some (.value assign), _ :: value => some { r with options := assign value r.options }

/-- A word with more than its hyphen is an option. -/
def isOption (t : Text) : Bool :=
  Text.startsWith "-" t && t != "-"

def readArgument (g : Grammar) (r : Reading) (t : Text) : Option Reading :=
  match r.expected with
  | .value assign => some { r with options := assign t r.options, expected := .optionOrOperand }
  | .operand => some (r.addOperand t)
  | .optionOrOperand =>
    if t = "--" then
      some { r with expected := .operand }
    else if Text.startsWith "--" t then
      readLong g t r
    else if isOption t then
      readLetters g (t.drop 1) r
    else
      some (r.addOperand t)

/-- The options and operands among the arguments; none if an option is unknown, lacks its value or
has one that it does not take. -/
def ofArguments? (g : Grammar) (args : List Text) : Option Reading := do
  let r ← args.foldlM (readArgument g) {}
  match r.expected with
  | .value _ => none
  | _ => some r

end Reading

inductive Command where
  | help
  | version
  | scan (target : Text) (options : ScanOptions)

namespace Command

/-- A command from its name and arguments. -/
def ofName? (name : Text) (args : List Text) : Option Command := do
  if name = "scan" then
    let r ← Reading.ofArguments? Grammar.scan args
    match r.options.help, r.operands with
    | true, _ => some .help
    | false, [target] => if r.options.isValid then some (.scan target r.options) else none
    | false, _ => none
  else if name = "version" then
    let r ← Reading.ofArguments? Grammar.plain args
    match r.options.help, r.operands with
    | true, _ => some .help
    | false, [] => some .version
    | false, _ => none
  else
    none

/-- The command after the options in front of it; `help` tells whether one of them asks for help. -/
def afterOptions? (help : Bool) : List Text → Option Command
  | [] => if help then some .help else none
  | name :: args => if help then some .help else ofName? name args

/-- Reads options in front of a command, and the command. -/
def readFrom? (help : Bool) : List Text → Option Command
  | [] => afterOptions? help []
  | t :: rest =>
    if t = "--" then afterOptions? help rest
    else if t = "--help" then readFrom? true rest
    else if Reading.isOption t then none
    else afterOptions? help (t :: rest)

/-- Reads the arguments; none if they are not used as they should be. -/
def read? (args : List Text) : Option Command :=
  readFrom? false args

end Command

end EnvReads
