import EnvReads.Fault
import EnvReads.Parse
import EnvReads.Path

/-!
# File systems

A tree of directories and files. A file has its octets and, since JavaScript parsers are not part of
this library, what they make of it. Paths are followed component by component: `..` leads to the
directory above, and only directories that can be searched are passed through. Of several entries of
a directory that have the same name only the first can be reached. Names are octets: a surrogate
from DC80 to DCFF in a text stands for one that is not part of a character. Names and paths have a
greatest length, counted in octets.

Module lookup sees a file system only through the questions it asks about paths (`FileView`), so it
does not depend on how paths are followed.
-/

namespace EnvReads

/-- What the JavaScript parsers make of a file. -/
inductive ParserOutput where
  | nothing
  | estree (tree : Value)
  | concrete (tree : Concrete)

/-- What can be done with a file or a directory. -/
structure Permissions where
  read : Bool := true
  write : Bool := true
  /-- Whether paths can lead through a directory. -/
  search : Bool := true
deriving DecidableEq

structure File where
  octets : List UInt8
  parsed : ParserOutput := .nothing
  permissions : Permissions := {}

inductive Entry where
  | file (name : Text) (content : File)
  | directory (name : Text) (permissions : Permissions) (entries : List Entry)

/-- Why a file operation fails. -/
inductive FileFault where
  | notFound
  | alreadyExists
  | notADirectory
  | isADirectory
  | nameTooLong
  | denied
  /-- A path with a null character names nothing. -/
  | nullInPath
  /-- A path with a surrogate names nothing. -/
  | unencodable
deriving DecidableEq

namespace FileFault

/-- The words of the operating system. -/
def message : FileFault → Text
  | notFound => "[Errno 2] No such file or directory"
  | alreadyExists => "[Errno 17] File exists"
  | notADirectory => "[Errno 20] Not a directory"
  | isADirectory => "[Errno 21] Is a directory"
  | nameTooLong => "[Errno 36] File name too long"
  | denied => "[Errno 13] Permission denied"
  | nullInPath => "embedded null byte"
  | unencodable => "surrogates not allowed"

/-- The fault that ends a run, if the operation did not come to the operating system at all. -/
def fatal? : FileFault → Option Fault
  | nullInPath => some .nullInPath
  | unencodable => some .unencodable
  | _ => none

end FileFault

namespace Entry

/-- A directory with which everything can be done. -/
def folder (name : Text) (entries : List Entry) : Entry :=
  directory name {} entries

def name : Entry → Text
  | file name _ => name
  | directory name _ _ => name

def isDirectory : Entry → Bool
  | file .. => false
  | directory .. => true

def permissions : Entry → Permissions
  | file _ content => content.permissions
  | directory _ permissions _ => permissions

def entries : Entry → List Entry
  | file .. => []
  | directory _ _ entries => entries

/-- Whether a code point stands for an octet by itself. -/
def isOctet (c : CodePoint) : Bool :=
  0xDC80 ≤ c.val && c.val ≤ 0xDCFF

/-- The octets that a text is given to the operating system as. -/
def octets (t : Text) : List UInt8 :=
  t.flatMap fun c => if isOctet c then [UInt8.ofNat (c.val - 0xDC00)] else c.utf8

/-- Whether two texts name the same entry of a directory. Without surrogates these are the same
texts only. -/
def sameName (s t : Text) : Bool :=
  s = t || ((s.any isOctet || t.any isOctet) && octets s = octets t)

def find? (entries : List Entry) (name : Text) : Option Entry :=
  entries.find? fun e => sameName e.name name

/-- The number of octets that a name can have. -/
def maxName : Nat := 255

def isTooLong (name : Text) : Bool :=
  maxName < (octets name).length

/-- Whether a text can be the name of an entry. -/
def IsName (t : Text) : Prop :=
  Path.IsPart t ∧ t ≠ ".."

instance (t : Text) : Decidable (IsName t) :=
  inferInstanceAs (Decidable (_ ∧ _))

/-- What can be reached of the members of a directory, each with its name: of several with the same
name only the first. -/
def named {α : Type} : List (Text × α) → List (Text × α)
  | [] => []
  | (name, a) :: rest =>
    let others := (named rest).filter fun (other, _) => !sameName name other
    if IsName name then (name, a) :: others else others

/-- Whether paths can lead through an entry. -/
def pass : Entry → Except FileFault Unit
  | file .. => .error .notADirectory
  | directory _ permissions _ => if permissions.search then .ok () else .error .denied

/-- One step down from an entry. -/
def enter (part : Text) (here : Entry) : Except FileFault Entry := do
  here.pass
  if isTooLong part then .error .nameTooLong
  else (find? here.entries part).elim (.error .notFound) .ok

/-- Follows components from an entry; `above` are the directories around it, nearest first. -/
def follow (above : List Entry) (here : Entry) : List Text → Except FileFault Entry
  | [] => .ok here
  | part :: rest =>
    if part = ".." then do
      here.pass
      follow above.tail (above.headD here) rest
    else do
      let e ← here.enter part
      follow (here :: above) e rest

/-- Puts an entry among others, in place of one with the same name. -/
def insert (new : Entry) : List Entry → List Entry
  | [] => [new]
  | e :: rest => if sameName e.name new.name then new :: rest else e :: insert new rest

/-- Puts an entry into the directory with the given components. -/
def insertAt (new : Entry) : List Text → List Entry → List Entry
  | [], entries => insert new entries
  | part :: rest, entries =>
    entries.map fun
      | directory name permissions below =>
        if sameName name part then directory name permissions (insertAt new rest below)
        else directory name permissions below
      | file name content => file name content

end Entry

structure FileSystem where
  /-- The entries of the root directory. -/
  entries : List Entry
  /-- The working directory, which relative paths start from. -/
  cwd : Path
  /-- What can be done with the root directory. -/
  permissions : Permissions := {}
  /-- The number of lists and records that can be open at once in a text that is read as JSON. -/
  nesting : Nat := 990

namespace FileSystem

def root (fs : FileSystem) : Entry :=
  .directory [] fs.permissions fs.entries

/-- The number of octets that every path stays below. -/
def maxPath : Nat := 4096

/-- A surrogate that stands for no octet. -/
def isUnencodable (c : CodePoint) : Bool :=
  c.isSurrogate && !Entry.isOctet c

/-- Whether a text can stand for octets without a null. The operating system can be asked about such
texts only. -/
def isPathText (t : Text) : Bool :=
  !t.any isUnencodable && !t.contains 0

/-- Whether a text can be given to the operating system as a path. -/
def checkText (t : Text) : Except FileFault Unit :=
  if t.any isUnencodable then .error .unencodable
  else if t.contains 0 then .error .nullInPath
  else if maxPath ≤ (Entry.octets t).length then .error .nameTooLong
  else .ok ()

def entry (fs : FileSystem) (p : Path) : Except FileFault Entry := do
  checkText p.toText
  fs.root.follow [] (fs.cwd.join p).parts

/-- What stands at a path, if anything does. A path that is too long, or leads through a directory
that cannot be searched, cannot be looked at. -/
def lookAt (fs : FileSystem) (p : Path) : Except Fault (Option Entry) :=
  match fs.entry p with
  | .ok e => .ok (some e)
  | .error .nameTooLong => .error .longPath
  | .error .denied => .error .denied
  | .error _ => .ok none

def contains (fs : FileSystem) (p : Path) : Except Fault Bool := do
  return (← fs.lookAt p).isSome

def file (fs : FileSystem) (p : Path) : Except FileFault File :=
  match fs.entry p with
  | .ok (.file _ content) => if content.permissions.read then .ok content else .error .denied
  | .ok (.directory ..) => .error .isADirectory
  | .error fault => .error fault

/-- The directory at a path. -/
def directory (fs : FileSystem) (p : Path) : Except FileFault Entry :=
  match fs.entry p with
  | .ok (.directory name permissions entries) => .ok (.directory name permissions entries)
  | .ok (.file ..) => .error .notADirectory
  | .error fault => .error fault

/-- The entries of a directory. -/
def list (fs : FileSystem) (p : Path) : Except FileFault (List Entry) := do
  let dir ← fs.directory p
  if dir.permissions.read then .ok dir.entries else .error .denied

/-- Puts an entry into an existing directory. -/
def insert (fs : FileSystem) (dir : Path) (new : Entry) : FileSystem :=
  { fs with entries := new.insertAt (Path.resolve fs.cwd dir).parts fs.entries }

/-- Puts a new entry into the directory above its path. -/
def create (fs : FileSystem) (p : Path) (new : Text → Entry) : Except FileFault FileSystem := do
  let dir ← fs.directory p.parent
  if dir.permissions.write then .ok (fs.insert p.parent (new p.name)) else .error .denied

/-- Writes a file. Its directory must exist; what an old file of that name holds is replaced. -/
def write (fs : FileSystem) (p : Path) (octets : List UInt8) : Except FileFault FileSystem :=
  match fs.entry p with
  | .ok (.directory ..) => .error .isADirectory
  | .ok (.file name { permissions, .. }) =>
    if permissions.write then .ok (fs.insert p.parent (.file name { octets, permissions }))
    else .error .denied
  | .error fault =>
    if fault = .notFound ∧ p.name ≠ ".." then fs.create p fun name => .file name { octets }
    else .error fault

/-- Makes a directory, where there is none. -/
def make (fs : FileSystem) (p : Path) : Except FileFault FileSystem :=
  match fs.entry p with
  | .ok (.directory ..) => .ok fs
  | .ok (.file ..) => .error .alreadyExists
  | .error fault =>
    if fault = .notFound then fs.create p fun name => .folder name [] else .error fault

/-- A change of the file system at hand. -/
def change (f : FileSystem → Except FileFault FileSystem) : EStateM FileFault FileSystem Unit := do
  match f (← get) with
  | .ok fs => set fs
  | .error fault => throw fault

/-- Writes a file in the file system at hand. -/
def put (p : Path) (octets : List UInt8) : EStateM FileFault FileSystem Unit :=
  change (·.write p octets)

/-- The last component that a text spells, without final slashes, and the text before it. -/
def splitLast (t : Text) : Text × Text :=
  let kept := Text.dropEndWhile (· = CodePoint.slash) t
  let last := (kept.reverse.takeWhile (· != CodePoint.slash)).reverse
  (kept.take (kept.length - last.length), last)

/-- Writes a file whose path is given as text. Nothing can be written under an empty text or under
one that ends like a directory: in a slash, `.` or `..`. -/
def writeAt (fs : FileSystem) (t : Text) (octets : List UInt8) : Except FileFault FileSystem := do
  checkText t
  let (before, last) := splitLast t
  if t.isEmpty then
    .error .notFound
  else if last.isEmpty then
    .error .isADirectory
  else
    let dir ← fs.entry (Path.ofText before)
    dir.pass
    if last = "." || last = ".." || Text.endsWith "/" t then
      .error .isADirectory
    else
      fs.write (Path.ofText t) octets

/-- Makes the directories with the given paths, in order. -/
def makeEach : List Path → EStateM FileFault FileSystem Unit
  | [] => pure ()
  | p :: rest => do
    change (·.make p)
    makeEach rest

/-- Makes a directory and those above it. -/
def makeDirectories (p : Path) : EStateM FileFault FileSystem Unit :=
  makeEach (p.ancestors.reverse ++ [p])

end FileSystem

/-- Why a file cannot be read as text. -/
inductive ReadFault where
  | file (fault : FileFault)
  | notUtf8
deriving DecidableEq

namespace FileSystem

/-- The text of a file, with every newline a line feed. -/
def readText (fs : FileSystem) (p : Path) : Except ReadFault Text :=
  match fs.file p with
  | .error fault => .error (.file fault)
  | .ok content =>
    match Utf8.decode? content.octets with
    | some t => .ok t.unifyNewlines
    | none => .error .notUtf8

end FileSystem

/-- What a path leads to. -/
inductive EntryKind where
  | file
  | directory
deriving DecidableEq

/-- A file system as module lookup sees it. -/
structure FileView where
  /-- What a path leads to, if anything; not every path can be asked about. -/
  kind? : Path → Except Fault (Option EntryKind)
  readText : Path → Except ReadFault Text
  /-- The number of lists and records that can be open at once in a text that is read as JSON. -/
  nesting : Nat

namespace FileView

def isFile (view : FileView) (p : Path) : Except Fault Bool :=
  (view.kind? p).map (· = some .file)

def isDirectory (view : FileView) (p : Path) : Except Fault Bool :=
  (view.kind? p).map (· = some .directory)

end FileView

namespace FileSystem

def view (fs : FileSystem) : FileView where
  kind? p := (fs.lookAt p).map fun e => e.map fun e =>
    if e.isDirectory then .directory else .file
  readText := fs.readText
  nesting := fs.nesting

def isFile (fs : FileSystem) (p : Path) : Except Fault Bool :=
  fs.view.isFile p

def isDirectory (fs : FileSystem) (p : Path) : Except Fault Bool :=
  fs.view.isDirectory p

end FileSystem

end EnvReads
