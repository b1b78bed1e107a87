import EnvReads.Ignore.Filter
import EnvReads.Ignore.Rules
import EnvReads.Text.Lower

/-!
# Source listings

The source files below a directory: those with one of the wanted suffixes, without what the ignore
files rule out. Directories are listed by name, and ignored ones are not entered. A directory that
cannot be listed and an entry that cannot be looked at are passed over.
-/

namespace EnvReads

mutual

/-- The files in and below an entry at the given path, without entering the directories that
`prune` names. -/
def Entry.files (fs : FileSystem) (prune : Path → Bool) : Entry → Path → List Path
  | .file .., p => [p]
  | .directory _ _ entries, p =>
    if (fs.list p).isOk then
      ((named (listings fs prune entries)).mergeSort fun a b => ¬b.1 < a.1).flatMap
        fun (name, listing) => if (fs.entry (p.child name)).isOk then listing (p.child name) else []
    else
      []

/-- What each of several entries contributes, by its name. -/
def Entry.listings (fs : FileSystem) (prune : Path → Bool) :
    List Entry → List (Text × (Path → List Path))
  | [] => []
  | e :: rest =>
    let listing p := if e.isDirectory && prune p then [] else Entry.files fs prune e p
    (e.name, listing) :: listings fs prune rest

end

/-- Which files are source files, and whether ignore files count. -/
structure Selection where
  extensions : List Text := [".js", ".jsx", ".mjs"]
  respectIgnore : Bool := true
  /-- What ignore files are read with. -/
  matcher : Matcher := .standard

namespace Selection

def hasExtension (s : Selection) (p : Path) : Bool :=
  (s.extensions.map Text.lower).contains p.suffix.lower

/-- The filter of a tree; none if ignore files do not count. -/
def filter? (s : Selection) (fs : FileSystem) (root : Path) :
    Except Fault (Option IgnoreFilter) :=
  if s.respectIgnore then (IgnoreFilter.load s.matcher fs root true).map some else .ok none

/-- The files below a root in tree order; there are none if the root is no directory. -/
def walk (fs : FileSystem) (filter : Option IgnoreFilter) (root : Path) : List Path :=
  match fs.entry root with
  | .ok (.directory name permissions entries) =>
    Entry.files fs (fun p => filter.any (·.ignoresDirectory p))
      (.directory name permissions entries)
      root
  | _ => []

def accepts (s : Selection) (filter : Option IgnoreFilter) (p : Path) : Bool :=
  s.hasExtension p && !filter.any (·.ignores p)

/-- The source files below a root, in the order of their paths. -/
def list (s : Selection) (fs : FileSystem) (root : Path) : Except Fault (List Path) := do
  let root := Path.resolve fs.cwd root
  let filter ← s.filter? fs root
  return ((walk fs filter root).filter (s.accepts filter)).mergeSort Path.le

end Selection

end EnvReads
