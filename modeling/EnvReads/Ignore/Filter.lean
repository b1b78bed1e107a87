import EnvReads.FileSystem
import EnvReads.Ignore.Matcher

/-!
# Ignore filters

The ignore files of a directory tree. The root's own file, or the default rules, and the ignore
files of the directories below it each judge paths relative to where they stand; a path is ignored
if one of them says so. Ignore files in ignored directories are not read, and neither are those in
directories that cannot be listed.
-/

namespace EnvReads

structure IgnoreFilter where
  root : Path
  rules : Text → Bool
  /-- The rules of directories below the root, in the order in which they were read. -/
  nested : List (Path × (Text → Bool))

namespace IgnoreFilter

def fileName : Text := ".gitignore"

/-- The rules where there is no ignore file. -/
def defaultLines : List Text :=
  ["node_modules/", "bower_components/", "jspm_packages/", ".git/", "dist/", "build/", "vendor/",
    "*.min.js", "coverage/", ".nyc_output/", ".next/", ".nuxt/", ".cache/"]

/-- A path as seen from the root; a relative path is taken to be so already. -/
def relative? (f : IgnoreFilter) (p : Path) : Option Path :=
  if p.isAbsolute then p.relativeTo? f.root else some p

/-- Whether the rules of one directory ignore a path. -/
def nestedIgnores (f : IgnoreFilter) (relative : Path) (ending : Text)
    (entry : Path × (Text → Bool)) : Bool :=
  ((entry.1.relativeTo? f.root).bind relative.relativeTo?).any fun p =>
    entry.2 (p.toText ++ ending)

/-- Whether some rules ignore a path with the given ending. -/
def judges (f : IgnoreFilter) (relative : Path) (ending : Text) : Bool :=
  f.rules (relative.toText ++ ending) || f.nested.any (f.nestedIgnores relative ending)

def ignores (f : IgnoreFilter) (p : Path) : Bool :=
  (f.relative? p).any (f.judges · [])

/-- Whether a directory is ignored with all below it. The root never is. -/
def ignoresDirectory (f : IgnoreFilter) (p : Path) : Bool :=
  (f.relative? p).any fun relative => relative != Path.here && f.judges relative "/"

/-- Reads the ignore file of a directory other than the root. One that cannot be read is passed
over. -/
def readIn (m : Matcher) (fs : FileSystem) (p : Path) (f : IgnoreFilter) :
    Except Fault IgnoreFilter :=
  if p = f.root then
    .ok f
  else
    match fs.readText (p.child fileName) with
    | .error _ => .ok f
    | .ok t => (m.compile t.lines).map fun rules => { f with nested := f.nested ++ [(p, rules)] }

mutual

/-- Reads the ignore files in and below a directory, passing over ignored directories and those that
cannot be listed. -/
def visit (m : Matcher) (fs : FileSystem) : Entry → Path → IgnoreFilter → Except Fault IgnoreFilter
  | .file .., _, f => .ok f
  | .directory _ _ entries, p, f =>
    if (fs.list p).isOk then do
      let f ← readIn m fs p f
      let inside := (Entry.named (visits m fs entries)).filter fun (name, isDirectory, _) =>
        isDirectory && !f.ignoresDirectory (p.child name)
      let ordered := inside.mergeSort fun a b => ¬b.1 < a.1
      ordered.foldlM (fun f (name, _, visit) => visit (p.child name) f) f
    else
      .ok f

/-- The entries of a directory by their names, whether they are directories, and what visiting them
does. -/
def visits (m : Matcher) (fs : FileSystem) :
    List Entry → List (Text × Bool × (Path → IgnoreFilter → Except Fault IgnoreFilter))
  | [] => []
  | e :: rest => (e.name, e.isDirectory, visit m fs e) :: visits m fs rest

end

/-- The lines that count in the root: those of its ignore file, if it can be read. -/
def rootLines (fs : FileSystem) (root : Path) : Except Fault (List Text) := do
  if ← fs.isFile (root.child fileName) then
    return (fs.readText (root.child fileName)).toOption.elim defaultLines Text.lines
  else
    return defaultLines

/-- The filter of the tree below `root`, with or without nested ignore files. -/
def load (m : Matcher) (fs : FileSystem) (root : Path) (nested : Bool) :
    Except Fault IgnoreFilter := do
  let rules ← m.compile (← rootLines fs root)
  let f : IgnoreFilter := ⟨root, rules, []⟩
  if nested then
    match fs.entry root with
    | .ok e => visit m fs e root f
    | .error _ => .ok f
  else
    .ok f

end IgnoreFilter

end EnvReads
