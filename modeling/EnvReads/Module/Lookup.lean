import EnvReads.Fault
import EnvReads.FileSystem
import EnvReads.Value.JsonReader

/-!
# Module lookup

Which file a module specifier names, seen from the file that imports it. A path, relative or
absolute, is tried with the usual suffixes. A package is looked for in the `node_modules` of each
directory above the importer; the nearest one that has it decides.
-/

namespace EnvReads

namespace Module

/-- What is tried after the path of a module, in order. -/
def suffixes : List Text :=
  ["", ".js", ".jsx", ".mjs", ".cjs", ".json", "/index.js", "/index.jsx", "/index.mjs"]

/-- The paths that a module at `base` may have. -/
def candidates (base : Path) : List Path :=
  suffixes.map fun suffix => Path.ofText (base.toText ++ suffix)

/-- The first of several paths at which there is a file. -/
def firstFile (view : FileView) : List Path → Except Fault (Option Path)
  | [] => .ok none
  | p :: rest => do
    if ← view.isFile p then return some p else firstFile view rest

/-- The first file that a module at `base` may be. -/
def probe (view : FileView) (base : Path) : Except Fault (Option Path) :=
  firstFile view (candidates base)

/-- The entry that a package manifest names, if the manifest can be read and names one. -/
def manifestMain (view : FileView) (manifest : Path) : Except Fault (Option Text) :=
  match view.readText manifest with
  | .error _ => .ok none
  | .ok t =>
    match Json.read view.nesting t with
    | .error .malformed => .ok none
    | .error .tooDeep => .error .deepManifest
    | .ok (.record fields) =>
      .ok ((Fields.field? fields "main").bind fun v =>
        v.text?.bind fun t => if t.isEmpty then none else some t)
    | .ok _ => .error .manifest

/-- Where the manifest of a package is. -/
def manifest (package : Path) : Path :=
  package.child "package.json"

/-- The entry that the manifest of a package names, if there is one. -/
def mainOf (view : FileView) (package : Path) : Except Fault (Option Text) := do
  if ← view.isFile (manifest package) then manifestMain view (manifest package) else return none

/-- The file that stands for a package: the entry of its manifest, or its index. -/
def packageEntry (view : FileView) (package : Path) : Except Fault (Option Path) := do
  let main ← mainOf view package
  match ← main.elim (.ok none) fun t => probe view (package.join (Path.ofText t)).normalize with
  | some p => return some p
  | none => probe view package

/-- Whether a specifier is a path. -/
def isPath (specifier : Text) : Bool :=
  Text.startsWith "./" specifier || Text.startsWith "../" specifier || specifier = "." ||
    specifier = ".." || Text.startsWith "/" specifier

/-- Where a package would be in the `node_modules` of a directory. -/
def packageIn (specifier : Text) (dir : Path) : Path :=
  (dir.child "node_modules").join (Path.ofText specifier)

/-- Looks for a package in the `node_modules` of the given directories, in order. -/
def lookupPackage (view : FileView) (specifier : Text) : List Path → Except Fault (Option Path)
  | [] => .ok none
  | dir :: rest => do
    let package := packageIn specifier dir
    if ← view.isDirectory package then
      packageEntry view package
    else
      match ← probe view package with
      | some p => return some p
      | none => lookupPackage view specifier rest

/-- The file that a specifier names in the file `importer`. -/
def lookup (view : FileView) (specifier : Text) (importer : Path) :
    Except Fault (Option Path) :=
  if specifier.isEmpty then
    .ok none
  else if isPath specifier then
    probe view (importer.parent.join (Path.ofText specifier)).normalize
  else
    lookupPackage view specifier importer.ancestors

end Module

end EnvReads
