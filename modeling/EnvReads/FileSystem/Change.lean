import EnvReads.FileSystem

/-!
# Changes of file systems

What has to be done to an old file system to get the files of a new one that extends it.
-/

namespace EnvReads

inductive Change where
  | makeDirectory (path : Path)
  | write (path : Path) (octets : List UInt8)

mutual

/-- The changes at a path where `old` was, if anything. -/
def Entry.changes (old : Option Entry) : Entry → Path → List Change
  | .file _ content, p =>
    match old with
    | some (.file _ before) =>
      if before.octets = content.octets then [] else [.write p content.octets]
    | _ => [.write p content.octets]
  | .directory _ _ entries, p =>
    match old with
    | some (.directory _ _ before) => Entry.changesOfAll before entries p
    | _ => .makeDirectory p :: Entry.changesOfAll [] entries p

/-- The changes in a directory that held `old`. -/
def Entry.changesOfAll (old : List Entry) : List Entry → Path → List Change
  | [], _ => []
  | e :: rest, p =>
    e.changes (Entry.find? old e.name) (p.child e.name) ++ Entry.changesOfAll old rest p

end

namespace FileSystem

def changes (old new : FileSystem) : List Change :=
  Entry.changesOfAll old.entries new.entries "/"

end FileSystem

end EnvReads
