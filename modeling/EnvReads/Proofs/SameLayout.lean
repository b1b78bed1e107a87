import EnvReads.Proofs.LookupQuestions
import EnvReads.Proofs.Reading

/-!
# File systems with the same layout

Which file a module specifier names depends on where there are files and directories, and on package
manifests (`Module.lookup_congr`). Whether a tree can be dumped depends on the outline of the file
system: its directories, with empty files (`Resolver.result_dump_congr`).
-/

namespace EnvReads

/-! ## Lookup -/

namespace FileSystem

/-- At each path both file systems have a file, or a directory, or neither, and package manifests
have the same text and can be nested as deeply. -/
structure SameLayout (fs fs' : FileSystem) : Prop where
  isFile : ∀ p, fs.isFile p = fs'.isFile p
  isDirectory : ∀ p, fs.isDirectory p = fs'.isDirectory p
  manifest : ∀ dir, fs.readText (Module.manifest dir) = fs'.readText (Module.manifest dir)
  nesting : fs.nesting = fs'.nesting

end FileSystem

namespace Module

open FileSystem (SameLayout)

variable {fs fs' : FileSystem}

/-- Which file a specifier names depends on the layout only. -/
theorem lookup_congr (h : SameLayout fs fs') (specifier : Text) (importer : Path) :
    lookup fs.view specifier importer = lookup fs'.view specifier importer := by
  have kind (p : Path) : fs.view.kind? p = fs'.view.kind? p :=
    FileView.kind?_congr (h.isFile p) (h.isDirectory p)
  exact lookup_congr_of_asks (fun p _ => kind p) fun package _ =>
    mainOf_congr (kind _) (h.manifest package) h.nesting

end Module

/-! ## Changes -/

namespace Entry

mutual

/-- The entry with all files empty. -/
def outline : Entry → Entry
  | file name { permissions, .. } => file name { octets := [], permissions }
  | directory name permissions entries => directory name permissions (outlines entries)

def outlines : List Entry → List Entry
  | [] => []
  | e :: rest => e.outline :: outlines rest

end

theorem outlines_eq_map (entries : List Entry) : outlines entries = entries.map outline := by
  induction entries with
  | nil => rfl
  | cons e rest ih => rw [outlines, ih, List.map_cons]

/-- An outline keeps names. -/
@[simp] theorem name_outline (e : Entry) : e.outline.name = e.name := by
  cases e <;> rfl

@[simp] theorem permissions_outline (e : Entry) : e.outline.permissions = e.permissions := by
  cases e <;> rfl

/-- An outline keeps what is a directory. -/
@[simp] theorem isDirectory_outline (e : Entry) : e.outline.isDirectory = e.isDirectory := by
  cases e <;> rfl

/-- An outline lets the same paths through. -/
@[simp] theorem pass_outline (e : Entry) : e.outline.pass = e.pass := by
  cases e <;> rfl

theorem entries_outline (e : Entry) : e.outline.entries = e.entries.map outline := by
  cases e with
  | file name content => rfl
  | directory name permissions entries => exact outlines_eq_map entries

/-- An entry is found in an outline where it is found otherwise. -/
theorem find?_outlines (entries : List Entry) (name : Text) :
    find? (entries.map outline) name = (find? entries name).map outline := by
  rw [find?, find?, List.find?_map]
  simp only [Function.comp_def, name_outline]

theorem enter_outline (part : Text) (here : Entry) :
    enter part here.outline = (enter part here).map outline := by
  rw [enter, enter, pass_outline, entries_outline, find?_outlines]
  cases here.pass with
  | error fault => rfl
  | ok =>
      simp only [bind, Except.bind]
      split
      · rfl
      · cases find? here.entries part <;> rfl

/-- Paths lead to the same places in an outline. -/
theorem follow_outline (above : List Entry) (here : Entry) (parts : List Text) :
    follow (above.map outline) here.outline parts = (follow above here parts).map outline := by
  induction parts generalizing above here with
  | nil => rfl
  | cons part rest ih =>
      rw [follow, follow]
      split
      · rw [pass_outline]
        cases here.pass with
        | error fault => rfl
        | ok =>
            cases above with
            | nil => exact ih [] here
            | cons up more => exact ih more up
      · rw [enter_outline]
        cases enter part here with
        | error fault => rfl
        | ok e => exact ih (here :: above) e

/-- An entry can be put into a directory before or after the outline is taken. -/
theorem insert_outline (new : Entry) (entries : List Entry) :
    insert new.outline (entries.map outline) = (insert new entries).map outline := by
  induction entries with
  | nil => rfl
  | cons e rest ih =>
      simp only [List.map_cons, insert, name_outline]
      split
      · rfl
      · rw [ih, List.map_cons]

/-- So can one that is put further down. -/
theorem insertAt_outline (new : Entry) (parts : List Text) (entries : List Entry) :
    insertAt new.outline parts (entries.map outline) =
      (insertAt new parts entries).map outline := by
  induction parts generalizing entries with
  | nil => exact insert_outline new entries
  | cons part rest ih =>
      simp only [insertAt, List.map_map]
      refine List.map_congr_left fun e _ => ?_
      cases e with
      | file name content => rfl
      | directory name permissions below =>
          simp only [Function.comp_apply, outline, outlines_eq_map]
          split
          · rw [outline, outlines_eq_map, ih]
          · rw [outline, outlines_eq_map]

end Entry

namespace FileSystem

/-- The file system with all files empty. -/
def outline (fs : FileSystem) : FileSystem :=
  { fs with entries := fs.entries.map Entry.outline }

/-- What stands at a path in an outline is the outline of what stands there. -/
theorem entry_outline (fs : FileSystem) (p : Path) :
    fs.outline.entry p = (fs.entry p).map Entry.outline := by
  simp only [entry, bind, Except.bind]
  cases checkText p.toText with
  | error fault => rfl
  | ok =>
      have followed := Entry.follow_outline [] fs.root (fs.cwd.join p).parts
      rwa [root, Entry.outline, Entry.outlines_eq_map] at followed

theorem insert_outline (fs : FileSystem) (dir : Path) (new : Entry) :
    fs.outline.insert dir new.outline = (fs.insert dir new).outline := by
  simp only [insert, outline, Entry.insertAt_outline]

theorem directory_outline (fs : FileSystem) (p : Path) :
    fs.outline.directory p = (fs.directory p).map Entry.outline := by
  rw [directory, directory, entry_outline]
  cases fs.entry p with
  | error fault => rfl
  | ok e => cases e <;> rfl

/-- An entry can be created before or after the outline is taken. -/
theorem create_outline (fs : FileSystem) (p : Path) (new : Text → Entry) :
    fs.outline.create p (fun name => (new name).outline) = (fs.create p new).map outline := by
  rw [create, create, directory_outline]
  cases fs.directory p.parent with
  | error fault => rfl
  | ok dir =>
      simp only [Except.map, bind, Except.bind, Entry.permissions_outline, insert_outline]
      split <;> rfl

/-- How a file is written depends on the outline. -/
theorem write_outline (fs : FileSystem) (p : Path) (octets : List UInt8) :
    fs.outline.write p [] = (fs.write p octets).map outline := by
  rw [write, write, entry_outline]
  cases fs.entry p with
  | error fault =>
      simp only [Except.map]
      split
      · exact fs.create_outline p fun name => .file name { octets }
      · rfl
  | ok e =>
      cases e with
      | file name content =>
          simp only [Except.map, Entry.outline]
          split
          · exact congrArg Except.ok
              (fs.insert_outline p.parent (.file name { octets, permissions := _ }))
          · rfl
      | directory name permissions entries => rfl

/-- How a directory is made depends on the outline. -/
theorem make_outline (fs : FileSystem) (p : Path) :
    fs.outline.make p = (fs.make p).map outline := by
  rw [make, make, entry_outline]
  cases fs.entry p with
  | error fault =>
      simp only [Except.map]
      split
      · exact fs.create_outline p fun name => .folder name []
      · rfl
  | ok e => cases e <;> rfl

/-- The file systems have the same files and directories. -/
def SameOutline (fs fs' : FileSystem) : Prop :=
  fs.outline = fs'.outline

/-- What a file operation gives, and the outline of the file system that it leaves. -/
def observed {α : Type} : EStateM.Result FileFault FileSystem α → Except FileFault α × FileSystem
  | .ok a fs => (.ok a, fs.outline)
  | .error fault fs => (.error fault, fs.outline)

/-- A file operation whose outcome depends on the files and directories only. -/
def Outlined {α : Type} (operation : EStateM FileFault FileSystem α) : Prop :=
  ∀ fs fs', SameOutline fs fs' → observed (operation fs) = observed (operation fs')

/-- The outcome of two operations depends on the outline if those of both do. -/
theorem Outlined.bind {α β : Type} {m : EStateM FileFault FileSystem α}
    {f : α → EStateM FileFault FileSystem β} (h : Outlined m) (h' : ∀ a, Outlined (f a)) :
    Outlined (m >>= f) := by
  intro fs fs' same
  have first := h fs fs' same
  simp only [Bind.bind, EStateM.bind]
  cases run : m fs with
  | ok a gs =>
      cases run' : m fs' with
      | ok a' gs' =>
          simp only [run, run', observed, Prod.mk.injEq, Except.ok.injEq] at first
          obtain ⟨rfl, later⟩ := first
          exact h' a gs gs' later
      | error fault gs' => simp [run, run', observed] at first
  | error fault gs =>
      cases run' : m fs' with
      | ok a' gs' => simp [run, run', observed] at first
      | error fault' gs' =>
          simp only [run, run', observed, Prod.mk.injEq, Except.error.injEq] at first ⊢
          exact first

/-- A change whose outcome depends on the outline. -/
theorem outlined_change {f g : FileSystem → Except FileFault FileSystem}
    (h : ∀ fs, (f fs).map outline = g fs.outline) : Outlined (change f) := by
  intro fs fs' same
  have alike : (f fs).map outline = (f fs').map outline := by rw [h, h, same]
  simp only [change, Bind.bind, EStateM.bind, get_eq]
  cases changed : f fs with
  | error fault =>
      cases changed' : f fs' with
      | error fault' =>
          rw [changed, changed'] at alike
          cases alike
          exact congrArg (Prod.mk (Except.error fault)) same
      | ok gs' =>
          rw [changed, changed'] at alike
          cases alike
  | ok gs =>
      cases changed' : f fs' with
      | error fault' =>
          rw [changed, changed'] at alike
          cases alike
      | ok gs' =>
          rw [changed, changed'] at alike
          exact congrArg (Prod.mk (Except.ok ())) (Except.ok.inj alike)

/-- Whether a file can be written does not depend on what is in files. -/
theorem outlined_put (p : Path) (octets : List UInt8) : Outlined (put p octets) :=
  outlined_change (g := (·.write p [])) fun fs => (fs.write_outline p octets).symm

/-- Whether directories can be made does not depend on what is in files. -/
theorem outlined_makeEach (paths : List Path) : Outlined (makeEach paths) := by
  induction paths with
  | nil =>
      intro fs fs' same
      exact congrArg (Prod.mk (Except.ok ())) same
  | cons p rest ih =>
      have first : Outlined (change (·.make p)) :=
        outlined_change (g := (·.make p)) fun fs => (fs.make_outline p).symm
      exact first.bind fun _ => ih

end FileSystem

namespace Run

/-- What a file operation gives in a session. -/
theorem result_withFiles {α : Type} (operation : EStateM FileFault FileSystem α) (s : Session) :
    (withFiles operation).result s = .ok (FileSystem.observed (operation s.files)).1 := by
  simp only [withFiles, result, Bind.bind, EStateM.bind, get_eq, EStateM.run]
  cases operation s.files <;> rfl

end Run

/-- What comes of writing a tree: a fault before the operating system is asked, or, once there is a
file, a piece of the tree that cannot be written. -/
theorem Resolver.result_dump (dir : Path) (unit : SourceUnit) (s : Session) :
    (dump dir unit).result s =
      match (FileSystem.observed (prepareDump dir unit s.files)).1 with
      | .error fault => fault.fatal?.elim (.ok ()) .error
      | .ok () => (Json.emit (Json.chunks 0 unit.tree.toValue)).2 := by
  rw [dump, Run.result_bind, Run.result_withFiles]
  cases (FileSystem.observed (prepareDump dir unit s.files)).1 with
  | error fault =>
      dsimp only [bind, Except.bind]
      cases fault.fatal? <;> rfl
  | ok =>
      change Run.result (_ >>= fun _ => Fault.raise _) _ = _
      rw [Run.result_bind, Run.result_discard, Run.result_withFiles, Run.result_raise]
      rfl

/-- Whether a tree can be written depends on the files and directories only. -/
theorem Resolver.result_dump_congr {s t : Session} (same : s.files.SameOutline t.files) (dir : Path)
    (unit : SourceUnit) : (dump dir unit).result s = (dump dir unit).result t := by
  have prepared : FileSystem.Outlined (prepareDump dir unit) :=
    (FileSystem.outlined_makeEach _).bind fun _ => FileSystem.outlined_put _ []
  rw [result_dump, result_dump, prepared s.files t.files same]

end EnvReads
