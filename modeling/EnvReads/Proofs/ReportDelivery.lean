import EnvReads.CommandLine
import EnvReads.Proofs.FileWriting
import EnvReads.Proofs.Reading
import EnvReads.Proofs.Sample
import EnvReads.Proofs.ScanDecomposition

/-!
# Delivery of reports

What a scan leaves in the file that its report goes to. The file is opened, and so emptied, before
the report is made, and the report may have no text, or a text that is not Unicode: a name that was
spelled with an escape may hold a surrogate. Such a run ends with a fault and an empty file. In all
other runs the file holds the whole report or what it held before (`ScanOptions.AllOrNothing`),
unless the trees for the debug directory are written over it. Runs that end before they come to
their report, for instance since what they say cannot be shown, leave the file alone.
-/

namespace EnvReads

/-- The file system that a computation leaves, however it ends. -/
def FileSystem.left {ε α : Type} : EStateM.Result ε FileSystem α → FileSystem
  | .ok _ fs => fs
  | .error _ fs => fs

namespace FileSystem

variable {α β : Type}

/-- What two steps leave alone, the one after the other leaves alone too. -/
theorem left_bind {ε : Type} {m : EStateM ε FileSystem α} {f : α → EStateM ε FileSystem β}
    (first : ∀ fs, left (m fs) = fs) (later : ∀ a fs, left (f a fs) = fs) (fs : FileSystem) :
    left ((m >>= f) fs) = fs := by
  have first := first fs
  simp only [Bind.bind, EStateM.bind]
  cases run : m fs with
  | ok a between =>
      rw [run] at first
      exact (later a between).trans first
  | error fault between =>
      rw [run] at first
      exact first

theorem left_raise (e : Except Fault α) (fs : FileSystem) : left (Fault.raise e fs) = fs := by
  cases e <;> rfl

end FileSystem

open FileSystem (left)

/-! ## What a scan leaves -/

namespace ScanConfig

variable {config : ScanConfig}

/-- Listing the files changes nothing. -/
theorem listFiles_eq_ok_iff {root : Path} {fs fs' : FileSystem} {paths : List Path} :
    config.listFiles root fs = .ok paths fs' ↔
      config.selection.list fs root = .ok paths ∧ fs = fs' :=
  raise_apply_eq_ok_iff

/-- A file that does not load changes nothing, also when it ends the run. -/
theorem after_scanFile_of_error {path : Path} {s : Session} {fault : LoadFault}
    (load : SourceUnit.load s.files path = .error fault) :
    (config.scanFile path).after s = s := by
  simp only [Run.after, scanFile, bind, EStateM.bind, get_eq, load]
  cases fault with
  | parse fault => cases fault <;> rfl
  | read fault =>
      cases fault with
      | notUtf8 => rfl
      | file fault =>
          simp only
          cases fault.fatal? <;> rfl

section

variable (debug : config.debugDir = none)
include debug

/-- Without a debug directory nothing is written while a file is analyzed. -/
theorem files_after_scanFile (path : Path) (s : Session) :
    ((config.scanFile path).after s).files = s.files := by
  cases load : SourceUnit.load s.files path with
  | error fault => rw [after_scanFile_of_error load]
  | ok unit =>
      have analyzed : Run.Reads (config.resolver.analyze unit >>= fun records =>
          pure (.analyzed records) : Run FileOutcome) :=
        (Resolver.reads_analyze unit debug).bind fun _ => Run.Reads.pure _
      have kept := (analyzed.alike
        { s with modules := s.modules.insert unit.path (some unit) }).files
      rw [Run.after, ← scanFile_of_load load] at kept
      exact kept

/-- Scanning the files changes no file. -/
theorem files_after_scanEach (paths : List Path) (s : Session) :
    ((config.scanEach paths).after s).files = s.files := by
  induction paths generalizing s with
  | nil => rfl
  | cons path rest ih =>
      have first := files_after_scanFile debug path s
      rw [scanEach, Run.after_bind]
      cases (config.scanFile path).result s with
      | error fault => exact first
      | ok outcome =>
          have later := (ih ((config.scanFile path).after s)).trans first
          change (Run.after (config.scanEach rest >>= _) _).files = _
          rw [Run.after_bind]
          cases (config.scanEach rest).result ((config.scanFile path).after s) <;> exact later

/-- Neither does the scan as a whole. -/
theorem left_scanFiles (root : Path) (paths : List Path) (fs : FileSystem) :
    left (config.scanFiles root paths fs) = fs := by
  have kept := files_after_scanEach debug paths ⟨fs, Cache.empty⟩
  rw [Run.after] at kept
  simp only [scanFiles, EStateM.run]
  cases each : config.scanEach paths ⟨fs, Cache.empty⟩ with
  | error fault session =>
      rw [each] at kept
      exact kept
  | ok outcomes session =>
      rw [each] at kept
      simp only
      cases ScanResult.ofOutcomes (Path.resolve fs.cwd root) outcomes <;> exact kept

end

end ScanConfig

/-! ## What becomes of the file -/

/-- What is in the file with the path that a text spells, whether or not it may be read. -/
def FileSystem.held (fs : FileSystem) (t : Text) : Except FileFault (List UInt8) :=
  match fs.entry (Path.ofText t) with
  | .ok (.file _ content) => .ok content.octets
  | .ok (.directory ..) => .error .isADirectory
  | .error fault => .error fault

/-- The directory that a target means. -/
def FileSystem.place (fs : FileSystem) (target : Text) : Path :=
  Path.resolve fs.cwd (Path.ofText target)

/-- The octets of the report of a scan, a final newline with them, if there is a report and it is
Unicode text. -/
def ScanResult.octets? (r : ScanResult) (relativePaths : Bool) : Option (List UInt8) := do
  let t ← (r.json relativePaths).toOption
  Utf8.encode? (Output.line t)

/-- A file that was written holds what was written. -/
theorem FileSystem.held_of_writeAt {fs fs' : FileSystem} {t : Text} {octets : List UInt8}
    (h : fs.writeAt t octets = .ok fs') : fs'.held t = .ok octets := by
  obtain ⟨name, content, found, rfl, -⟩ := entry_of_writeAt h
  rw [held, found]

namespace Output

/-- The ends of a command that leave the given file system and are not good ones. -/
inductive Failed (fs : FileSystem) : EStateM.Result Fault FileSystem Output → Prop
  | fault (fault : Fault) : Failed fs (.error fault fs)
  | exit {o : Output} (h : o.exitCode ≠ 0) : Failed fs (.ok o fs)

variable {fs : FileSystem} {console : Console} {o o' : Output}

theorem Failed.left_eq {r : EStateM.Result Fault FileSystem Output} (h : Failed fs r) :
    left r = fs := by
  cases h <;> rfl

/-- Showing a text does not change the exit code. -/
theorem exitCode_say {t : Text} (h : o.say console t = .ok o') : o'.exitCode = o.exitCode := by
  obtain ⟨shown, -, rfl⟩ := Except.map_eq_ok_iff.mp h
  rfl

/-- What is said does not change how a command ends. -/
theorem exitCode_sayAll {said : List Text} (h : o.sayAll console said = .ok o') :
    o'.exitCode = o.exitCode := by
  induction said generalizing o with
  | nil =>
      cases h
      rfl
  | cons t rest ih =>
      obtain ⟨next, first, later⟩ := Except.bind_eq_ok_iff.mp h
      exact (ih later).trans (exitCode_say first)

/-- A command that fails does not end well, whether or not its message can be shown. -/
theorem failed_raise_fail {code : Nat} {t : Text} (bad : code ≠ 0) :
    Failed fs (Fault.raise (o.fail console code t) fs) := by
  rw [fail]
  cases o.say console ("[red]Error:[/red] " ++ t) with
  | error fault => exact .fault fault
  | ok said => exact .exit bad

end Output

namespace Destination

variable {console : Console} {fs emptied : FileSystem} {path : Text} {report : Except Fault Text}
  {o : Output}

/-- A file that cannot be opened is left alone, and the run does not end well. -/
theorem deliver_of_unopened {fault : FileFault} (unopened : fs.writeAt path [] = .error fault) :
    Output.Failed fs ((file path).deliver console report o fs) := by
  simp only [deliver, writeReport, bind, EStateM.bind, get_eq, unopened]
  cases fault.fatal? with
  | some fatal => exact .fault fatal
  | none => exact Output.failed_raise_fail Nat.one_ne_zero

/-- A report that cannot be written has emptied the file. -/
theorem deliver_of_unwritable (opened : fs.writeAt path [] = .ok emptied)
    (unwritable : report.toOption.bind Utf8.encode? = none) :
    Output.Failed emptied ((file path).deliver console report o fs) := by
  simp only [deliver, writeReport, bind, EStateM.bind, get_eq, opened]
  cases report with
  | error fault => exact .fault fault
  | ok t =>
      have encoded : Utf8.encode? t = none := unwritable
      simp only [Fault.raise, encoded, set_eq, pure, EStateM.pure]
      exact .fault .unencodable

/-- A report that can be written is written as a whole: what could be opened can be opened again. -/
theorem deliver_of_writable (opened : fs.writeAt path [] = .ok emptied) {octets : List UInt8}
    (writable : report.toOption.bind Utf8.encode? = some octets) :
    ∃ written, (file path).deliver console report o fs = .ok o written ∧
      written.held path = .ok octets := by
  obtain ⟨written, again⟩ := FileSystem.exists_writeAt_again opened octets
  refine ⟨written, ?_, FileSystem.held_of_writeAt again⟩
  cases report with
  | error fault => cases writable
  | ok t =>
      have encoded : Utf8.encode? t = some octets := writable
      simp [deliver, writeReport, bind, EStateM.bind, get_eq, opened, Fault.raise, encoded, again,
        set_eq, pure, EStateM.pure]

end Destination

namespace ScanOptions

variable {lib : Libraries} {options : ScanOptions} {target : Text} {fs : FileSystem}

/-- A run that comes to its scan: the format is known and the target is a directory. -/
def Begins (options : ScanOptions) (target : Text) (fs : FileSystem) : Prop :=
  options.format = "json" ∧ checkTarget target = .ok () ∧
    fs.isDirectory (fs.place target) = .ok true

/-- A run that ends well, with the report of its scan and nothing else in the file. -/
def Delivers (lib : Libraries) (options : ScanOptions) (target : Text) (fs : FileSystem) : Prop :=
  ∃ o fs' result between octets, options.run lib target fs = .ok o fs' ∧ o.exitCode = 0 ∧
    (options.config lib.matcher).scan (fs.place target) fs = .ok result between ∧
    result.octets? (!options.absolutePaths) = some octets ∧
    fs'.held options.output = .ok octets

/-- A run that delivers its report or leaves the file as it was. -/
def AllOrNothing (lib : Libraries) (options : ScanOptions) (target : Text) (fs : FileSystem) :
    Prop :=
  options.Delivers lib target fs ∨
    (left (options.run lib target fs)).held options.output = fs.held options.output

theorem run_of_begins (h : options.Begins target fs) :
    options.run lib target fs = options.runIn lib (fs.place target) fs := by
  obtain ⟨format, checked, directory⟩ := h
  have contained : fs.contains (fs.place target) = .ok true := by
    obtain ⟨e, found, -⟩ := FileSystem.isDirectory_eq_true_iff.mp directory
    simp only [FileSystem.contains, FileSystem.lookAt, found]
    rfl
  rw [FileSystem.place] at contained directory ⊢
  simp [run, bind, EStateM.bind, get_eq, format, checked, contained, directory, Fault.raise, pure,
    EStateM.pure]

/-- A run that does not come to its scan touches nothing, and does not end well. -/
theorem run_of_not_begins (h : ¬options.Begins target fs) :
    Output.Failed fs (options.run lib target fs) := by
  rw [Begins, FileSystem.place] at h
  simp only [run, bind, EStateM.bind, get_eq]
  by_cases format : options.format = "json"
  · rw [if_neg (not_not_intro format)]
    cases checked : checkTarget target with
    | error fault => exact .fault fault
    | ok =>
        cases contained : fs.contains (Path.resolve fs.cwd (Path.ofText target)) with
        | error fault => exact .fault fault
        | ok there =>
            cases there with
            | false => exact Output.failed_raise_fail Nat.one_ne_zero
            | true =>
                cases directory : fs.isDirectory (Path.resolve fs.cwd (Path.ofText target)) with
                | error fault => exact .fault fault
                | ok there =>
                    cases there with
                    | false => exact Output.failed_raise_fail Nat.one_ne_zero
                    | true => exact absurd ⟨format, checked, directory⟩ h
  · rw [if_pos format]
    exact Output.failed_raise_fail (Nat.succ_ne_zero 1)

/-- What comes before a report is a scan that ends well, and nothing that is said fails. -/
theorem prepare_eq_ok_iff {root : Path} {result : ScanResult} {o : Output}
    {between : FileSystem} : options.prepare lib root fs = .ok (result, o) between ↔
      ∃ paths said, (options.config lib.matcher).selection.list fs root = .ok paths ∧
        options.announce lib.console paths = .ok said ∧
        (options.config lib.matcher).scanFiles root paths fs = .ok result between ∧
        options.comment lib.console result said = .ok o := by
  simp only [prepare, bind_apply_eq_ok_iff, raise_apply_eq_ok_iff, ScanConfig.listFiles_eq_ok_iff]
  constructor
  · rintro ⟨paths, _, ⟨listed, rfl⟩, said, _, ⟨announced, rfl⟩, _, _, scanned, _, _,
      ⟨commented, rfl⟩, ⟨⟩⟩
    exact ⟨paths, said, listed, announced, scanned, commented⟩
  · rintro ⟨paths, said, listed, announced, scanned, commented⟩
    exact ⟨paths, fs, ⟨listed, rfl⟩, said, fs, ⟨announced, rfl⟩, result, between, scanned, o,
      between, ⟨commented, rfl⟩, rfl⟩

/-- What is prepared is the result of the scan. -/
theorem scan_of_prepare {root : Path} {result : ScanResult} {o : Output} {between : FileSystem}
    (h : options.prepare lib root fs = .ok (result, o) between) :
    (options.config lib.matcher).scan root fs = .ok result between := by
  obtain ⟨paths, said, listed, -, scanned, -⟩ := prepare_eq_ok_iff.mp h
  exact bind_apply_eq_ok_iff.mpr
    ⟨paths, fs, ScanConfig.listFiles_eq_ok_iff.mpr ⟨listed, rfl⟩, scanned⟩

/-- When the result is there, nothing has failed. -/
theorem exitCode_of_prepare {root : Path} {result : ScanResult} {o : Output} {between : FileSystem}
    (h : options.prepare lib root fs = .ok (result, o) between) : o.exitCode = 0 := by
  obtain ⟨paths, said, -, announced, -, commented⟩ := prepare_eq_ok_iff.mp h
  obtain ⟨progress, -, commented⟩ := Except.bind_eq_ok_iff.mp commented
  exact (Output.exitCode_sayAll commented).trans (Output.exitCode_sayAll announced)

/-- Without a debug directory nothing is written before the report. -/
theorem left_prepare (debug : options.debugDir = none) (root : Path) :
    left (options.prepare lib root fs) = fs := by
  have debug' : (options.config lib.matcher).debugDir = none := by
    rw [config, debug]
    rfl
  refine FileSystem.left_bind (fun fs => ?_) (fun paths => ?_) fs
  · exact FileSystem.left_raise _ fs
  · refine FileSystem.left_bind (FileSystem.left_raise _) fun said => ?_
    refine FileSystem.left_bind (ScanConfig.left_scanFiles debug' root paths) fun result => ?_
    exact FileSystem.left_bind (FileSystem.left_raise _) fun o fs => rfl

theorem runIn_of_error {root : Path} {fault : Fault} {between : FileSystem}
    (h : options.prepare lib root fs = .error fault between) :
    options.runIn lib root fs = .error fault between := by
  simp only [runIn, bind, EStateM.bind, h]

theorem runIn_of_ok {root : Path} {result : ScanResult} {o : Output} {between : FileSystem}
    (h : options.prepare lib root fs = .ok (result, o) between) :
    options.runIn lib root fs = (Destination.ofText options.output).deliver lib.console
      ((result.json !options.absolutePaths).map Output.line) o between := by
  simp only [runIn, bind, EStateM.bind, h]

theorem toOption_line (e : Except Fault Text) :
    (e.map Output.line).toOption.bind Utf8.encode? =
      e.toOption.bind fun t => Utf8.encode? (Output.line t) := by
  cases e <;> rfl

/-- A run that failed delivers nothing. -/
theorem not_delivers_of_failed {fs' : FileSystem}
    (h : Output.Failed fs' (options.run lib target fs)) : ¬options.Delivers lib target fs := by
  rintro ⟨o, fs'', _, _, _, run, well, -⟩
  rw [run] at h
  cases h with
  | exit bad => exact bad well

/-- A run that fails is all or nothing if the file is what it was. -/
theorem allOrNothing_iff_of_failed {fs' : FileSystem}
    (h : Output.Failed fs' (options.run lib target fs)) :
    options.AllOrNothing lib target fs ↔ fs'.held options.output = fs.held options.output := by
  rw [AllOrNothing, h.left_eq]
  exact or_iff_right (not_delivers_of_failed h)

section

variable (toFile : Destination.ofText options.output = .file options.output)
  (begins : options.Begins target fs) {result : ScanResult} {o : Output} {between : FileSystem}
  (prepared : options.prepare lib (fs.place target) fs = .ok (result, o) between)
include toFile begins prepared

/-- A file that cannot be opened makes the run fail, with everything as it was. -/
theorem failed_of_unopened {fault : FileFault}
    (unopened : between.writeAt options.output [] = .error fault) :
    Output.Failed between (options.run lib target fs) := by
  rw [run_of_begins begins, runIn_of_ok prepared, toFile]
  exact Destination.deliver_of_unopened unopened

/-- A report that cannot be written makes the run fail, with the file emptied. -/
theorem failed_of_unwritable {emptied : FileSystem}
    (opened : between.writeAt options.output [] = .ok emptied)
    (unwritable : result.octets? (!options.absolutePaths) = none) :
    Output.Failed emptied (options.run lib target fs) := by
  rw [run_of_begins begins, runIn_of_ok prepared, toFile]
  exact Destination.deliver_of_unwritable opened ((toOption_line _).trans unwritable)

/-- A report that can be written is delivered. -/
theorem delivers_of_writable {emptied : FileSystem}
    (opened : between.writeAt options.output [] = .ok emptied) {octets : List UInt8}
    (writable : result.octets? (!options.absolutePaths) = some octets) :
    options.Delivers lib target fs := by
  obtain ⟨written, given, holds⟩ : ∃ written,
      (Destination.file options.output).deliver lib.console
        ((result.json !options.absolutePaths).map Output.line) o between = .ok o written ∧
      written.held options.output = .ok octets :=
    Destination.deliver_of_writable opened ((toOption_line _).trans writable)
  have ran := runIn_of_ok prepared
  rw [toFile, given, ← run_of_begins begins] at ran
  exact ⟨o, written, result, between, octets, ran, exitCode_of_prepare prepared,
    scan_of_prepare prepared, writable, holds⟩

end

/-- The runs after which the file is not spoiled: where no report gets into it, the trees for the
debug directory have left it alone; where it can be opened, the report can be written, or there was
nothing in the file to be lost. -/
def Spares (lib : Libraries) (options : ScanOptions) (target : Text) (fs : FileSystem) : Prop :=
  match options.prepare lib (fs.place target) fs with
  | .error _ between => between.held options.output = fs.held options.output
  | .ok (result, _) between =>
    match between.writeAt options.output [] with
    | .error _ => between.held options.output = fs.held options.output
    | .ok _ =>
      (result.octets? (!options.absolutePaths)).isSome ∨ fs.held options.output = .ok []

section

variable (toFile : Destination.ofText options.output = .file options.output)
include toFile

/-- A run delivers its report if the file can be opened and the report can be written. -/
theorem delivers_iff : options.Delivers lib target fs ↔ options.Begins target fs ∧
    ∃ result o between, options.prepare lib (fs.place target) fs = .ok (result, o) between ∧
      (between.writeAt options.output []).isOk ∧
      (result.octets? (!options.absolutePaths)).isSome := by
  constructor
  · intro delivers
    have begins : options.Begins target fs := by
      by_contra h
      exact not_delivers_of_failed (run_of_not_begins h) delivers
    refine ⟨begins, ?_⟩
    cases prepared : options.prepare lib (fs.place target) fs with
    | error fault between =>
        have failed : Output.Failed between (options.run lib target fs) := by
          rw [run_of_begins begins, runIn_of_error prepared]
          exact .fault fault
        exact absurd delivers (not_delivers_of_failed failed)
    | ok made between =>
        obtain ⟨result, o⟩ := made
        refine ⟨result, o, between, rfl, ?_⟩
        cases opened : between.writeAt options.output [] with
        | error fault =>
            exact absurd delivers (not_delivers_of_failed
              (failed_of_unopened toFile begins prepared opened))
        | ok emptied =>
            refine ⟨rfl, ?_⟩
            cases writable : result.octets? (!options.absolutePaths) with
            | some octets => rfl
            | none =>
                exact absurd delivers (not_delivers_of_failed
                  (failed_of_unwritable toFile begins prepared opened writable))
  · rintro ⟨begins, result, o, between, prepared, opened, writable⟩
    obtain ⟨octets, writable⟩ := Option.isSome_iff_exists.mp writable
    obtain ⟨emptied, opened⟩ := Except.isOk_iff.mp opened
    exact delivers_of_writable toFile begins prepared opened writable

/-- A run that comes to its scan is all or nothing if it does not spoil the file. -/
theorem allOrNothing_iff_spares (begins : options.Begins target fs) :
    options.AllOrNothing lib target fs ↔ options.Spares lib target fs := by
  rw [Spares]
  cases prepared : options.prepare lib (fs.place target) fs with
  | error fault between =>
      have ended := (run_of_begins begins).trans (runIn_of_error prepared)
      exact allOrNothing_iff_of_failed (ended ▸ .fault fault)
  | ok made between =>
      obtain ⟨result, o⟩ := made
      simp only
      cases opened : between.writeAt options.output [] with
      | error fault =>
          exact allOrNothing_iff_of_failed (failed_of_unopened toFile begins prepared opened)
      | ok emptied =>
          cases writable : result.octets? (!options.absolutePaths) with
          | some octets =>
              refine iff_of_true (.inl ?_) (.inl rfl)
              exact delivers_of_writable toFile begins prepared opened writable
          | none =>
              rw [allOrNothing_iff_of_failed
                (failed_of_unwritable toFile begins prepared opened writable),
                FileSystem.held_of_writeAt opened]
              simp [eq_comm]

end

/-- Without a debug directory only the last reason is left. -/
theorem spares_iff (debug : options.debugDir = none) : options.Spares lib target fs ↔
    ∀ result o, options.prepare lib (fs.place target) fs = .ok (result, o) fs →
      (fs.writeAt options.output []).isOk →
      (result.octets? (!options.absolutePaths)).isSome ∨ fs.held options.output = .ok [] := by
  have kept : left (options.prepare lib (fs.place target) fs) = fs :=
    left_prepare debug (fs.place target)
  rw [Spares]
  cases prepared : options.prepare lib (fs.place target) fs with
  | error fault between =>
      obtain rfl : between = fs := by rwa [prepared] at kept
      simp
  | ok made between =>
      obtain rfl : between = fs := by rwa [prepared] at kept
      obtain ⟨result, o⟩ := made
      simp only
      cases between.writeAt options.output [] <;> simp

/-- When the report of a run is delivered to its file, and when the run is all or nothing. Without a
debug directory it is not if, and only if, the scan ends well and all that is said before the report
can be shown, the file can be opened and is not empty, and the report has no text or one with a
surrogate. -/
theorem allOrNothing_iff_writable (lib : Libraries) (options : ScanOptions) (target : Text)
    (fs : FileSystem) (toFile : Destination.ofText options.output = .file options.output) :
    (options.Delivers lib target fs ↔ options.Begins target fs ∧
      ∃ result o between, options.prepare lib (fs.place target) fs = .ok (result, o) between ∧
        (between.writeAt options.output []).isOk ∧
        (result.octets? (!options.absolutePaths)).isSome) ∧
    (options.AllOrNothing lib target fs ↔
      (options.Begins target fs → options.Spares lib target fs)) ∧
    (options.debugDir = none → (options.AllOrNothing lib target fs ↔
      (options.Begins target fs → ∀ result o,
        options.prepare lib (fs.place target) fs = .ok (result, o) fs →
        (fs.writeAt options.output []).isOk →
        (result.octets? (!options.absolutePaths)).isSome ∨ fs.held options.output = .ok []))) ∧
    ∀ result o between, options.prepare lib (fs.place target) fs = .ok (result, o) between ↔
      ∃ paths said, (options.config lib.matcher).selection.list fs (fs.place target) = .ok paths ∧
        options.announce lib.console paths = .ok said ∧
        (options.config lib.matcher).scanFiles (fs.place target) paths fs = .ok result between ∧
        options.comment lib.console result said = .ok o := by
  have exact_iff : options.AllOrNothing lib target fs ↔
      (options.Begins target fs → options.Spares lib target fs) := by
    by_cases begins : options.Begins target fs
    · rw [allOrNothing_iff_spares toFile begins]
      exact ⟨fun spares _ => spares, fun spares => spares begins⟩
    · refine iff_of_true ?_ (absurd · begins)
      exact (allOrNothing_iff_of_failed (run_of_not_begins begins)).mpr rfl
  refine ⟨delivers_iff toFile, exact_iff, fun debug => ?_, fun result o between =>
    prepare_eq_ok_iff⟩
  rw [exact_iff, spares_iff debug]

end ScanOptions

namespace Sample

/-- A source that reads one variable, and the report of an earlier scan. -/
def reported (key : Text) : FileSystem where
  entries := [
    .folder "app" [.file "a.js" {
      octets := []
      parsed := .estree (program [statement (entry processEnv (text key))]).toValue }],
    .file "out.json" { octets := [91, 93, 10] }]
  cwd := "/"

def reporting : ScanOptions where
  output := "out.json"

/-- A name that cannot be written as Unicode text. -/
def surrogate : Text :=
  [⟨0xD800, by decide⟩]

theorem reporting_toFile : Destination.ofText reporting.output = .file reporting.output :=
  rfl

theorem begins_reported (key : Text) : reporting.Begins "app" (reported key) :=
  ⟨rfl, by decide +kernel, rfl⟩

/-- Whether the report of a scan can be written, if the scan ends well. -/
def isWritable? (key : Text) : Option Bool :=
  ((reporting.prepare {} ((reported key).place "app")).run' (reported key)).map fun made =>
    (made.1.octets? (!reporting.absolutePaths)).isSome

/-- What evaluation says about the report of the scan. -/
theorem exists_prepare_of_isWritable? {key : Text} {b : Bool} (h : isWritable? key = some b) :
    ∃ result o, reporting.prepare {} ((reported key).place "app") (reported key) =
        .ok (result, o) (reported key) ∧
      (result.octets? (!reporting.absolutePaths)).isSome = b := by
  obtain ⟨⟨result, o⟩, run, given⟩ := Option.map_eq_some_iff.mp h
  obtain ⟨between, prepared⟩ := run'_eq_some_iff.mp run
  have kept : left (reporting.prepare {} ((reported key).place "app") (reported key)) =
      reported key := ScanOptions.left_prepare rfl _
  rw [prepared] at kept
  obtain rfl : between = reported key := kept
  exact ⟨result, o, prepared, given⟩

/-- What the earlier scan has left is lost if the scan finds a name with a surrogate. -/
theorem exists_prepare_surrogate : ∃ result o,
    reporting.prepare {} ((reported surrogate).place "app") (reported surrogate) =
        .ok (result, o) (reported surrogate) ∧
      ((reported surrogate).writeAt reporting.output []).isOk ∧
      ¬((result.octets? (!reporting.absolutePaths)).isSome ∨
        (reported surrogate).held reporting.output = .ok []) := by
  have unwritable : isWritable? surrogate = some false := by decide +kernel
  obtain ⟨result, o, prepared, missing⟩ := exists_prepare_of_isWritable? unwritable
  have holds : (reported surrogate).held reporting.output = .ok [91, 93, 10] := by rfl
  refine ⟨result, o, prepared, by decide +kernel, ?_⟩
  rw [missing, holds]
  rintro (h | h) <;> cases h

end Sample

namespace ScanOptions

open Sample in
/-- A name with a surrogate empties the file that was there. -/
theorem allOrNothing_iff_writable_reported :
    reporting.Delivers {} "app" (reported "HOME") ∧
      ¬reporting.AllOrNothing {} "app" (reported surrogate) := by
  constructor
  · have writable : isWritable? "HOME" = some true := by decide +kernel
    obtain ⟨result, o, prepared, writable⟩ := exists_prepare_of_isWritable? writable
    have opened : ((reported "HOME").writeAt reporting.output []).isOk := by decide +kernel
    exact (allOrNothing_iff_writable {} _ _ _ reporting_toFile).1.mpr
      ⟨begins_reported _, result, o, _, prepared, opened, writable⟩
  · obtain ⟨result, o, prepared, opened, lost⟩ := exists_prepare_surrogate
    rw [(allOrNothing_iff_writable {} _ _ _ reporting_toFile).2.2.1 rfl]
    intro spared
    exact lost (spared (begins_reported _) result o prepared opened)

open Sample in
/-- Not every run is all or nothing. -/
theorem not_always_allOrNothing :
    ¬∀ (lib : Libraries) (options : ScanOptions) (target : Text) (fs : FileSystem),
      Destination.ofText options.output = .file options.output →
      options.AllOrNothing lib target fs := by
  intro always
  obtain ⟨result, o, prepared, opened, lost⟩ := exists_prepare_surrogate
  have whole := always {} reporting "app" (reported surrogate) reporting_toFile
  rw [allOrNothing_iff_spares reporting_toFile (begins_reported _), spares_iff rfl] at whole
  exact lost (whole result o prepared opened)

end ScanOptions

end EnvReads
