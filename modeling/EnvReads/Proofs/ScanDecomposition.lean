import EnvReads.Proofs.FollowedPaths
import EnvReads.Proofs.Reading
import EnvReads.Proofs.Sample
import EnvReads.Proofs.SortPermutation
import EnvReads.Scan

/-!
# A scan is the sum of its files

The files of a scan share one module cache, and a file is put into it when it has been loaded. None
of that shows in the result: each file yields what it yields by itself, in a new session
(`ScanConfig.Yields`). The argument is an invariant of the session: at every moment it is alike to
the new one, since whatever the cache knows of a path is what loading the path would give. A file
that fails to load is never put into the cache, and a module that failed to load is remembered as
absent, which is what loading it again would give too.

A scan that writes trees to a debug directory changes files, and a file whose name ends in `.json`
is scanned as a file but absent as a module; both are left out here.
-/

namespace EnvReads

open Session (Alike)

/-! ## What aggregation keeps -/

theorem Value.same_self_of_isSimple {v : Value} (h : v.isSimple) : v == v := by
  cases v with
  | list items => cases h
  | record fields => cases h
  | float x => cases x <;> simp [BEq.beq, Value.same, Value.amount?, Amount.ofDouble, Amount.same]
  | _ => simp [BEq.beq, Value.same, Value.amount?, Amount.ofInt, Amount.same]

namespace Record

/-- Lists of records that are about the same variables. -/
def SameIdentities (xs ys : List Record) : Prop :=
  (∀ x ∈ xs, ∃ y ∈ ys, x.identity.value == y.identity.value) ∧
    ∀ y ∈ ys, ∃ x ∈ xs, y.identity.value == x.identity.value

theorem mem_of_mem_firstOfEach {seen : List Value} {records : List Record} {r : Record}
    (h : r ∈ firstOfEach seen records) : r ∈ records := by
  induction records generalizing seen with
  | nil => cases h
  | cons first rest ih =>
      rw [firstOfEach] at h
      split at h
      · exact .tail _ (ih h)
      · rcases List.mem_cons.mp h with rfl | h
        · exact .head _
        · exact .tail _ (ih h)

/-- A record that is not kept is about what has been seen, or about what a kept one is. -/
theorem seen_or_kept (seen : List Value) {records : List Record} {r : Record} (h : r ∈ records)
    (simple : r.identity.value.isSimple) :
    (∃ v ∈ seen, r.identity.value == v) ∨
      ∃ k ∈ firstOfEach seen records, r.identity.value == k.identity.value := by
  induction records generalizing seen with
  | nil => cases h
  | cons first rest ih =>
      rw [firstOfEach]
      split
      · next known =>
          rcases List.mem_cons.mp h with rfl | h
          · rw [List.contains_eq_any_beq, List.any_eq_true] at known
            exact .inl known
          · exact ih seen h
      · rcases List.mem_cons.mp h with rfl | h
        · exact .inr ⟨r, .head _, Value.same_self_of_isSimple simple⟩
        · rcases ih (first.identity.value :: seen) h with ⟨v, mem, same⟩ | ⟨k, mem, same⟩
          · rcases List.mem_cons.mp mem with rfl | mem
            · exact .inr ⟨first, .head _, same⟩
            · exact .inl ⟨v, mem, same⟩
          · exact .inr ⟨k, .tail _ mem, same⟩

/-- Aggregation keeps some of the records, and one for each identity. -/
theorem aggregate_covers {records kept : List Record} (h : aggregate records = .ok kept) :
    (∀ k ∈ kept, k ∈ records) ∧
      ∀ r ∈ records, ∃ k ∈ kept, r.identity.value == k.identity.value := by
  rw [aggregate] at h
  split at h
  · next simple =>
      rw [List.all_eq_true] at simple
      split at h
      · next sorted found =>
          cases h
          have perm := Value.sortOn?_perm found
          refine ⟨fun k mem => mem_of_mem_firstOfEach (perm.mem_iff.mp mem), fun r mem => ?_⟩
          rcases seen_or_kept [] mem (simple r mem) with ⟨v, nowhere, -⟩ | ⟨k, mem, same⟩
          · cases nowhere
          · exact ⟨k, perm.mem_iff.mpr mem, same⟩
      · cases h
  · cases h

/-- What is reported depends on which records there are, not on their order. -/
theorem sameIdentities_of_aggregate {xs ys xs' ys' : List Record} (same : ∀ r, r ∈ xs ↔ r ∈ ys)
    (h : aggregate xs = .ok xs') (h' : aggregate ys = .ok ys') : SameIdentities xs' ys' := by
  obtain ⟨sub, cover⟩ := aggregate_covers h
  obtain ⟨sub', cover'⟩ := aggregate_covers h'
  exact ⟨fun x mem => cover' x ((same x).mp (sub x mem)),
    fun y mem => cover y ((same y).mpr (sub' y mem))⟩

end Record

/-! ## Loading a file and asking for it as a module -/

namespace SourceUnit

theorem path_of_load {fs : FileSystem} {path : Path} {unit : SourceUnit}
    (h : load fs path = .ok unit) : unit.path = path := by
  simp only [load, bind, Except.bind] at h
  split at h
  · cases h
  · split at h
    · cases h
    · split at h
      · cases h
      · cases h
        rfl

/-- What can be loaded is a file. -/
theorem isFile_of_load {fs : FileSystem} {path : Path} {unit : SourceUnit}
    (h : load fs path = .ok unit) : fs.isFile path = .ok true := by
  obtain ⟨source, read, -⟩ := Except.bind_eq_ok_iff.mp h
  cases text : fs.readText path with
  | error fault =>
      rw [text] at read
      cases read
  | ok t => exact FileSystem.isFile_of_readText text

/-- A file that can be scanned is the same when it is asked for as a module. -/
theorem loadModule_of_load {fs : FileSystem} {path : Path} {unit : SourceUnit}
    (notJson : path.suffix.lower ≠ ".json") (h : load fs path = .ok unit) :
    loadModule fs path = .ok (some unit) := by
  simp only [loadModule, if_neg notJson, isFile_of_load h, h, bind, Except.bind]
  rfl

end SourceUnit

/-! ## One file, and all of them -/

/-- The reason that a scan gives for a file that it cannot load. -/
def LoadFault.skipReason : LoadFault → SkipReason
  | read _ => .unreadable
  | parse _ => .unparsable

namespace FileSystem

/-- The session in which nothing has been loaded yet. -/
def session (fs : FileSystem) : Session :=
  ⟨fs, Cache.empty⟩

/-- The units of the paths that can be loaded, in order. -/
def loadable (fs : FileSystem) (paths : List Path) : List SourceUnit :=
  paths.filterMap fun path => (SourceUnit.load fs path).toOption

/-- The paths that cannot be loaded, in order, with the reasons. -/
def unloadable (fs : FileSystem) (paths : List Path) : List (Path × SkipReason) :=
  paths.filterMap fun path =>
    match SourceUnit.load fs path with
    | .ok _ => none
    | .error fault => some (path, fault.skipReason)

end FileSystem

namespace ScanConfig

/-- The records of a file that is analyzed by itself. -/
def alone (config : ScanConfig) (fs : FileSystem) (unit : SourceUnit) :
    Except Fault (List Record) :=
  Run.result (config.resolver.analyze unit) fs.session

/-- What a path comes to by itself. -/
inductive Yields (config : ScanConfig) (fs : FileSystem) (path : Path) : FileOutcome → Prop
  | analyzed {unit : SourceUnit} {records : List Record} : SourceUnit.load fs path = .ok unit →
      config.alone fs unit = .ok records → Yields config fs path (.analyzed records)
  | skipped {fault : LoadFault} : SourceUnit.load fs path = .error fault →
      Yields config fs path (.skipped fault.skipReason)

variable {config : ScanConfig} {fs : FileSystem}

/-- A file that loads is put into the cache and analyzed. -/
theorem scanFile_of_load {path : Path} {s : Session} {unit : SourceUnit}
    (load : SourceUnit.load s.files path = .ok unit) :
    config.scanFile path s =
      (config.resolver.analyze unit >>= fun records => pure (.analyzed records) : Run FileOutcome)
        { s with modules := s.modules.insert unit.path (some unit) } := by
  simp only [scanFile, bind, EStateM.bind, get_eq, load]
  rfl

theorem scanFile_of_error {path : Path} {s t : Session} {fault : LoadFault} {outcome : FileOutcome}
    (load : SourceUnit.load s.files path = .error fault)
    (h : config.scanFile path s = .ok outcome t) : t = s ∧ outcome = .skipped fault.skipReason := by
  simp only [scanFile, bind, EStateM.bind, get_eq, load] at h
  cases fault with
  | parse fault =>
      cases fault with
      | notANode => cases h
      | unparsable attempts =>
          cases h
          exact ⟨rfl, rfl⟩
  | read fault =>
      cases fault with
      | notUtf8 =>
          cases h
          exact ⟨rfl, rfl⟩
      | file fault =>
          cases fatal : fault.fatal? with
          | some ending =>
              simp only [fatal] at h
              cases h
          | none =>
              simp only [fatal] at h
              cases h
              exact ⟨rfl, rfl⟩

/-- One file of a scan: the session stays alike to a new one, and the outcome is that of the file
by itself. -/
theorem scanFile_yields (debug : config.debugDir = none) {path : Path}
    (notJson : path.suffix.lower ≠ ".json") {s t : Session} (same : Alike s fs.session)
    {outcome : FileOutcome} (h : config.scanFile path s = .ok outcome t) :
    Alike t fs.session ∧ config.Yields fs path outcome := by
  have files : s.files = fs := same.files
  cases load : SourceUnit.load fs path with
  | error fault =>
      obtain ⟨rfl, rfl⟩ := scanFile_of_error (files ▸ load) h
      exact ⟨same, .skipped load⟩
  | ok unit =>
      rw [scanFile_of_load (files ▸ load)] at h
      have path_eq := SourceUnit.path_of_load load
      have known : s.answer unit.path = .ok (some unit) := by
        rw [same.answer, path_eq]
        exact SourceUnit.loadModule_of_load notJson load
      have added := (Session.alike_insert known).trans same
      have reads := Resolver.reads_analyze (r := config.resolver) unit debug
      rw [Run.eq_ok_iff, Run.result_bind, Run.after_bind, reads.result_eq added] at h
      obtain ⟨result, after⟩ := h
      cases analysis : config.alone fs unit with
      | error fault =>
          rw [alone] at analysis
          rw [analysis] at result
          cases result
      | ok records =>
          have analysis' := analysis
          rw [alone] at analysis'
          rw [analysis'] at result after
          cases result
          refine ⟨?_, .analyzed load analysis⟩
          rw [← after]
          exact (reads.alike _).trans added

/-- A whole scan: what one file keeps alike, the files after it find alike. -/
theorem scanEach_yields (debug : config.debugDir = none) {paths : List Path}
    (notJson : ∀ path ∈ paths, path.suffix.lower ≠ ".json") {s t : Session}
    (same : Alike s fs.session) {outcomes : List (Path × FileOutcome)}
    (h : config.scanEach paths s = .ok outcomes t) :
    Alike t fs.session ∧ outcomes.map Prod.fst = paths ∧
      ∀ o ∈ outcomes, config.Yields fs o.1 o.2 := by
  induction paths generalizing s t outcomes with
  | nil =>
      cases h
      exact ⟨same, rfl, by simp⟩
  | cons path rest ih =>
      simp only [List.forall_mem_cons] at notJson
      simp only [scanEach, bind, EStateM.bind] at h
      split at h
      · next outcome s' first =>
          obtain ⟨same', yields⟩ := scanFile_yields debug notJson.1 same first
          split at h
          · next more t' later =>
              obtain ⟨same'', visited, others⟩ := ih notJson.2 same' later
              cases h
              refine ⟨same'', by rw [List.map_cons, visited], ?_⟩
              rw [List.forall_mem_cons]
              exact ⟨yields, others⟩
          · cases h
      · cases h

/-- The outcomes of files by themselves, put together. -/
theorem sum_of_yields {outcomes : List (Path × FileOutcome)}
    (h : ∀ o ∈ outcomes, config.Yields fs o.1 o.2) :
    (∃ analyses, (fs.loadable (outcomes.map Prod.fst)).mapM (config.alone fs) = .ok analyses ∧
        outcomes.flatMap (·.2.records) = analyses.flatten) ∧
      outcomes.countP (·.2.isAnalyzed) = (fs.loadable (outcomes.map Prod.fst)).length ∧
      outcomes.filterMap (fun (path, outcome) => outcome.skipReason?.map (path, ·)) =
        fs.unloadable (outcomes.map Prod.fst) := by
  induction outcomes with
  | nil => exact ⟨⟨[], rfl, rfl⟩, rfl, rfl⟩
  | cons o rest ih =>
      obtain ⟨path, outcome⟩ := o
      rw [List.forall_mem_cons] at h
      obtain ⟨⟨analyses, mapped, flat⟩, count, skips⟩ := ih h.2
      cases h.1 with
      | @analyzed unit records load analysis =>
          have units : fs.loadable (path :: rest.map Prod.fst) =
              unit :: fs.loadable (rest.map Prod.fst) := by
            simp [FileSystem.loadable, load, Except.toOption]
          have unloaded : fs.unloadable (path :: rest.map Prod.fst) =
              fs.unloadable (rest.map Prod.fst) := by
            simp [FileSystem.unloadable, load]
          refine ⟨⟨records :: analyses, ?_, ?_⟩, ?_, ?_⟩
          · rw [List.map_cons, units, List.mapM_cons, analysis, mapped]
            rfl
          · rw [List.flatMap_cons, flat]
            rfl
          · rw [List.map_cons, units, List.countP_cons, count]
            rfl
          · rw [List.map_cons, unloaded, ← skips]
            rfl
      | @skipped fault load =>
          have units : fs.loadable (path :: rest.map Prod.fst) =
              fs.loadable (rest.map Prod.fst) := by
            simp [FileSystem.loadable, load, Except.toOption]
          have one : fs.unloadable (path :: rest.map Prod.fst) =
              (path, fault.skipReason) :: fs.unloadable (rest.map Prod.fst) := by
            simp [FileSystem.unloadable, load]
          refine ⟨⟨analyses, ?_, ?_⟩, ?_, ?_⟩
          · rw [List.map_cons, units, mapped]
          · rw [List.flatMap_cons, flat]
            rfl
          · rw [List.map_cons, units, List.countP_cons, count]
            rfl
          · rw [List.map_cons, one, ← skips]
            rfl

/-- What a scan that ends well has done, and what it has made of it. -/
theorem exists_outcomes_of_scanFiles {root : Path} {paths : List Path} {fs' : FileSystem}
    {result : ScanResult} (h : config.scanFiles root paths fs = .ok result fs') :
    ∃ outcomes t, config.scanEach paths fs.session = .ok outcomes t ∧ t.files = fs' ∧
      ∃ records, Record.aggregate (outcomes.flatMap (·.2.records)) = .ok records ∧
        ({ root := Path.resolve fs.cwd root
           visited := outcomes.map Prod.fst
           scanned := outcomes.countP (·.2.isAnalyzed)
           skipped := outcomes.filterMap fun (path, outcome) => outcome.skipReason?.map (path, ·)
           records } : ScanResult) = result := by
  simp only [scanFiles, EStateM.run] at h
  split at h
  · next outcomes t each =>
      cases aggregated : Record.aggregate (outcomes.flatMap (·.2.records)) with
      | error fault =>
          simp [ScanResult.ofOutcomes, aggregated, Fault.raise, bind, Except.bind, throw_eq] at h
      | ok records =>
          simp only [ScanResult.ofOutcomes, aggregated, bind, Except.bind, pure, Except.pure,
            Fault.raise, EStateM.pure] at h
          cases h
          exact ⟨outcomes, t, each, rfl, records, aggregated, rfl⟩
  · cases h

/-- A scan that ends well, as the sum of its files. -/
theorem scanFiles_sum (debug : config.debugDir = none) {root : Path} {paths : List Path}
    (notJson : ∀ path ∈ paths, path.suffix.lower ≠ ".json") {fs' : FileSystem}
    {result : ScanResult} (h : config.scanFiles root paths fs = .ok result fs') :
    (∃ analyses, (fs.loadable paths).mapM (config.alone fs) = .ok analyses ∧
        Record.aggregate analyses.flatten = .ok result.records) ∧
      result.scanned = (fs.loadable paths).length ∧ result.skipped = fs.unloadable paths ∧
      result.visited = paths ∧ fs' = fs := by
  obtain ⟨outcomes, t, each, rfl, records, aggregated, rfl⟩ := exists_outcomes_of_scanFiles h
  obtain ⟨same, rfl, yields⟩ := scanEach_yields debug notJson (.refl fs.session) each
  obtain ⟨⟨analyses, mapped, flat⟩, count, skips⟩ := sum_of_yields yields
  exact ⟨⟨analyses, mapped, flat ▸ aggregated⟩, count, skips, rfl, same.files⟩

/-- A scan with a shared cache is the sum of its files, each by itself: its records are those of the
files that load, in order, aggregated; it counts these files, and skips the others for the reason
that each has. So the order of the paths makes no difference to what is reported. -/
theorem scanFiles_is_sum_of_files (debug : config.debugDir = none) {root : Path}
    {paths : List Path} (notJson : ∀ path ∈ paths, path.suffix.lower ≠ ".json") {fs' : FileSystem}
    {result : ScanResult} (h : config.scanFiles root paths fs = .ok result fs') :
    (∃ analyses, (fs.loadable paths).mapM (config.alone fs) = .ok analyses ∧
        Record.aggregate analyses.flatten = .ok result.records) ∧
      result.scanned = (fs.loadable paths).length ∧ result.skipped = fs.unloadable paths ∧
      fs' = fs ∧
      ∀ (paths' : List Path) (result' : ScanResult) (fs'' : FileSystem), paths'.Perm paths →
        config.scanFiles root paths' fs = .ok result' fs'' →
        Record.SameIdentities result.records result'.records := by
  obtain ⟨⟨analyses, mapped, aggregated⟩, scanned, skipped, -, files⟩ :=
    scanFiles_sum debug notJson h
  refine ⟨⟨analyses, mapped, aggregated⟩, scanned, skipped, files, ?_⟩
  intro paths' result' fs'' perm h'
  have notJson' : ∀ path ∈ paths', path.suffix.lower ≠ ".json" :=
    fun path mem => notJson path (perm.mem_iff.mp mem)
  obtain ⟨⟨analyses', mapped', aggregated'⟩, -⟩ := scanFiles_sum debug notJson' h'
  have units : (fs.loadable paths').Perm (fs.loadable paths) := perm.filterMap _
  refine Record.sameIdentities_of_aggregate ?_ aggregated aggregated'
  intro r
  simp only [List.mem_flatten, Except.mem_of_mapM mapped, Except.mem_of_mapM mapped', units.mem_iff]

end ScanConfig

namespace Sample

/-- `exports.KEY = "TOKEN"; process.env.HOME`. -/
def keys : Node :=
  program [statement (assignment (member (name "exports") "KEY") (text "TOKEN")),
    statement (member processEnv "HOME")]

/-- `var keys = require("./keys"); process.env[keys.KEY]`. -/
def reader : Node :=
  program [declaration (name "keys") (require "./keys"),
    statement (entry processEnv (member (name "keys") "KEY"))]

def files : FileSystem where
  entries := [
    .file "keys.js" { octets := [], parsed := .estree keys.toValue },
    .file "main.js" { octets := [], parsed := .estree reader.toValue },
    .file "broken.js" { octets := [] }]
  cwd := "/"

/-- A reader before and after the module that it follows, and a file that does not parse. -/
def paths : List Path :=
  ["/main.js", "/broken.js", "/keys.js", "/main.js"]

end Sample

open Sample in
theorem ScanConfig.scanFiles_is_sum_of_files_sample :
    ∃ result fs', scanFiles { followModules := true } "/" paths files = .ok result fs' ∧
      (∃ analyses, (files.loadable paths).mapM (alone { followModules := true } files) =
          .ok analyses ∧ Record.aggregate analyses.flatten = .ok result.records) ∧
      result.scanned = 3 ∧ result.skipped = [(("/broken.js" : Path), SkipReason.unparsable)] := by
  have ends : ((scanFiles { followModules := true } "/" paths).run' files).isSome := by
    decide +kernel
  obtain ⟨result, fs', run⟩ := exists_ok_of_isSome ends
  have notJson : ∀ path ∈ paths, path.suffix.lower ≠ ".json" := by decide +kernel
  obtain ⟨sum, scanned, skipped, -⟩ := scanFiles_is_sum_of_files rfl notJson run
  have three : (files.loadable paths).length = 3 := by decide +kernel
  have one : files.unloadable paths = [(("/broken.js" : Path), SkipReason.unparsable)] := by
    decide +kernel
  exact ⟨result, fs', run, sum, scanned.trans three, skipped.trans one⟩

end EnvReads
