import EnvReads.Module.Lookup
import EnvReads.Proofs.Outcome

/-!
# What module lookup asks

A lookup asks the file system about one path after another (`Module.Asks`) and reads at most one
package manifest, that of the package that decides (`Module.Opens`). It fails if one of these paths
is refused, or if the manifest is JSON but no record, or is nested too deeply
(`Module.HasFitManifest`), and for no other reason (`Module.isOk_lookup_iff`). A file system refuses
paths that are too long, and those that lead through a directory that cannot be searched
(`FileSystem.refuses_view_iff`). What is not asked for makes no difference
(`Module.lookup_congr_of_asks`).
-/

namespace EnvReads

namespace FileView

variable {view : FileView} {p : Path}

/-- A path that cannot be asked about. -/
def Refuses (view : FileView) (p : Path) : Prop :=
  ¬(view.kind? p).isOk

/-- Whether a path leads to a file is known unless it is refused. -/
theorem isOk_isFile_iff : (view.isFile p).isOk ↔ ¬view.Refuses p := by
  rw [isFile, Except.isOk_map, Refuses, Classical.not_not]

/-- Whether a path leads to a directory is known unless it is refused. -/
theorem isOk_isDirectory_iff : (view.isDirectory p).isOk ↔ ¬view.Refuses p := by
  rw [isDirectory, Except.isOk_map, Refuses, Classical.not_not]

section

variable {view' : FileView} (same : view.kind? p = view'.kind? p)

include same

theorem isFile_congr : view.isFile p = view'.isFile p := by
  rw [isFile, isFile, same]

theorem isDirectory_congr : view.isDirectory p = view'.isDirectory p := by
  rw [isDirectory, isDirectory, same]

end

/-- What a path leads to is known from whether it leads to a file or to a directory. -/
theorem kind?_congr {view' : FileView} (file : view.isFile p = view'.isFile p)
    (directory : view.isDirectory p = view'.isDirectory p) : view.kind? p = view'.kind? p := by
  rw [isFile, isFile] at file
  rw [isDirectory, isDirectory] at directory
  generalize view.kind? p = kind at *
  generalize view'.kind? p = kind' at *
  cases kind <;> cases kind' <;> simp_all [Except.map]
  next kind kind' => cases kind <;> cases kind' <;> simp_all <;> grind [cases EntryKind]

end FileView

/-- A file system refuses paths that are too long and those through directories that cannot be
searched. -/
theorem FileSystem.refuses_view_iff {fs : FileSystem} {p : Path} : fs.view.Refuses p ↔
    fs.entry p = .error .nameTooLong ∨ fs.entry p = .error .denied := by
  simp only [FileView.Refuses, view, Except.isOk_map, lookAt]
  split <;> simp_all

namespace Module

variable {view view' : FileView} {ps : List Path} {p dir importer : Path} {specifier : Text}

/-! ## Paths tried in order -/

/-- Of paths that are tried in order, the given one has its turn: none before it is a file. -/
inductive Tried (view : FileView) : List Path → Path → Prop
  | here {p : Path} {rest : List Path} : Tried view (p :: rest) p
  | later {p q : Path} {rest : List Path} : view.isFile q = .ok false → Tried view rest p →
      Tried view (q :: rest) p

/-- None of the paths that a module at `base` may have is a file. -/
def Absent (view : FileView) (base : Path) : Prop :=
  ∀ p ∈ candidates base, view.isFile p = .ok false

/-- Trying paths in order fails if one that has its turn is refused. -/
theorem isOk_firstFile_iff :
    (firstFile view ps).isOk ↔ ∀ p, Tried view ps p → ¬view.Refuses p := by
  induction ps with
  | nil =>
      refine iff_of_true rfl fun p tried => ?_
      cases tried
  | cons q rest ih =>
      simp only [firstFile, Except.isOk_bind_iff]
      constructor
      · rintro ⟨b, asked, h⟩ p tried
        cases tried with
        | here => exact FileView.isOk_isFile_iff.mp (Except.isOk_iff.mpr ⟨b, asked⟩)
        | later no tried =>
            cases asked.symm.trans no
            exact ih.mp h p tried
      · intro h
        have asked := FileView.isOk_isFile_iff.mpr (h q .here)
        obtain ⟨b, asked⟩ := Except.isOk_iff.mp asked
        refine ⟨b, asked, ?_⟩
        cases b with
        | true => rfl
        | false => exact ih.mpr fun p tried => h p (.later asked tried)

/-- Nothing is found if none of the paths leads to a file. -/
theorem firstFile_eq_none_iff :
    firstFile view ps = .ok none ↔ ∀ p ∈ ps, view.isFile p = .ok false := by
  induction ps with
  | nil => simp [firstFile]
  | cons q rest ih =>
      rw [firstFile, Except.bind_eq_ok_iff, List.forall_mem_cons, ← ih]
      constructor
      · rintro ⟨b, asked, h⟩
        cases b with
        | true => cases h
        | false => exact ⟨asked, h⟩
      · rintro ⟨asked, h⟩
        exact ⟨false, asked, h⟩

/-- What is found is a file. -/
theorem isFile_of_firstFile (h : firstFile view ps = .ok (some p)) : view.isFile p = .ok true := by
  induction ps with
  | nil => cases h
  | cons q rest ih =>
      obtain ⟨b, asked, h⟩ := Except.bind_eq_ok_iff.mp h
      cases b with
      | true =>
          cases h
          exact asked
      | false => exact ih h

/-- Only the paths that have their turn make a difference. -/
theorem firstFile_congr_of_tried (same : ∀ p, Tried view ps p → view.kind? p = view'.kind? p) :
    firstFile view ps = firstFile view' ps := by
  induction ps with
  | nil => rfl
  | cons q rest ih =>
      rw [firstFile, firstFile, ← FileView.isFile_congr (same q .here)]
      refine Except.bind_congr_of_ok fun there asked => ?_
      cases there with
      | true => rfl
      | false => exact ih fun p tried => same p (.later asked tried)

theorem probe_eq_none_iff {base : Path} : probe view base = .ok none ↔ Absent view base :=
  firstFile_eq_none_iff

/-! ## The entry of a package -/

/-- If the package has a manifest that can be read and is JSON, then it is a record. -/
def HasFitManifest (view : FileView) (dir : Path) : Prop :=
  view.isFile (manifest dir) = .ok true → ∀ t, view.readText (manifest dir) = .ok t →
    Json.read view.nesting t ≠ .error .tooDeep ∧
      ∀ v, Json.read view.nesting t = .ok v → v.fields?.isSome

/-- The manifest of the package names the path of its entry. -/
def Names (view : FileView) (dir main : Path) : Prop :=
  ∃ t, mainOf view dir = .ok (some t) ∧ main = (dir.join (Path.ofText t)).normalize

/-- The paths that are asked for to find the entry of a package. -/
inductive EntryAsks (view : FileView) (dir : Path) : Path → Prop
  | manifest : EntryAsks view dir (manifest dir)
  | main {main p : Path} : Names view dir main → Tried view (candidates main) p →
      EntryAsks view dir p
  | index {p : Path} : (∀ main, Names view dir main → Absent view main) →
      Tried view (candidates dir) p → EntryAsks view dir p

/-- Reading a manifest fails if it is nested too deeply or is JSON but no record. -/
theorem isOk_manifestMain_iff {p : Path} : (manifestMain view p).isOk ↔
    ∀ t, view.readText p = .ok t → Json.read view.nesting t ≠ .error .tooDeep ∧
      ∀ v, Json.read view.nesting t = .ok v → v.fields?.isSome := by
  rw [manifestMain]
  cases view.readText p with
  | error fault => simp
  | ok t =>
      simp only [Except.ok.injEq, forall_eq']
      cases Json.read view.nesting t with
      | error fault => cases fault <;> simp
      | ok v => cases v <;> simp [Value.fields?]

/-- The entry of a package is known unless its manifest is refused or not fit. -/
theorem isOk_mainOf_iff : (mainOf view dir).isOk ↔
    ¬view.Refuses (manifest dir) ∧ HasFitManifest view dir := by
  rw [mainOf, ← FileView.isOk_isFile_iff, HasFitManifest, ← isOk_manifestMain_iff]
  cases view.isFile (manifest dir) with
  | error fault => simp [bind, Except.bind]
  | ok there => cases there <;> simp [bind, Except.bind]

/-- The entry that is named depends on the manifest and on how deeply it can be nested. -/
theorem mainOf_congr (same : view.kind? (manifest dir) = view'.kind? (manifest dir))
    (text : view.readText (manifest dir) = view'.readText (manifest dir))
    (nesting : view.nesting = view'.nesting) : mainOf view dir = mainOf view' dir := by
  rw [mainOf, mainOf, FileView.isFile_congr same, manifestMain, manifestMain, text, nesting]

theorem isOk_probe_iff {base : Path} :
    (probe view base).isOk ↔ ∀ p, Tried view (candidates base) p → ¬view.Refuses p :=
  isOk_firstFile_iff

/-- Finding the entry of a package fails if something asked for is refused or the manifest is not
fit. -/
theorem isOk_packageEntry_iff : (packageEntry view dir).isOk ↔
    (∀ p, EntryAsks view dir p → ¬view.Refuses p) ∧ HasFitManifest view dir := by
  simp only [packageEntry, Except.isOk_bind_iff]
  constructor
  · rintro ⟨main, read, found, tried, h⟩
    obtain ⟨asked, fit⟩ := isOk_mainOf_iff.mp (Except.isOk_iff.mpr ⟨main, read⟩)
    refine ⟨fun p asks => ?_, fit⟩
    cases asks with
    | manifest => exact asked
    | main named turn =>
        obtain ⟨t, read', rfl⟩ := named
        cases read.symm.trans read'
        exact isOk_probe_iff.mp (Except.isOk_iff.mpr ⟨found, tried⟩) p turn
    | index absent turn =>
        cases found with
        | none => exact isOk_probe_iff.mp h p turn
        | some q =>
            cases main with
            | none => cases tried
            | some t => cases tried.symm.trans (probe_eq_none_iff.mpr (absent _ ⟨t, read, rfl⟩))
  · rintro ⟨allowed, fit⟩
    obtain ⟨main, read⟩ :=
      Except.isOk_iff.mp (isOk_mainOf_iff.mpr ⟨allowed _ .manifest, fit⟩)
    refine ⟨main, read, ?_⟩
    cases main with
    | none =>
        refine ⟨none, rfl, isOk_probe_iff.mpr fun p turn => allowed p (.index ?_ turn)⟩
        rintro main ⟨t, read', -⟩
        cases read.symm.trans read'
    | some t =>
        have tried := isOk_probe_iff.mpr fun p turn => allowed p (.main ⟨t, read, rfl⟩ turn)
        obtain ⟨found, tried⟩ := Except.isOk_iff.mp tried
        refine ⟨found, tried, ?_⟩
        cases found with
        | some p => rfl
        | none =>
            refine isOk_probe_iff.mpr fun p turn => allowed p (.index ?_ turn)
            rintro main ⟨t', read', rfl⟩
            cases read.symm.trans read'
            exact probe_eq_none_iff.mp tried

/-- The entry of a package is a file. -/
theorem isFile_of_packageEntry (h : packageEntry view dir = .ok (some p)) :
    view.isFile p = .ok true := by
  obtain ⟨main, -, h⟩ := Except.bind_eq_ok_iff.mp h
  obtain ⟨found, tried, h⟩ := Except.bind_eq_ok_iff.mp h
  cases found with
  | none => exact isFile_of_firstFile h
  | some q =>
      cases h
      cases main with
      | none => cases tried
      | some t => exact isFile_of_firstFile tried

/-- Only what is asked for and the entry that the manifest names make a difference. -/
theorem packageEntry_congr_of_asks
    (same : ∀ p, EntryAsks view dir p → view.kind? p = view'.kind? p)
    (main : mainOf view dir = mainOf view' dir) :
    packageEntry view dir = packageEntry view' dir := by
  rw [packageEntry, packageEntry, ← main]
  refine Except.bind_congr_of_ok fun main read => ?_
  have index (absent : ∀ main, Names view dir main → Absent view main) :
      probe view dir = probe view' dir :=
    firstFile_congr_of_tried fun p tried => same p (.index absent tried)
  cases main with
  | none =>
      refine index ?_
      rintro main ⟨t, read', -⟩
      cases read.symm.trans read'
  | some t =>
      have entry : probe view (dir.join (Path.ofText t)).normalize =
          probe view' (dir.join (Path.ofText t)).normalize :=
        firstFile_congr_of_tried fun p tried => same p (.main ⟨t, read, rfl⟩ tried)
      rw [Option.elim_some, Option.elim_some, ← entry]
      refine Except.bind_congr_of_ok fun found tried => ?_
      cases found with
      | some p => rfl
      | none =>
          refine index ?_
          rintro main ⟨t', read', rfl⟩
          cases read.symm.trans read'
          exact probe_eq_none_iff.mp tried

/-! ## Lookup -/

/-- The places of a package that the lookup comes to: nothing is at those before. -/
inductive Reached (view : FileView) (specifier : Text) : List Path → Path → Prop
  | here {dir : Path} {rest : List Path} :
      Reached view specifier (dir :: rest) (packageIn specifier dir)
  | later {dir package : Path} {rest : List Path} :
      view.isDirectory (packageIn specifier dir) = .ok false →
      Absent view (packageIn specifier dir) → Reached view specifier rest package →
      Reached view specifier (dir :: rest) package

/-- The paths that are asked for at a place where a package may be. -/
inductive PlaceAsks (view : FileView) (package : Path) : Path → Prop
  | place : PlaceAsks view package package
  | file {p : Path} : view.isDirectory package = .ok false → Tried view (candidates package) p →
      PlaceAsks view package p
  | entry {p : Path} : view.isDirectory package = .ok true → EntryAsks view package p →
      PlaceAsks view package p

/-- The places at which a file looks for the package that a specifier names. -/
def Seeks (view : FileView) (specifier : Text) (importer package : Path) : Prop :=
  specifier ≠ [] ∧ ¬isPath specifier ∧ Reached view specifier importer.ancestors package

/-- The package directory that decides what a specifier names in a file. -/
def Opens (view : FileView) (specifier : Text) (importer package : Path) : Prop :=
  Seeks view specifier importer package ∧ view.isDirectory package = .ok true

/-- The paths that are asked for to find what a specifier names in a file. -/
inductive Asks (view : FileView) (specifier : Text) (importer : Path) : Path → Prop
  | path {p : Path} : isPath specifier →
      Tried view (candidates (importer.parent.join (Path.ofText specifier)).normalize) p →
      Asks view specifier importer p
  | package {package p : Path} : Seeks view specifier importer package →
      PlaceAsks view package p → Asks view specifier importer p

/-- At a place where a package may be, a lookup goes on, ends or fails. -/
theorem isOk_lookupPackage_iff {dirs : List Path} : (lookupPackage view specifier dirs).isOk ↔
    ∀ package, Reached view specifier dirs package →
      (∀ p, PlaceAsks view package p → ¬view.Refuses p) ∧
        (view.isDirectory package = .ok true → HasFitManifest view package) := by
  induction dirs with
  | nil =>
      refine iff_of_true rfl fun package reached => ?_
      cases reached
  | cons dir rest ih =>
      rw [lookupPackage, Except.isOk_bind_iff]
      constructor
      · rintro ⟨there, asked, h⟩ package reached
        have allowed := FileView.isOk_isDirectory_iff.mp (Except.isOk_iff.mpr ⟨there, asked⟩)
        cases there with
        | true =>
            obtain ⟨asks, fit⟩ := isOk_packageEntry_iff.mp h
            cases reached with
            | later no _ _ => cases asked.symm.trans no
            | here =>
                refine ⟨fun p asks' => ?_, fun _ => fit⟩
                cases asks' with
                | place => exact allowed
                | file no _ => cases asked.symm.trans no
                | entry _ turn => exact asks p turn
        | false =>
            obtain ⟨found, tried, h⟩ := Except.isOk_bind_iff.mp h
            cases reached with
            | here =>
                refine ⟨fun p asks => ?_, fun yes => ?_⟩
                · cases asks with
                  | place => exact allowed
                  | file _ turn =>
                      exact isOk_probe_iff.mp (Except.isOk_iff.mpr ⟨found, tried⟩) p turn
                  | entry yes _ => cases asked.symm.trans yes
                · cases asked.symm.trans yes
            | later _ absent reached =>
                cases tried.symm.trans (probe_eq_none_iff.mpr absent)
                exact ih.mp h package reached
      · intro h
        obtain ⟨allowed, fit⟩ := h _ .here
        obtain ⟨there, asked⟩ :=
          Except.isOk_iff.mp (FileView.isOk_isDirectory_iff.mpr (allowed _ .place))
        refine ⟨there, asked, ?_⟩
        cases there with
        | true =>
            exact isOk_packageEntry_iff.mpr ⟨fun p turn => allowed p (.entry asked turn), fit asked⟩
        | false =>
            obtain ⟨found, tried⟩ :=
              Except.isOk_iff.mp (isOk_probe_iff.mpr fun p turn => allowed p (.file asked turn))
            refine Except.isOk_bind_iff.mpr ⟨found, tried, ?_⟩
            cases found with
            | some p => rfl
            | none =>
                refine ih.mpr fun package reached => h package ?_
                exact .later asked (probe_eq_none_iff.mp tried) reached

/-- A lookup fails because of a path that is refused or because of the manifest that it reads, and
for no other reason. -/
theorem isOk_lookup_iff : (lookup view specifier importer).isOk ↔
    (∀ p, Asks view specifier importer p → ¬view.Refuses p) ∧
      ∀ package, Opens view specifier importer package → HasFitManifest view package := by
  rw [lookup]
  split
  · next empty =>
      have nil : specifier = [] := List.isEmpty_iff.mp empty
      refine iff_of_true rfl ⟨fun p asks => ?_, fun package opens => absurd nil opens.1.1⟩
      cases asks with
      | path relative _ => exact absurd (nil ▸ relative) (by decide)
      | package seeks _ => exact absurd nil seeks.1
  · next full =>
      split
      · next relative =>
          rw [isOk_probe_iff]
          refine ⟨fun allowed => ⟨fun p asks => ?_, ?_⟩, ?_⟩
          · cases asks with
            | path _ turn => exact allowed p turn
            | package seeks _ => exact absurd relative seeks.2.1
          · intro package opens
            exact absurd relative opens.1.2.1
          · rintro ⟨allowed, -⟩ p turn
            exact allowed p (.path relative turn)
      · next bare =>
          rw [isOk_lookupPackage_iff]
          constructor
          · intro h
            refine ⟨fun p asks => ?_, fun package opens => (h package opens.1.2.2).2 opens.2⟩
            cases asks with
            | path relative _ => exact absurd relative bare
            | package seeks asks => exact (h _ seeks.2.2).1 p asks
          · rintro ⟨allowed, fit⟩ package reached
            have seeks : Seeks view specifier importer package :=
              ⟨fun nil => full (List.isEmpty_iff.mpr nil), bare, reached⟩
            exact ⟨fun p asks => allowed p (.package seeks asks),
              fun yes => fit package ⟨seeks, yes⟩⟩

/-- A package is looked for only at the places that are reached, and only what is asked for there
makes a difference. -/
theorem lookupPackage_congr_of_asks {dirs : List Path}
    (h : ∀ package, Reached view specifier dirs package →
      (∀ p, PlaceAsks view package p → view.kind? p = view'.kind? p) ∧
        (view.isDirectory package = .ok true → mainOf view package = mainOf view' package)) :
    lookupPackage view specifier dirs = lookupPackage view' specifier dirs := by
  induction dirs with
  | nil => rfl
  | cons dir rest ih =>
      obtain ⟨same, main⟩ := h _ .here
      rw [lookupPackage, lookupPackage, ← FileView.isDirectory_congr (same _ .place)]
      refine Except.bind_congr_of_ok fun there asked => ?_
      cases there with
      | true =>
          exact packageEntry_congr_of_asks (fun p asks => same p (.entry asked asks)) (main asked)
      | false =>
          have tried : probe view (packageIn specifier dir) =
              probe view' (packageIn specifier dir) :=
            firstFile_congr_of_tried fun p tried => same p (.file asked tried)
          rw [if_neg Bool.false_ne_true, if_neg Bool.false_ne_true, ← tried]
          refine Except.bind_congr_of_ok fun found absent => ?_
          cases found with
          | some p => rfl
          | none =>
              refine ih fun package reached => h package ?_
              exact .later asked (probe_eq_none_iff.mp absent) reached

/-- A lookup depends on what is asked for and on the manifest that it reads, and on nothing else. -/
theorem lookup_congr_of_asks
    (same : ∀ p, Asks view specifier importer p → view.kind? p = view'.kind? p)
    (main : ∀ package, Opens view specifier importer package →
      mainOf view package = mainOf view' package) :
    lookup view specifier importer = lookup view' specifier importer := by
  rw [lookup, lookup]
  split
  · rfl
  · next full =>
      split
      · next relative =>
          exact firstFile_congr_of_tried fun p tried => same p (.path relative tried)
      · next bare =>
          refine lookupPackage_congr_of_asks fun package reached => ?_
          have seeks : Seeks view specifier importer package :=
            ⟨fun nil => full (List.isEmpty_iff.mpr nil), bare, reached⟩
          exact ⟨fun p asks => same p (.package seeks asks), fun yes => main package ⟨seeks, yes⟩⟩

theorem isFile_of_lookupPackage {dirs : List Path}
    (h : lookupPackage view specifier dirs = .ok (some p)) : view.isFile p = .ok true := by
  induction dirs with
  | nil => cases h
  | cons dir rest ih =>
      obtain ⟨b, -, h⟩ := Except.bind_eq_ok_iff.mp h
      cases b with
      | true => exact isFile_of_packageEntry h
      | false =>
          obtain ⟨found, tried, h⟩ := Except.bind_eq_ok_iff.mp h
          cases found with
          | none => exact ih h
          | some q =>
              cases h
              exact isFile_of_firstFile tried

/-- What a lookup finds is a file. -/
theorem isFile_of_lookup (h : lookup view specifier importer = .ok (some p)) :
    view.isFile p = .ok true := by
  rw [lookup] at h
  split at h
  · cases h
  · split at h
    · exact isFile_of_firstFile h
    · exact isFile_of_lookupPackage h

end Module

end EnvReads
