import EnvReads.Proofs.PathSpelling
import EnvReads.Scan

/-!
# Reports can be read back

A report leaves out what it does not show: kinds of sites are told from the fields that are there,
empty chains have no field, and paths below the root are relative to it. Nothing else is lost.
`Report.read` gives the records back from a report and its root, without being told in which of its
two ways the report shows paths, up to warnings and offsets (`Record.shown`).
-/

namespace EnvReads

/-! ## What a report shows -/

/-- The lines and columns of a span. -/
def Span.shown (span : Span) : Span :=
  { span with startOffset := .null, endOffset := .null }

def Site.shown (site : Site) : Site :=
  { site with span := site.span.map Span.shown }

/-- What a report shows of a record: everything but warnings and offsets. -/
def Record.shown (r : Record) : Record :=
  { r with
    span := r.span.map Span.shown
    initialized := r.initialized.map Site.shown
    warnings := [] }

/-- The sites that evidence consists of if every node has its place: a module has no span, and other
sites have one. Their paths are absolute. -/
inductive Site.IsPlaced : Site → Prop
  | moduleReference {p : Path} : p.isAbsolute → IsPlaced (.moduleReference p)
  | literal {p : Path} {span : Span} {value : Value} : p.isAbsolute →
      IsPlaced (.literal p (some span) value)
  | unresolved {p : Path} {span : Span} : p.isAbsolute → IsPlaced (.unresolved p (some span))

structure Record.IsPlaced (r : Record) : Prop where
  file : r.file.isAbsolute
  sites : ∀ site ∈ r.initialized, site.IsPlaced

/-! ## Reading a report -/

namespace Report

def readPosition (v : Value) : Option (Value × Value) := do
  let fields ← v.fields?
  return (← fields.field? "line", ← fields.field? "column")

def readSpan (v : Value) : Option Span := do
  let fields ← v.fields?
  let (startLine, startColumn) ← readPosition (← fields.field? "start")
  let (endLine, endColumn) ← readPosition (← fields.field? "end")
  return { startLine, startColumn, endLine, endColumn }

/-- The path of a file, which may be shown relative to the root. -/
def readFile (root : Path) (v : Value) : Option Path :=
  v.text?.map fun t => root.join (Path.ofText t)

/-- A site without a place is a module, and one with a value is a literal. -/
def readSite (root : Path) (v : Value) : Option Site := do
  let fields ← v.fields?
  let file ← (fields.field? "filename").bind (readFile root)
  match fields.field? "loc", fields.field? "value" with
  | none, _ => return .moduleReference file
  | some loc, none => return .unresolved file (some (← readSpan loc))
  | some loc, some value => return .literal file (some (← readSpan loc)) value

def readIdentity (fields : Fields) : Option Identity :=
  match fields.field? "name" with
  | some v => some (.name v)
  | none => (fields.field? "computed").map .computed

/-- The span of a reference, null if it has none. -/
def readPlace (v : Value) : Option (Option Span) :=
  if v.isNull then some none else (readSpan v).map some

/-- The sites of a record; a chain without any is not shown. -/
def readSites (root : Path) (fields : Fields) : Option (List Site) :=
  match fields.field? "initialized" with
  | none => some []
  | some (.list items) => items.mapM (readSite root)
  | some _ => none

def readRecord (root : Path) (v : Value) : Option Record := do
  let fields ← v.fields?
  let reference ← (fields.field? "reference").bind Value.fields?
  let file ← (reference.field? "filename").bind (readFile root)
  let span ← (reference.field? "loc").bind readPlace
  return ⟨file, span, ← readIdentity fields, ← readSites root fields, []⟩

/-- The records of a report on the given root. -/
def read (root : Path) : Value → Option (List Record)
  | .list items => items.mapM (readRecord root)
  | _ => none

/-! ## What is written is read -/

variable {root : Path} {shown : Option Path}

/-- Reading back a list, if each member can be read back. -/
theorem mapM_map_eq_some {α β γ : Type} {f : β → Option γ} {g : α → β} {k : α → γ} {xs : List α}
    (h : ∀ x ∈ xs, f (g x) = some (k x)) : (xs.map g).mapM f = some (xs.map k) := by
  induction xs with
  | nil => rfl
  | cons x rest ih =>
      obtain ⟨first, later⟩ := List.forall_mem_cons.mp h
      rw [List.map_cons, List.mapM_cons, first, ih later]
      rfl

section

variable (h : ∀ q, shown = some q → q = root)

include h

/-- An absolute path is read back from what is displayed. -/
theorem readFile_displayPath {p : Path} (absolute : p.isAbsolute) :
    readFile root (.text (displayPath shown p)) = some p :=
  congrArg some (Path.join_displayPath absolute h)

/-- So is a site. -/
theorem readSite_toValue {site : Site} (placed : site.IsPlaced) :
    readSite root (site.toValue shown) = some site.shown := by
  -- Which fields there are settles the kind, so only the path has to be read.
  cases placed with
  | @moduleReference p absolute =>
      have read : readSite root ((Site.moduleReference p).toValue shown) =
        (readFile root (.text (displayPath shown p))).bind fun file =>
          some (Site.moduleReference file) := rfl
      rw [read, readFile_displayPath h absolute]
      rfl
  | @literal p span value absolute =>
      have read : readSite root ((Site.literal p (some span) value).toValue shown) =
        (readFile root (.text (displayPath shown p))).bind fun file =>
          some (Site.literal file (some span.shown) value) := rfl
      rw [read, readFile_displayPath h absolute]
      rfl
  | @unresolved p span absolute =>
      have read : readSite root ((Site.unresolved p (some span)).toValue shown) =
        (readFile root (.text (displayPath shown p))).bind fun file =>
          some (Site.unresolved file (some span.shown)) := rfl
      rw [read, readFile_displayPath h absolute]
      rfl

/-- So is a record. -/
theorem readRecord_toValue {r : Record} (placed : r.IsPlaced) :
    readRecord root (r.toValue shown) = some r.shown := by
  have file := readFile_displayPath h placed.file
  have chain : (r.initialized.map (Site.toValue shown)).mapM (readSite root) =
      some (r.initialized.map Site.shown) :=
    mapM_map_eq_some fun site mem => readSite_toValue h (placed.sites site mem)
  obtain ⟨path, span, identity, sites, warnings⟩ := r
  have place : readPlace (span.elim .null Span.toValue) = some (span.map Span.shown) := by
    cases span <;> rfl
  have read : readRecord root (Record.toValue shown ⟨path, span, identity, sites, warnings⟩) =
      (readFile root (.text (displayPath shown path))).bind fun file =>
        (readPlace (span.elim .null Span.toValue)).bind fun span =>
          ((sites.map (Site.toValue shown)).mapM (readSite root)).bind fun sites =>
            some ⟨file, span, identity, sites, []⟩ := by
    cases identity <;> cases sites <;> rfl
  rw [read, file, place, chain]
  rfl

end

end Report

/-! ## Reports -/

/-- Of a site, all is displayed that `shown` keeps. -/
theorem Site.toValue_shown (root : Option Path) (site : Site) :
    site.shown.toValue root = site.toValue root := by
  obtain ⟨kind, filename, span⟩ := site
  cases span <;> rfl

/-- A report of what is shown is the same report. -/
theorem Record.toValue_shown (root : Option Path) (r : Record) :
    r.shown.toValue root = r.toValue root := by
  obtain ⟨file, span, identity, sites, warnings⟩ := r
  have chain : (sites.map Site.shown).map (Site.toValue root) = sites.map (Site.toValue root) := by
    simp [Site.toValue_shown]
  cases span <;> simp only [shown, toValue, chain, List.isEmpty_map] <;> rfl

namespace ScanResult

variable {r r' : ScanResult}

/-- A report is read back from its value, as far as it is shown. -/
theorem read_toValue (placed : ∀ record ∈ r.records, record.IsPlaced) (relativePaths : Bool) :
    Report.read r.root (r.toValue relativePaths) = some (r.records.map Record.shown) := by
  have root : ∀ q, (if relativePaths then some r.root else none) = some q → q = r.root := by
    cases relativePaths with
    | false => rintro q ⟨⟩
    | true => exact fun q same => (Option.some.inj same).symm
  exact Report.mapM_map_eq_some fun record mem => Report.readRecord_toValue root (placed record mem)

/-- Results that show the same have the same report. -/
theorem toValue_of_shown (root : r.root = r'.root)
    (h : r.records.map Record.shown = r'.records.map Record.shown) (relativePaths : Bool) :
    r.toValue relativePaths = r'.toValue relativePaths := by
  have values (shown : Option Path) :
      r.records.map (Record.toValue shown) = r'.records.map (Record.toValue shown) := by
    have := congrArg (List.map (Record.toValue shown)) h
    simpa [Function.comp_def, Record.toValue_shown] using this
  rw [toValue, toValue, root, values]

/-- Two reports on a root are the same if and only if the same is shown of their records, and what
is shown of them can be read from the report. In particular every absolute path can be found again
from what is shown of it. -/
theorem report_determines_records (root : r.root = r'.root)
    (placed : ∀ record ∈ r.records, record.IsPlaced)
    (placed' : ∀ record ∈ r'.records, record.IsPlaced) (relativePaths : Bool) :
    (r.toValue relativePaths = r'.toValue relativePaths ↔
        r.records.map Record.shown = r'.records.map Record.shown) ∧
      Report.read r.root (r.toValue relativePaths) = some (r.records.map Record.shown) ∧
      ∀ p : Path, p.isAbsolute → r.root.join (Path.ofText (displayPath (some r.root) p)) = p := by
  refine ⟨⟨fun same => ?_, fun same => toValue_of_shown root same relativePaths⟩,
    read_toValue placed relativePaths, fun p absolute => ?_⟩
  · have read := read_toValue placed relativePaths
    rw [same, root, read_toValue placed' relativePaths] at read
    exact (Option.some.inj read).symm
  · have shown : ∀ q, some r.root = some q → q = r.root := fun q same =>
      (Option.some.inj same).symm
    exact Path.join_displayPath absolute shown

/-- A report with a record of each kind and a site of each kind, some of them outside its root. -/
def mixed : ScanResult where
  root := "/w"
  visited := ["/w/a.js"]
  scanned := 1
  skipped := []
  records := [
    { file := "/w/a.js", span := none, identity := .name (.text "HOME"), initialized := [],
      warnings := ["Unsupported declaration"] },
    { file := "/lib/b.js"
      span := some ⟨.int 2, .int 0, .int 2, .int 20, .int 31, .int 51⟩
      identity := .computed (.text "keys.HOME")
      initialized := [
        .moduleReference "/w/keys.js",
        .literal "/w/keys.js" (some ⟨.int 1, .int 9, .int 1, .int 13, .null, .null⟩) .null,
        .unresolved "/w" (some ⟨.int 1, .int 9, .int 1, .int 13, .int 9, .int 13⟩)]
      warnings := [] }]

theorem mixed_placed : ∀ record ∈ mixed.records, record.IsPlaced := by
  refine List.forall_mem_cons.mpr ⟨⟨by decide, List.forall_mem_nil _⟩, ?_⟩
  refine List.forall_mem_cons.mpr ⟨⟨by decide, ?_⟩, List.forall_mem_nil _⟩
  refine List.forall_mem_cons.mpr ⟨.moduleReference (by decide), ?_⟩
  refine List.forall_mem_cons.mpr ⟨.literal (by decide), ?_⟩
  exact List.forall_mem_cons.mpr ⟨.unresolved (by decide), List.forall_mem_nil _⟩

/-- Records with names and with expressions, with relative paths and with absolute ones. -/
theorem report_determines_records_mixed :
    (∀ record ∈ mixed.records, record.IsPlaced) ∧
      Report.read "/w" (mixed.toValue true) = some (mixed.records.map Record.shown) ∧
      Report.read "/w" (mixed.toValue false) = some (mixed.records.map Record.shown) := by
  have relative := report_determines_records rfl mixed_placed mixed_placed true
  have absolute := report_determines_records rfl mixed_placed mixed_placed false
  exact ⟨mixed_placed, relative.2.1, absolute.2.1⟩

end ScanResult

end EnvReads
