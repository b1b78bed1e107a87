import EnvReads.Candidate
import EnvReads.Fault
import EnvReads.Site
import EnvReads.Syntax.AccessPath

/-!
# Records

An environment variable that a program reads: its name, or the path of the expression that computes
it, where it is read, and the evidence for its value.
-/

namespace EnvReads

/-- What a record is about. Names and paths are texts, unless the tree has an identifier that is
named otherwise. -/
inductive Identity where
  | name (v : Value)
  | computed (v : Value)

namespace Identity

def value : Identity → Value
  | name v => v
  | computed v => v

def name? : Identity → Option Value
  | name v => some v
  | computed _ => none

def computed? : Identity → Option Value
  | name _ => none
  | computed v => some v

/-- A record has exactly one of a name and a computed path; null is neither. -/
def ofParts (name computed : Value) : Except Fault Identity :=
  match name.present?, computed.present? with
  | some v, none => .ok (.name v)
  | none, some v => .ok (.computed v)
  | _, _ => .error .identity

/-- How a line of output shows what is read. -/
def label : Identity → Text
  | name v => v.shown
  | computed v => "[" ++ v.shown ++ "]"

end Identity

structure Record where
  file : Path
  span : Option Span
  identity : Identity
  initialized : List Site
  warnings : List Text

/-- The literal names that a chain of sites gives, unless a site is unresolved or gives something
that names nothing. -/
def literalNames? : List Site → Except Fault (Option (List Text))
  | [] => .ok (some [])
  | site :: rest =>
    match site.kind with
    | .unresolved => .ok none
    | .moduleReference => literalNames? rest
    | .literal v =>
      if v.isNaming then do
        let named ← v.writable
        let names ← literalNames? rest
        return names.map (named.literalText :: ·)
      else
        .ok none

/-- The one name that a chain of sites gives. -/
def resolvedName? (chain : List Site) : Except Fault (Option Text) := do
  match (← literalNames? chain).map List.eraseDups with
  | some [name] => return some name
  | _ => return none

namespace Candidate

/-- The name that a literal key gives. -/
def literalName (c : Candidate) : Except Fault Value :=
  if c.key.isIdentifier then .ok c.key.name
  else c.key.value.writable.map fun v => .text v.literalText

/-- What a read is about, given the evidence for its key. -/
def identify (source : Text) (c : Candidate) (chain : List Site) : Except Fault Identity := do
  if c.hasLiteralKey then
    Identity.ofParts (← c.literalName) .null
  else
    match ← resolvedName? chain with
    | some name => return .name (.text name)
    | none => Identity.ofParts .null (← c.key.accessPath (some source))

end Candidate

namespace Record

def ofCandidate (file : Path) (source : Text) (c : Candidate) (chain : List Site)
    (warnings : List Text) : Except Fault Record := do
  let identity ← c.identify source chain
  return ⟨file, c.span, identity, chain, warnings⟩

/-- The record as a report shows it. -/
def toValue (root : Option Path) (r : Record) : Value :=
  let name : Text × Value :=
    match r.identity with
    | .name v => ("name", v)
    | .computed v => ("computed", v)
  let reference : Fields := [
    ("filename", .text (displayPath root r.file)),
    ("loc", r.span.elim .null Span.toValue)]
  let initialized : Fields :=
    if r.initialized.isEmpty then [] else
      [("initialized", .list (r.initialized.map (Site.toValue root)))]
  .record (("type", .text "EnvironmentVariable") :: name :: ("reference", .record reference) ::
    initialized)

/-- The record as one line of text. -/
def line (root : Option Path) (r : Record) : Text :=
  let place : Text :=
    match r.span with
    | some span => ":" ++ span.startLine.shown ++ ":" ++ span.startColumn.shown
    | none => []
  displayPath root r.file ++ place ++ ": " ++ r.identity.label

/-- Keeps the first record of each identity; `seen` are the identities met so far. -/
def firstOfEach (seen : List Value) : List Record → List Record
  | [] => []
  | r :: rest =>
    if seen.contains r.identity.value then
      firstOfEach seen rest
    else
      r :: firstOfEach (r.identity.value :: seen) rest

/-- The first record of each identity, in the order of the identities. -/
def aggregate (records : List Record) : Except Fault (List Record) :=
  if records.all (·.identity.value.isSimple) then
    match Value.sortOn? (·.identity.value) (firstOfEach [] records) with
    | some sorted => .ok sorted
    | none => .error .unordered
  else
    .error .compoundName

end Record

end EnvReads
