import EnvReads.Fault
import EnvReads.Value

/-!
# Spans

Where a node stands in its source: lines from one, columns from zero, and offsets where the tree
gives them. The coordinates are whatever values the tree has for them.
-/

namespace EnvReads

structure Span where
  startLine : Value
  startColumn : Value
  endLine : Value
  endColumn : Value
  startOffset : Value := .null
  endOffset : Value := .null

namespace Span

/-- The fields of the start or the end of a location. A missing or empty one has none; otherwise it
must be a record. -/
def position (loc : Fields) (name : Text) : Except Fault Fields :=
  match loc.field? name with
  | some (.record fields) => .ok fields
  | some v => if v.isTruthy then .error .location else .ok []
  | none => .ok []

def coordinate (position : Fields) (name : Text) (default : Value) : Value :=
  (position.field? name).getD default

/-- The two members of a `range` field. -/
def range? (fields : Fields) : Option (Value × Value) :=
  match fields.field? "range" with
  | some (.list [start, stop]) => some (start, stop)
  | _ => none

/-- The span that a location gives. A missing start is the start of the source, a missing end is
the start. -/
def ofLocation (loc : Fields) (range : Option (Value × Value)) : Except Fault Span := do
  let start ← position loc "start"
  let stop ← position loc "end"
  let startLine := coordinate start "line" (.int 1)
  let startColumn := coordinate start "column" (.int 0)
  return {
    startLine
    startColumn
    endLine := coordinate stop "line" startLine
    endColumn := coordinate stop "column" startColumn
    startOffset := (range.map Prod.fst).getD .null
    endOffset := (range.map Prod.snd).getD .null }

/-- The span that the fields of a node give, if they have a location. -/
def ofFields? (fields : Fields) : Except Fault (Option Span) :=
  match fields.field? "loc" with
  | some (.record loc) => (ofLocation loc (range? fields)).map some
  | _ => .ok none

/-- Spans are ordered by line, then column, of their starts. -/
def key (span : Span) : Value :=
  .list [span.startLine, span.startColumn]

/-- The key of a node that may have no span: such a node stands at line and column zero. -/
def key? (span : Option Span) : Value :=
  (span.map key).getD (.list [.int 0, .int 0])

def positionValue (line column : Value) : Value :=
  .record [("line", line), ("column", column)]

/-- The span as an ESTree location. -/
def toValue (span : Span) : Value :=
  .record [
    ("start", positionValue span.startLine span.startColumn),
    ("end", positionValue span.endLine span.endColumn)]

end Span

end EnvReads
