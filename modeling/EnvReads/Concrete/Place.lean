import EnvReads.Concrete.Fault
import EnvReads.Concrete.Tree
import EnvReads.Syntax.Node
import EnvReads.Text.Utf8

/-!
# Places in a source

Concrete trees count octets, syntax trees count code points. A `SourceCode` holds what is needed to
go from one to the other: where the text is ASCII the two agree and no table is kept.
-/

namespace EnvReads

structure SourceCode where
  octets : List UInt8
  /-- The number of code points before each octet and before the end, unless all are ASCII. -/
  offsets : Option (List Nat)
  /-- The offset at which each line starts. -/
  lineStarts : List Nat

namespace SourceCode

/-- For each octet of the text, the index of the code point it belongs to, counted from `index`;
then the index after the last code point. -/
def offsetTable : Nat → Text → List Nat
  | index, [] => [index]
  | index, c :: rest => List.replicate c.utf8.length index ++ offsetTable (index + 1) rest

/-- The offsets after the line feeds of a text that starts at `index`. -/
def startsAfter : Nat → Text → List Nat
  | _, [] => []
  | index, c :: rest =>
    if c = '\n' then (index + 1) :: startsAfter (index + 1) rest else startsAfter (index + 1) rest

def ofText (code : Text) : SourceCode :=
  let octets := Utf8.octets code
  { octets
    offsets := if octets.length = code.length then none else some (offsetTable 0 code)
    lineStarts := 0 :: startsAfter 0 code }

/-- The member at an index; a negative one counts from the end. -/
def entry (xs : List Nat) (i : Int) : Except ConcreteFault Nat :=
  let index := if i < 0 then xs.length + i else i
  if index < 0 then
    .error .outside
  else
    match xs[index.toNat]? with
    | some x => .ok x
    | none => .error .outside

/-- The offset in code points of an offset in octets. -/
def offset (s : SourceCode) (byte : Int) : Except ConcreteFault Int :=
  match s.offsets with
  | none => .ok byte
  | some table => (entry table byte).map fun n => n

/-- The text of the octets from `start` up to `stop`. -/
def cut (s : SourceCode) (start stop : Int) : Text :=
  Utf8.decodeReplacing (slice s.octets start stop)

def textOf (s : SourceCode) (m : Mark) : Text :=
  s.cut m.startByte m.endByte

/-- Line and column of an offset in the given row. -/
def position (s : SourceCode) (row : Nat) (offset : Int) : Except ConcreteFault Value := do
  let start ← entry s.lineStarts row
  .ok (Span.positionValue (.int (row + 1)) (.int (offset - start)))

/-- A node at the place of a concrete node, its position last among its fields; of the given fields
none can take the place of the position. -/
def place (s : SourceCode) (m : Mark) (tag : Text) (fields : Fields) :
    Except ConcreteFault Node := do
  let start ← s.offset m.startByte
  let stop ← s.offset m.endByte
  let first ← s.position m.start.row start
  let last ← s.position m.stop.row stop
  let ranged := fields.put "range" (.list [.int start, .int stop])
  .ok (Node.make tag (ranged.put "loc" (.record [("start", first), ("end", last)])))

end SourceCode

end EnvReads
