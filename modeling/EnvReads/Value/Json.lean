import EnvReads.Double.Spelling
import EnvReads.Text.Utf8
import EnvReads.Value.Writable

/-!
# JSON text of values

Two blanks of indentation per level, one member per line, fields in their order. Only quotes,
backslashes and controls below the space are escaped. The text is made in pieces: where one cannot
be made or written, those before it have been written already.
-/

namespace EnvReads

namespace Json

/-- A code point inside a JSON string. -/
def escape (c : CodePoint) : Text :=
  if c = CodePoint.doubleQuote ∨ c = CodePoint.backslash then [CodePoint.backslash, c]
  else if c = '\n' then "\\n"
  else if c = '\r' then "\\r"
  else if c = '\t' then "\\t"
  else if c.val = 8 then "\\b"
  else if c.val = 12 then "\\f"
  else if c.val < 0x20 then ("\\u" : Text) ++ Text.ofHex 4 c.val
  else [c]

def quote (t : Text) : Text :=
  CodePoint.doubleQuote :: t.flatMap escape ++ [CodePoint.doubleQuote]

/-- A line feed and the indentation of a level. -/
def newline (level : Nat) : Text :=
  '\n' :: List.replicate (2 * level) (CodePoint.ofChar ' ')

/-- A piece of a JSON text. There is none for an integer with too many digits. -/
abbrev Chunk := Except Fault Text

def ofInt (n : Int) : Chunk :=
  if Text.fitsDigits Text.maxDigits n.natAbs then .ok (Text.ofInt n) else .error .longInteger

/-- Whether the text of a value comes in one piece with what stands before it in a list. -/
def isSimple : Value → Bool
  | .list _ | .record _ => false
  | _ => true

/-- Puts text before the pieces of a value. -/
def lead (before : Text) (v : Value) (chunks : List Chunk) : List Chunk :=
  if isSimple v then chunks.map (·.map (before ++ ·)) else .ok before :: chunks

mutual

/-- The JSON text of a value in the pieces in which it is written. -/
def chunks (level : Nat) : Value → List Chunk
  | .null => [.ok "null"]
  | .bool b => [.ok (if b then "true" else "false")]
  | .int n => [ofInt n]
  | .float x => [.ok (x.spell Double.json)]
  | .text t => [.ok (quote t)]
  | .list items =>
    if items.isEmpty then [.ok "[]"]
    else chunksOfItems (level + 1) "[" items ++ [.ok (newline level), .ok "]"]
  | .record fields =>
    if fields.isEmpty then [.ok "\x7b\x7d"]
    else
      .ok "\x7b" :: chunksOfFields (level + 1) [] fields ++ [.ok (newline level), .ok "\x7d"]

/-- Items on lines of their own; `before` ends the line above. -/
def chunksOfItems (level : Nat) (before : Text) : List Value → List Chunk
  | [] => []
  | v :: rest =>
    lead (before ++ newline level) v (chunks level v) ++ chunksOfItems level "," rest

/-- Fields on lines of their own; `before` ends the line above. -/
def chunksOfFields (level : Nat) (before : Text) : List (Text × Value) → List Chunk
  | [] => []
  | (name, v) :: rest =>
    .ok (before ++ newline level) :: .ok (quote name) :: .ok ": " :: chunks level v ++
      chunksOfFields level "," rest

end

/-- The text that pieces make up. -/
def assemble : List Chunk → Except Fault Text
  | [] => .ok []
  | chunk :: rest => do
    let t ← chunk
    let more ← assemble rest
    return t ++ more

/-- The JSON text of a value, provided that the value can be written. -/
def write (v : Value) : Except Fault Text :=
  assemble (chunks 0 v)

/-- What pieces leave in a file when they are written one after the other, and the fault of the
first that cannot be. -/
def emit : List Chunk → List UInt8 × Except Fault Unit
  | [] => ([], .ok ())
  | .error fault :: _ => ([], .error fault)
  | .ok t :: rest =>
    match Utf8.encode? t with
    | none => ([], .error .unencodable)
    | some octets => (octets ++ (emit rest).1, (emit rest).2)

end Json

end EnvReads
