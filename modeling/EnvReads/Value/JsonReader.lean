import EnvReads.Double.Reader
import EnvReads.Value

/-!
# Reading JSON

A text is cut into lexemes, and the lexemes are folded into a value by a machine that keeps the
lists and records still open on a stack, up to a given number of them. Besides standard JSON the
words `NaN`, `Infinity` and `-Infinity` are numbers; an integer has at most `Text.maxDigits` digits.
Of two fields with one name the last value counts.
-/

namespace EnvReads

namespace Json

inductive Lexeme where
  | openList | closeList | openRecord | closeRecord | comma | colon
  | text (t : Text)
  | scalar (v : Value)
  /-- Here the text stops to make sense. -/
  | invalid

/-- The code point that a letter after a backslash stands for. -/
def simpleEscape? (c : CodePoint) : Option CodePoint :=
  if c = CodePoint.doubleQuote ∨ c = CodePoint.backslash ∨ c = '/' then some c
  else if c = 'n' then some '\n'
  else if c = 'r' then some '\r'
  else if c = 't' then some '\t'
  else if c = 'b' then some 8
  else if c = 'f' then some 12
  else none

/-- The code units of a string after its opening quote, and the text after its closing quote. -/
def stringUnits : Text → Option (Text × Text)
  | [] => none
  | c :: rest =>
    if c = CodePoint.doubleQuote then
      some ([], rest)
    else if c = CodePoint.backslash then
      match rest with
      | [] => none
      | letter :: more =>
        if letter = 'u' then
          match more with
          | h₁ :: h₂ :: h₃ :: h₄ :: after => do
            let digits ← [h₁, h₂, h₃, h₄].mapM CodePoint.hexDigit?
            let unit ← CodePoint.ofNat? (Text.ofDigits 16 digits)
            let (units, after) ← stringUnits after
            some (unit :: units, after)
          | _ => none
        else do
          let unit ← simpleEscape? letter
          let (units, after) ← stringUnits more
          some (unit :: units, after)
    else if c.val < 0x20 then
      none
    else do
      let (units, after) ← stringUnits rest
      some (c :: units, after)

/-- Joins each high surrogate with a low surrogate that follows it. -/
def joinSurrogates : Text → Text
  | high :: low :: rest =>
    if 0xD800 ≤ high.val ∧ high.val ≤ 0xDBFF ∧ 0xDC00 ≤ low.val ∧ low.val ≤ 0xDFFF then
      match CodePoint.ofNat? (0x10000 + (high.val - 0xD800) * 0x400 + (low.val - 0xDC00)) with
      | some c => c :: joinSurrogates rest
      | none => high :: joinSurrogates (low :: rest)
    else
      high :: joinSurrogates (low :: rest)
  | t => t

/-- Splits off the longest run of ASCII digits. -/
def takeAsciiDigits (t : Text) : Text × Text :=
  t.span CodePoint.isAsciiDigit

/-- A fraction: a point and at least one digit. Nothing is split off otherwise. -/
def takeFraction (t : Text) : Text × Text :=
  match t with
  | c :: rest =>
    if c = '.' then
      match takeAsciiDigits rest with
      | ([], _) => ([], t)
      | split => split
    else
      ([], t)
  | [] => ([], t)

/-- An exponent: `e` or `E`, an optional sign and at least one digit. -/
def takeExponent (t : Text) : Option Int × Text :=
  match t with
  | c :: rest =>
    if c = 'e' ∨ c = 'E' then
      let (negative, rest) := Double.takeSign rest
      match takeAsciiDigits rest with
      | ([], _) => (none, t)
      | (ds, after) =>
        let n : Int := (Text.numeral? 10 ds).getD 0
        (some (if negative then -n else n), after)
    else
      (none, t)
  | [] => (none, t)

/-- An unsigned number at the start of a text. -/
def number? (negative : Bool) (t : Text) : Option (Value × Text) :=
  let (ds, rest) := takeAsciiDigits t
  match ds with
  | [] => none
  | first :: more =>
    let (whole, rest) := if first = '0' then ([first], more ++ rest) else (ds, rest)
    let (fraction, rest) := takeFraction rest
    let (exponent, rest) := takeExponent rest
    let digits := (Text.numeral? 10 (whole ++ fraction)).getD 0
    if fraction.isEmpty && exponent.isNone then
      if whole.length ≤ Text.maxDigits then
        some (.int (if negative then -digits else digits), rest)
      else
        none
    else
      some (.float (Double.ofDecimal negative digits (exponent.getD 0 - fraction.length)), rest)

/-- The words that stand for values. -/
def words : List (Text × Value) :=
  [("null", .null), ("true", .bool true), ("false", .bool false), ("NaN", .float (.nan 0)),
    ("Infinity", .float (.infinity false)), ("-Infinity", .float (.infinity true))]

/-- The word at the start of a text. -/
def word? (t : Text) : Option (Value × Text) :=
  words.findSome? fun (word, v) => if word.isPrefixOf t then some (v, t.drop word.length) else none

/-- The lexeme at the start of a text that starts with no blank. -/
def lexeme? : Text → Option (Lexeme × Text)
  | [] => none
  | c :: rest =>
    if c = '[' then some (.openList, rest)
    else if c = ']' then some (.closeList, rest)
    else if c.val = 0x7B then some (.openRecord, rest)
    else if c.val = 0x7D then some (.closeRecord, rest)
    else if c = ',' then some (.comma, rest)
    else if c = ':' then some (.colon, rest)
    else if c = CodePoint.doubleQuote then
      (stringUnits rest).map fun (units, after) => (.text (joinSurrogates units), after)
    else
      match word? (c :: rest) with
      | some (v, after) => some (.scalar v, after)
      | none =>
        let found := if c = '-' then number? true rest else number? false (c :: rest)
        found.map fun (v, after) => (.scalar v, after)

def isSpace (c : CodePoint) : Bool :=
  c = ' ' || c = '\t' || c = '\n' || c = '\r'

/-- The lexemes of a text, at most `count` of them. -/
def lexemesUpTo : Nat → Text → List Lexeme
  | count, t =>
    match count, t.dropWhile isSpace with
    | _, [] => []
    | 0, _ => [.invalid]
    | count + 1, t =>
      match lexeme? t with
      | some (lexeme, rest) => lexeme :: lexemesUpTo count rest
      | none => [.invalid]

/-- The lexemes of a text; there are no more of them than code points. -/
def lexemes (t : Text) : List Lexeme :=
  lexemesUpTo t.length t

/-- Why a text denotes no value. -/
inductive ReadFault where
  | malformed
  /-- Too many lists and records are open at once. -/
  | tooDeep
deriving DecidableEq

/-- A list or a record that is still open. The items of a list are kept last first. -/
inductive Frame where
  | list (items : List Value)
  | record (fields : Fields) (key : Text)

/-- What has been read, and with it what may come next. -/
inductive State where
  | value (stack : List Frame)
  | firstItem (stack : List Frame)
  | firstKey (stack : List Frame)
  | key (fields : Fields) (stack : List Frame)
  | colon (fields : Fields) (key : Text) (stack : List Frame)
  | done (v : Value) (stack : List Frame)

namespace State

/-- The state inside a list or record that is opened, if one more may be open. -/
def nest (limit : Nat) (stack : List Frame) (inside : List Frame → State) :
    Except ReadFault State :=
  if stack.length < limit then .ok (inside stack) else .error .tooDeep

/-- A lexeme where a value is due. -/
def begin (limit : Nat) (stack : List Frame) : Lexeme → Except ReadFault State
  | .openList => nest limit stack firstItem
  | .openRecord => nest limit stack firstKey
  | .text t => .ok (done (.text t) stack)
  | .scalar v => .ok (done v stack)
  | _ => .error .malformed

def step (limit : Nat) : State → Lexeme → Except ReadFault State
  | value stack, lexeme => begin limit stack lexeme
  | firstItem stack, .closeList => .ok (done (.list []) stack)
  | firstItem stack, lexeme => begin limit (.list [] :: stack) lexeme
  | firstKey stack, .closeRecord => .ok (done (.record []) stack)
  | firstKey stack, .text t => .ok (colon [] t stack)
  | key fields stack, .text t => .ok (colon fields t stack)
  | colon fields name stack, .colon => .ok (value (.record fields name :: stack))
  | done v (.list items :: stack), .comma => .ok (value (.list (v :: items) :: stack))
  | done v (.list items :: stack), .closeList => .ok (done (.list (v :: items).reverse) stack)
  | done v (.record fields name :: stack), .comma => .ok (key (fields.put name v) stack)
  | done v (.record fields name :: stack), .closeRecord =>
    .ok (done (.record (fields.put name v)) stack)
  | _, _ => .error .malformed

def result : State → Except ReadFault Value
  | done v [] => .ok v
  | _ => .error .malformed

end State

/-- The value that a JSON text denotes, with at most `limit` lists and records open at once. -/
def read (limit : Nat) (t : Text) : Except ReadFault Value := do
  let final ← (lexemes t).foldlM (State.step limit) (State.value [])
  final.result

end Json

end EnvReads
