import EnvReads.Text.Digit

/-!
# JavaScript escapes

The value of the text between the quotes of a JavaScript string. An escape is a backslash with a
code in hexadecimal digits, a letter, a line terminator (which joins two lines and stands for
nothing), or any other code point, which stands for itself. A surrogate pair stays two code points.
-/

namespace EnvReads

/-- Why an escape has no value. -/
inductive EscapeFault where
  /-- The code lies beyond the last code point. -/
  | beyondUnicode
  /-- The code does not even fit 31 bits. -/
  | beyondWord
deriving DecidableEq

def EscapeFault.message : EscapeFault → Text
  | beyondUnicode => "chr() arg not in range(0x110000)"
  | beyondWord => "Python int too large to convert to C int"

namespace Escape

/-- Splits off the longest run of hexadecimal digits. -/
def takeHex : Text → List Nat × Text
  | [] => ([], [])
  | c :: rest =>
    match c.hexDigit? with
    | some d => let (ds, after) := takeHex rest; (d :: ds, after)
    | none => ([], c :: rest)

theorem length_takeHex_le (t : Text) : (takeHex t).2.length ≤ t.length := by
  induction t with
  | nil => simp [takeHex]
  | cons c rest ih =>
      unfold takeHex
      split
      · simp
        omega
      · simp

/-- At least one hexadecimal digit between braces. -/
def braced? : Text → Option (List Nat × Text)
  | [] => none
  | c :: rest =>
    if c.val = 0x7B then
      match takeHex rest with
      | ([], _) => none
      | (_, []) => none
      | (ds, d :: after) => if d.val = 0x7D then some (ds, after) else none
    else
      none

/-- Exactly `count` hexadecimal digits. -/
def fixed? : Nat → Text → Option (List Nat × Text)
  | 0, t => some ([], t)
  | _ + 1, [] => none
  | count + 1, c :: rest => do
    let d ← c.hexDigit?
    let (ds, after) ← fixed? count rest
    some (d :: ds, after)

theorem length_braced?_le {t after : Text} {ds : List Nat} (h : braced? t = some (ds, after)) :
    after.length ≤ t.length := by
  unfold braced? at h
  split at h
  · cases h
  · next c rest =>
      have := length_takeHex_le rest
      split at h
      · split at h
        · cases h
        · cases h
        · next ds' d after' eq =>
            split at h
            · cases h
              simp [eq] at this
              simp
              omega
            · cases h
      · cases h

theorem length_fixed?_le {count : Nat} {t after : Text} {ds : List Nat}
    (h : fixed? count t = some (ds, after)) : after.length ≤ t.length := by
  induction count generalizing t ds with
  | zero => simp [fixed?] at h; simp [h]
  | succ count ih =>
      cases t with
      | nil => simp [fixed?] at h
      | cons c rest =>
          simp only [fixed?, Option.bind_eq_bind, Option.bind_eq_some_iff] at h
          obtain ⟨d, _, ⟨ds', after'⟩, found, eq⟩ := h
          cases eq
          have : after'.length ≤ rest.length := ih found
          simp
          omega

/-- The code point with the given hexadecimal digits. -/
def ofCode (digits : List Nat) : Except EscapeFault Text :=
  let n := Text.ofDigits 16 digits
  match CodePoint.ofNat? n with
  | some c => .ok [c]
  | none => .error (if n < 0x80000000 then .beyondUnicode else .beyondWord)

/-- What a backslash before a single code point stands for. -/
def ofLetter (c : CodePoint) : Text :=
  if c = 'n' then ['\n']
  else if c = 't' then ['\t']
  else if c = 'r' then ['\r']
  else if c = 'b' then [8]
  else if c = 'f' then [12]
  else if c = 'v' then [11]
  else if c = '0' then [0]
  else if c = '\n' ∨ c = '\r' ∨ c.val = 0x2028 ∨ c.val = 0x2029 then []
  else [c]

/-- What the escape at the start of a text, its backslash taken off, stands for, and the text
after it. There is none only at the end of the text. -/
def read? : Text → Option (Except EscapeFault Text × Text)
  | [] => none
  | c :: rest =>
    if c = 'u' then
      match braced? rest with
      | some (ds, after) => some (ofCode ds, after)
      | none =>
        match fixed? 4 rest with
        | some (ds, after) => some (ofCode ds, after)
        | none => some (.ok [c], rest)
    else if c = 'x' then
      match fixed? 2 rest with
      | some (ds, after) => some (ofCode ds, after)
      | none => some (.ok [c], rest)
    else if c = '\r' then
      match rest with
      | d :: after => some (.ok [], if d = '\n' then after else rest)
      | [] => some (.ok [], [])
    else
      some (.ok (ofLetter c), rest)

theorem length_lt_of_read? {t after : Text} {value : Except EscapeFault Text}
    (h : read? t = some (value, after)) : after.length < t.length := by
  unfold read? at h
  split at h
  · cases h
  · next c rest =>
      split at h
      · split at h
        · next found =>
            cases h
            have := length_braced?_le found
            simp
            omega
        · split at h
          · next found =>
              cases h
              have := length_fixed?_le found
              simp
              omega
          · cases h
            simp
      · split at h
        · split at h
          · next found =>
              cases h
              have := length_fixed?_le found
              simp
              omega
          · cases h
            simp
        · split at h
          · split at h
            · cases h
              split <;> simp only [List.length_cons] <;> omega
            · cases h
              simp
          · cases h
            simp

end Escape

/-- The value of a string from the text between its quotes. A backslash at the very end stays. -/
def unescape : Text → Except EscapeFault Text
  | [] => .ok []
  | c :: rest =>
    if c = CodePoint.backslash then
      match _h : Escape.read? rest with
      | none => .ok (c :: rest)
      | some (value, after) => do
        let head ← value
        let tail ← unescape after
        .ok (head ++ tail)
    else do
      let tail ← unescape rest
      .ok (c :: tail)
termination_by t => t.length
decreasing_by
  · have := Escape.length_lt_of_read? _h
    simp
    omega
  · simp

end EnvReads
