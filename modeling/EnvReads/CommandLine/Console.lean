import EnvReads.Fault
import EnvReads.Text.Blank
import EnvReads.Text.Lower

/-!
# Consoles

What is said beside a report is printed with a library that reads markup: `[red]` begins a style and
`[/red]` ends it. All that is known of it is what it is asked for: it tells what is shown for a
text, and it may fail. The console that the program uses shows texts without their tags, and fails
at an end tag that ends nothing.
-/

namespace EnvReads

structure Console where
  /-- Whether the error stream is a terminal. Progress is shown there only. -/
  isTerminal : Bool
  /-- What is shown for a text. -/
  print : Text → Except Fault Text
  /-- What is shown for the paths that progress passes. -/
  draw : List Text → Except Fault Text

namespace Markup

inductive Token where
  | text (t : Text)
  | tag (t : Text)

def startsTag (c : CodePoint) : Bool :=
  ('a'.val.toNat ≤ c.val && c.val ≤ 'z'.val.toNat) || c = '#' || c = '/' || c = '@'

def isBracket (c : CodePoint) : Bool :=
  c = '[' || c = ']'

def isBackslash (c : CodePoint) : Bool :=
  c = CodePoint.backslash

/-- The tag after an opening bracket, if there is one, and the text after it. -/
def tag? (t : Text) : Option (Text × Text) :=
  match t.takeWhile (!isBracket ·), t.dropWhile (!isBracket ·) with
  | first :: rest, closing :: after =>
    if startsTag first && closing = ']' then some (first :: rest, after) else none
  | _, _ => none

theorem length_tag?_lt {t tag after : Text} (h : tag? t = some (tag, after)) :
    after.length < t.length := by
  rw [tag?] at h
  split at h
  · next first rest closing after' _ dropped =>
      split at h
      · cases h
        have shorter := (List.dropWhile_suffix (!isBracket ·) (l := t)).length_le
        rw [dropped, List.length_cons] at shorter
        exact shorter
      · cases h
  · cases h

/-- What stands before a bracket or another code point that begins no tag: a backslash before the
bracket is dropped. -/
def plain (slashes : Text) (c : CodePoint) : Text :=
  if c = '[' then slashes.dropLast ++ [c] else slashes ++ [c]

/-- The tokens of a text. Two backslashes before a tag stand for one, and a last one alone makes the
tag text. -/
def tokens (t : Text) : List Token :=
  let slashes := t.takeWhile isBackslash
  match _dropped : t.dropWhile isBackslash with
  | [] => [.text slashes]
  | c :: rest =>
    match found : if c = '[' then tag? rest else none with
    | none => .text (plain slashes c) :: tokens rest
    | some (tag, after) =>
      let half : Text := List.replicate (slashes.length / 2) CodePoint.backslash
      let token := if slashes.length % 2 = 0 then .tag tag else .text (c :: tag ++ "]")
      .text half :: token :: tokens after
termination_by t.length
decreasing_by
  · have shorter := (List.dropWhile_suffix isBackslash (l := t)).length_le
    rw [_dropped, List.length_cons] at shorter
    exact shorter
  · have shorter := (List.dropWhile_suffix isBackslash (l := t)).length_le
    rw [_dropped, List.length_cons] at shorter
    split at found
    · exact Nat.lt_trans (length_tag?_lt found) shorter
    · cases found

/-- The name of a style: what stands before an equals sign. -/
def styleName (tag : Text) : Text :=
  (Text.dropBothWhile CodePoint.isBlank (tag.takeWhile (· != CodePoint.ofChar '='))).lower

/-- Shows tokens, given the styles that have begun and not ended, the last first. -/
def show? (styles : List Text) : List Token → Except Fault Text
  | [] => .ok []
  | .text t :: rest => do
    let more ← show? styles rest
    return t ++ more
  | .tag tag :: rest =>
    if Text.startsWith "/" tag then
      let name := styleName (tag.drop 1)
      if name.isEmpty then
        if styles.isEmpty then .error .markup else show? styles.tail rest
      else if styles.contains name then
        show? (styles.erase name) rest
      else
        .error .markup
    else
      show? (styleName tag :: styles) rest

def render (t : Text) : Except Fault Text :=
  show? [] (tokens t)

end Markup

/-- The console that the program uses. It shows no progress. -/
def Console.standard : Console where
  isTerminal := false
  print t := (Markup.render t).map (· ++ "\n")
  draw _ := .ok []

end EnvReads
