import EnvReads.Fault
import EnvReads.Ignore.Piece
import EnvReads.Text.Blank

/-!
# Ignore patterns

One line of an ignore file. A pattern without an inner slash applies at any depth; `**` stands for
any directories; a pattern matches a directory together with all below it.
-/

namespace EnvReads

/-- What a pattern matches. -/
inductive PatternShape where
  | pieces (ps : List Piece)
  /-- Every path. -/
  | anything
  /-- Every path below a directory. -/
  | anyBelow

structure Pattern where
  /-- A negated pattern keeps what it matches. -/
  negated : Bool
  shape : PatternShape

/-- Why a component is no glob. -/
inductive GlobFault where
  /-- A bracket is not closed; the whole pattern is dropped. -/
  | unclosed
  /-- A backslash has nothing to quote. -/
  | dangling
deriving DecidableEq

namespace Glob

/-- Takes a code point of the given class off the front, if there is one. -/
def takeFirst (p : CodePoint → Bool) : Text → Text × Text
  | [] => ([], [])
  | c :: rest => if p c then ([c], rest) else ([], c :: rest)

def isNegation (c : CodePoint) : Bool :=
  c = '!' || c = '^'

def isClosing (c : CodePoint) : Bool :=
  c = ']'

/-- The members of a set and the text after its closing bracket, given the text after its opening
bracket and its negation. A bracket in first place is a member. -/
def members? (t : Text) : Option (Text × Text) :=
  let first := takeFirst isClosing t
  match first.2.dropWhile (!isClosing ·) with
  | [] => none
  | _ :: after => some (first.1 ++ first.2.takeWhile (!isClosing ·), after)

/-- The set after an opening bracket, and the text after it. -/
def set? (t : Text) : Option (CharSet × Text) :=
  let negation := takeFirst isNegation t
  (members? negation.2).map fun found =>
    (⟨!negation.1.isEmpty, CharSet.readRanges found.1⟩, found.2)

theorem length_takeFirst_le (p : CodePoint → Bool) (t : Text) :
    (takeFirst p t).2.length ≤ t.length := by
  cases t with
  | nil => exact Nat.le_refl _
  | cons c rest =>
    rw [takeFirst]
    split <;> simp

theorem length_members?_lt {t members after : Text} (h : members? t = some (members, after)) :
    after.length < t.length := by
  simp only [members?] at h
  split at h
  · cases h
  · next found =>
      cases h
      have shorter := (List.dropWhile_suffix (!isClosing ·)
        (l := (takeFirst isClosing t).2)).length_le
      rw [found, List.length_cons] at shorter
      exact Nat.lt_of_lt_of_le shorter (length_takeFirst_le isClosing t)

theorem length_set?_lt {t after : Text} {s : CharSet} (h : set? t = some (s, after)) :
    after.length < t.length := by
  obtain ⟨⟨members, rest⟩, found, eq⟩ := Option.map_eq_some_iff.1 h
  cases eq
  exact Nat.lt_of_lt_of_le (length_members?_lt found) (length_takeFirst_le isNegation t)

/-- The pieces of a component. -/
def read : Text → Except GlobFault (List Piece)
  | [] => .ok []
  | c :: rest =>
    if c = CodePoint.backslash then
      match rest with
      | [] => .error .dangling
      | d :: more => (read more).map (.literal d :: ·)
    else if c = '*' then
      (read rest).map (.many :: ·)
    else if c = '?' then
      (read rest).map (.one :: ·)
    else if c = '[' then
      match _h : set? rest with
      | none => .error .unclosed
      | some (s, after) => (read after).map (.set s :: ·)
    else
      (read rest).map (.literal c :: ·)
termination_by t => t.length
decreasing_by
  · exact Nat.lt_succ_of_lt (Nat.lt_succ_self more.length)
  · exact Nat.lt_succ_self rest.length
  · exact Nat.lt_succ_self rest.length
  · exact Nat.lt_succ_of_lt (length_set?_lt _h)
  · exact Nat.lt_succ_self rest.length

end Glob

namespace Pattern

def anyDirectories : Text := "**"
def anyComponent : Text := "*"

/-- The components of a pattern after it is tied to the root or made to apply at any depth, and
directories at its end are spelled out. -/
def components (segments : List Text) : List Text :=
  let tied :=
    match segments with
    | [] => []
    | first :: rest =>
      if first.isEmpty then rest
      else if (rest.isEmpty || rest = [[]]) && first != anyDirectories then
        anyDirectories :: segments
      else segments
  match tied.getLast? with
  | some [] => tied.dropLast ++ [anyDirectories]
  | _ => tied

/-- Leaves one of adjacent `**`. -/
def collapse : List Text → List Text
  | [] => []
  | first :: rest =>
    match collapse rest with
    | [] => [first]
    | next :: more =>
      if first = anyDirectories ∧ next = anyDirectories then next :: more else first :: next :: more

/-- The pieces of one component that is not `**`. -/
def componentPieces (segment : Text) : Except GlobFault (List Piece) :=
  if segment = anyComponent then .ok [.component] else Glob.read segment

/-- The pieces of the components after the first ones; `joined` tells whether a slash must come
before the next plain component. -/
def piecesFrom (joined : Bool) : List Text → Except GlobFault (List Piece)
  | [] => .ok []
  | segment :: rest =>
    if segment = anyDirectories then
      if rest.isEmpty then
        .ok [.literal CodePoint.slash]
      else
        (piecesFrom true rest).map (.between :: ·)
    else do
      let before := if joined then [Piece.literal CodePoint.slash] else []
      let here ← componentPieces segment
      let after := if rest.isEmpty then [Piece.stop] else []
      let more ← piecesFrom true rest
      .ok (before ++ here ++ after ++ more)

/-- The pieces of all components. -/
def pieces (segments : List Text) : Except GlobFault (List Piece) :=
  match segments with
  | [] => .ok []
  | first :: rest =>
    if first = anyDirectories then
      (piecesFrom false rest).map (.leading :: ·)
    else
      piecesFrom false segments

def hasDescendingRange (ps : List Piece) : Bool :=
  ps.any fun
    | .set s => s.isDescending
    | _ => false

/-- The shape of a pattern from its components; none if the pattern is dropped. -/
def shape? (forDirectories : Bool) (segments : List Text) :
    Except Fault (Option PatternShape) :=
  if segments = [anyDirectories] then
    .ok (some (if forDirectories then .anyBelow else .anything))
  else if segments = [anyDirectories, anyComponent] then
    .ok (some .anything)
  else if segments = [anyDirectories, anyComponent, anyDirectories] then
    .ok (some .anyBelow)
  else
    match pieces segments with
    | .error .unclosed => .ok none
    | .error .dangling => .error .ignorePattern
    | .ok ps => if hasDescendingRange ps then .error .ignoreRange else .ok (some (.pieces ps))

/-- A line without the blanks at its end, unless the last one is quoted. -/
def trimLine (line : Text) : Text :=
  if Text.endsWith "\\ " line then line else line.trimEnd

/-- The pattern of a line; blank lines, comments and a lone slash are none. -/
def read? (line : Text) : Except Fault (Option Pattern) :=
  let t := trimLine line
  if t.isEmpty || Text.startsWith "#" t || t = "/" then
    .ok none
  else
    let negated := Text.startsWith "!" t
    let segments := Text.splitOn CodePoint.slash (if negated then t.drop 1 else t)
    let forDirectories := segments.getLast? = some []
    match components segments with
    | [] => .error .ignorePattern
    | parts => (shape? forDirectories (collapse parts)).map (·.map fun shape => ⟨negated, shape⟩)

/-- Whether a pattern matches a path. -/
def isMatch (p : Pattern) (path : Text) : Bool :=
  match p.shape with
  | .pieces ps => Piece.matchAll ps path
  | .anything => path.any (· != Piece.lineFeed)
  | .anyBelow => path.contains CodePoint.slash

end Pattern

end EnvReads
