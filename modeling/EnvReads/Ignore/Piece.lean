import EnvReads.Text

/-!
# Pieces of ignore patterns

An ignore pattern is matched piece by piece from the start of a path. A piece can match a path in
several ways, so what is kept between two pieces is the set of all places that can be reached, one
mark for each place.
-/

namespace EnvReads

/-- A set of code points in brackets. -/
structure CharSet where
  negated : Bool
  ranges : List (CodePoint × CodePoint)

namespace CharSet

/-- The ranges that the members between brackets spell: `a-z`, or single code points. A hyphen at
the end stands for itself. -/
def readRanges : Text → List (CodePoint × CodePoint)
  | [] => []
  | c :: rest =>
    match rest with
    | [] => [(c, c)]
    | d :: more =>
      if d = '-' then
        match more with
        | [] => [(c, c), (d, d)]
        | last :: others => (c, last) :: readRanges others
      else
        (c, c) :: readRanges (d :: more)

def contains (s : CharSet) (c : CodePoint) : Bool :=
  (s.ranges.any fun (first, last) => first ≤ c && c ≤ last) != s.negated

/-- A range whose ends are in the wrong order. -/
def isDescending (s : CharSet) : Bool :=
  s.ranges.any fun (first, last) => last < first

end CharSet

inductive Piece where
  | literal (c : CodePoint)
  /-- Any code point but a slash. -/
  | one
  /-- Any number of code points but slashes. -/
  | many
  /-- A whole component, whatever it is. -/
  | component
  | set (s : CharSet)
  /-- Leading directories, or none. -/
  | leading
  /-- A slash and directories after it, or nothing. -/
  | between
  /-- A slash, or the end of the path; a final line feed may be left over. -/
  | stop

namespace Piece

def lineFeed : CodePoint := 0xA

/-- For each place in a path, from the one before its first code point to the one after its last,
whether it can be reached. -/
abbrev Marks := List Bool

namespace Marks

/-- Only the start of the path is reached. -/
def start (t : Text) : Marks :=
  true :: t.map fun _ => false

/-- The places one code point of the given class further on. -/
def step (p : CodePoint → Bool) (t : Text) (marks : Marks) : Marks :=
  false :: List.zipWith (fun mark c => mark && p c) marks t

/-- The places any number of code points of the given class further on; `reached` tells whether
the first place can be reached from before. -/
def spread (p : CodePoint → Bool) (reached : Bool) : Text → Marks → Marks
  | _, [] => []
  | [], mark :: _ => [reached || mark]
  | c :: t, mark :: marks =>
    let here := reached || mark
    here :: spread p (here && p c) t marks

/-- The places reached in one of two ways. -/
def union (marks others : Marks) : Marks :=
  List.zipWith (· || ·) marks others

/-- The places at the end of the path, or before a line feed that ends it. -/
def atEnd : Text → Marks → Marks
  | [], marks => marks
  | c :: t, mark :: marks => (mark && t.isEmpty && c = lineFeed) :: atEnd t marks
  | _ :: _, [] => []

end Marks

def isSlash (c : CodePoint) : Bool :=
  c = CodePoint.slash

def isNotSlash (c : CodePoint) : Bool :=
  c != CodePoint.slash

def isNotLineFeed (c : CodePoint) : Bool :=
  c != lineFeed

/-- The places that are reached by matching a piece from a marked place. -/
def advance (t : Text) (marks : Marks) : Piece → Marks
  | literal c => marks.step (· = c) t
  | one => marks.step isNotSlash t
  | many => Marks.spread isNotSlash false t marks
  | component => Marks.spread isNotSlash false t (marks.step isNotSlash t)
  | set s => marks.step s.contains t
  | leading =>
    let named := Marks.spread isNotLineFeed false t (marks.step isNotLineFeed t)
    marks.union (named.step isSlash t)
  | between =>
    let named := (marks.step isSlash t).step isNotLineFeed t
    marks.union (Marks.spread isNotLineFeed false t named)
  | stop => (marks.step isSlash t).union (Marks.atEnd t marks)

/-- Whether the pieces, one after the other, match an initial part of a path. -/
def matchAll (ps : List Piece) (t : Text) : Bool :=
  (ps.foldl (advance t) (Marks.start t)).any id

end Piece

end EnvReads
