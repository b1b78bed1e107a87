import EnvReads.Text

/-!
# Blanks

The code points that Unicode counts as white space by their bidirectional class or category,
which includes the four information separators and leaves out U+200B and U+FEFF.
-/

namespace EnvReads

def CodePoint.blankRanges : List (Nat × Nat) :=
  [(0x9, 0xD), (0x1C, 0x20), (0x85, 0x85), (0xA0, 0xA0), (0x1680, 0x1680), (0x2000, 0x200A),
   (0x2028, 0x2029), (0x202F, 0x202F), (0x205F, 0x205F), (0x3000, 0x3000)]

def CodePoint.isBlank (c : CodePoint) : Bool :=
  c.within blankRanges

/-- The blanks that may stand beside a numeral: all but the information separators. -/
def CodePoint.isPadding (c : CodePoint) : Bool :=
  c.isBlank && !(0x1C ≤ c.val && c.val ≤ 0x1F)

namespace Text

/-- The maximal runs of non-blank code points, in order. -/
def words : Text → List Text
  | [] => []
  | c :: rest =>
    if c.isBlank then
      words rest
    else
      match rest with
      | [] => [[c]]
      | next :: _ =>
        if next.isBlank then
          [c] :: words rest
        else
          match words rest with
          | [] => [[c]]
          | word :: more => (c :: word) :: more

def trimEnd (t : Text) : Text :=
  dropEndWhile CodePoint.isBlank t

def dropPadding (t : Text) : Text :=
  dropEndWhile CodePoint.isPadding t

def dropBothPadding (t : Text) : Text :=
  dropBothWhile CodePoint.isPadding t

end Text

end EnvReads
