/-!
# Text

Text is a list of Unicode code points. JavaScript string literals can spell lone surrogates, so
the code points D800 to DFFF are members like any other; text that holds one cannot be written as
UTF-8 (`EnvReads.Text.Utf8`).
-/

namespace EnvReads

/-- A Unicode code point, surrogates included. -/
abbrev CodePoint := Fin 0x110000

namespace CodePoint

/-- Numerals are code points. -/
instance instNeZero : @NeZero Nat Zero.ofOfNat0 0x110000 := ⟨by decide⟩

def ofChar (c : Char) : CodePoint :=
  ⟨c.toNat, by
    have valid := c.valid
    simp only [UInt32.isValidChar, Nat.isValidChar] at valid
    have eq : c.toNat = c.val.toNat := rfl
    omega⟩

instance : Coe Char CodePoint := ⟨ofChar⟩

def doubleQuote : CodePoint := 0x22
def apostrophe : CodePoint := 0x27
def backslash : CodePoint := 0x5C
def slash : CodePoint := 0x2F
def dot : CodePoint := 0x2E

/-- The code point with number `n`, if there is one. -/
def ofNat? (n : Nat) : Option CodePoint :=
  if h : n < 0x110000 then some ⟨n, h⟩ else none

def isSurrogate (c : CodePoint) : Bool :=
  0xD800 ≤ c.val && c.val ≤ 0xDFFF

/-- Membership in a list of inclusive ranges. -/
def within (ranges : List (Nat × Nat)) (c : CodePoint) : Bool :=
  ranges.any fun (first, last) => first ≤ c.val && c.val ≤ last

end CodePoint

abbrev Text := List CodePoint

namespace Text

def ofString (s : String) : Text :=
  s.toList.map CodePoint.ofChar

instance : Coe String Text := ⟨ofString⟩

/-- The string with the same code points; a surrogate has no character and becomes U+FFFD. -/
def toString (t : Text) : String :=
  String.ofList (t.map fun c => if c.isSurrogate then '�' else Char.ofNat c.val)

/-- Pieces between the occurrences of `sep`; there is always at least one piece. -/
def splitOn (sep : CodePoint) : Text → List Text
  | [] => [[]]
  | c :: rest =>
    if c = sep then
      [] :: splitOn sep rest
    else
      match splitOn sep rest with
      | [] => [[c]]
      | piece :: pieces => (c :: piece) :: pieces

theorem not_mem_of_mem_splitOn {sep : CodePoint} {t part : Text} (h : part ∈ splitOn sep t) :
    sep ∉ part := by
  fun_induction splitOn sep t generalizing part with
  | case1 => cases List.mem_singleton.mp h; exact List.not_mem_nil
  | case2 rest ih =>
      rcases List.mem_cons.mp h with rfl | h
      · exact List.not_mem_nil
      · exact ih h
  | case3 c rest other split ih =>
      cases List.mem_singleton.mp h
      simpa using Ne.symm other
  | case4 c rest other piece pieces split ih =>
      rw [split] at ih
      rcases List.mem_cons.mp h with rfl | h
      · rw [List.mem_cons, not_or]
        exact ⟨Ne.symm other, ih List.mem_cons_self⟩
      · exact ih (.tail _ h)

/-- Lines of a text, each with the line feed that ends it. -/
def lines : Text → List Text
  | [] => []
  | c :: rest =>
    if c = '\n' then
      [c] :: lines rest
    else
      match lines rest with
      | [] => [[c]]
      | line :: more => (c :: line) :: more

def joinWith (sep : Text) : List Text → Text
  | [] => []
  | [t] => t
  | t :: ts => t ++ sep ++ joinWith sep ts

theorem joinWith_append {sep : Text} {names more : List Text} (first : names ≠ [])
    (second : more ≠ []) :
    joinWith sep (names ++ more) = joinWith sep names ++ sep ++ joinWith sep more := by
  fun_induction joinWith sep names with
  | case1 => exact absurd rfl first
  | case2 t =>
      obtain ⟨u, us, rfl⟩ := List.exists_cons_of_ne_nil second
      rfl
  | case3 t ts other ih =>
      rw [List.cons_append, joinWith, ih other]
      · simp
      · simpa using fun empty => absurd empty other

def startsWith (start t : Text) : Bool :=
  start.isPrefixOf t

def endsWith (stop t : Text) : Bool :=
  stop.isSuffixOf t

/-- Removes the longest tail all of whose members satisfy `p`. -/
def dropEndWhile (p : CodePoint → Bool) (t : Text) : Text :=
  (t.reverse.dropWhile p).reverse

def dropBothWhile (p : CodePoint → Bool) (t : Text) : Text :=
  dropEndWhile p (t.dropWhile p)

def replace (old : CodePoint) (new : Text) (t : Text) : Text :=
  t.flatMap fun c => if c = old then new else [c]

/-- `unifyNewlines`, told whether a carriage return was just read. -/
def unifyNewlinesAfter : Bool → Text → Text
  | _, [] => []
  | afterReturn, c :: rest =>
    if c = '\r' then
      '\n' :: unifyNewlinesAfter true rest
    else if afterReturn && c = '\n' then
      unifyNewlinesAfter false rest
    else
      c :: unifyNewlinesAfter false rest

/-- Carriage returns, alone or before a line feed, become line feeds. -/
def unifyNewlines (t : Text) : Text :=
  unifyNewlinesAfter false t

/-- Decimal digits of a number. -/
def ofNat (n : Nat) : Text :=
  (Nat.toDigits 10 n).map CodePoint.ofChar

def ofInt (n : Int) : Text :=
  if n < 0 then '-' :: ofNat n.natAbs else ofNat n.natAbs

/-- Lower-case hexadecimal digits, padded on the left to `width`. -/
def ofHex (width n : Nat) : Text :=
  let digits := (Nat.toDigits 16 n).map CodePoint.ofChar
  List.replicate (width - digits.length) (CodePoint.ofChar '0') ++ digits

end Text

/-- The index that `i` stands for in a list of the given length: negative ones count from the
end, and what is out of range is moved to the nearer end. -/
def clampIndex (length : Nat) (i : Int) : Nat :=
  if i < 0 then (length + i).toNat else min i.toNat length

/-- The members from index `start` up to index `stop`, read by `clampIndex`. -/
def slice {α : Type} (xs : List α) (start stop : Int) : List α :=
  let first := clampIndex xs.length start
  let last := clampIndex xs.length stop
  (xs.drop first).take (last - first)

end EnvReads
