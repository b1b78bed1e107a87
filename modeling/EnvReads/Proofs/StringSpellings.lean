import EnvReads.Concrete.Escape
import EnvReads.Proofs.Outcome

/-!
# Spellings of a string

A JavaScript string can be spelled in many ways: each of its code points (`Escape.Spells`) as itself
or by one of several escapes, with lines continued anywhere between them (`Spelled`). Whatever way
is taken, `unescape` gives the string back: a spelling is read to its end and not beyond, so what
comes after it makes no difference.
-/

namespace EnvReads

namespace Escape

/-! ## Hexadecimal numerals -/

/-- The character is the hexadecimal digit of the value, in lower or upper case. -/
def IsHexDigit (c : CodePoint) (value : Nat) : Prop :=
  (Text.ofString "0123456789abcdef")[value]? = some c ∨
    (Text.ofString "0123456789ABCDEF")[value]? = some c

/-- `Denotes t n`: the hexadecimal digits `t` are a numeral of `n`, which may start with zeros. -/
inductive Denotes : Text → Nat → Prop
  | nil : Denotes [] 0
  | digit {t : Text} {n value : Nat} {c : CodePoint} : Denotes t n → IsHexDigit c value →
      Denotes (t ++ [c]) (n * 16 + value)

/-- A digit is read as its value. -/
theorem hexDigit?_of_isHexDigit {c : CodePoint} {value : Nat} (h : IsHexDigit c value) :
    c.hexDigit? = some value := by
  have table : ∀ i : Fin 16,
      ((Text.ofString "0123456789abcdef")[i.val]?.all (·.hexDigit? = some i.val)) ∧
        (Text.ofString "0123456789ABCDEF")[i.val]?.all (·.hexDigit? = some i.val) := by
    decide
  have bound : value < 16 := by
    rcases h with h | h
    · exact (List.getElem?_eq_some_iff.mp h).1
    · exact (List.getElem?_eq_some_iff.mp h).1
  obtain ⟨lower, upper⟩ := table ⟨value, bound⟩
  rcases h with h | h
  · simpa [h] using lower
  · simpa [h] using upper

/-- The digits of a numeral are read one by one, and they give its number. -/
theorem Denotes.exists_digits {t : Text} {n : Nat} (h : Denotes t n) :
    ∃ ds, t.mapM CodePoint.hexDigit? = some ds ∧ Text.ofDigits 16 ds = n := by
  induction h with
  | nil => exact ⟨[], rfl, rfl⟩
  | @digit t n value c _ digit ih =>
      obtain ⟨ds, read, number⟩ := ih
      refine ⟨ds ++ [value], ?_, ?_⟩
      · simp [List.mapM_append, read, hexDigit?_of_isHexDigit digit]
      · simp [Text.ofDigits, ← number]

/-- As many digits as asked for are read. -/
theorem fixed?_append {digits : Text} {ds : List Nat}
    (h : digits.mapM CodePoint.hexDigit? = some ds) (rest : Text) :
    fixed? digits.length (digits ++ rest) = some (ds, rest) := by
  induction digits generalizing ds with
  | nil =>
      cases h
      rfl
  | cons c digits ih =>
      simp only [List.mapM_cons, Option.bind_eq_bind, Option.bind_eq_some_iff] at h
      obtain ⟨d, first, ds', later, same⟩ := h
      cases same
      simp [fixed?, first, ih later]

/-- The longest run of digits ends where something else follows. -/
theorem takeHex_append {digits : Text} {ds : List Nat}
    (h : digits.mapM CodePoint.hexDigit? = some ds) {c : CodePoint} (stop : c.hexDigit? = none)
    (rest : Text) : takeHex (digits ++ c :: rest) = (ds, c :: rest) := by
  induction digits generalizing ds with
  | nil =>
      cases h
      simp [takeHex, stop]
  | cons d digits ih =>
      simp only [List.mapM_cons, Option.bind_eq_bind, Option.bind_eq_some_iff] at h
      obtain ⟨v, first, ds', later, same⟩ := h
      cases same
      simp [takeHex, first, ih later]

/-- The braces around a code. -/
def opening : CodePoint := 0x7B

@[inherit_doc opening] def closing : CodePoint := 0x7D

/-- Digits in braces are read up to the closing brace. -/
theorem braced?_append {digits : Text} {ds : List Nat}
    (h : digits.mapM CodePoint.hexDigit? = some ds) (nonempty : digits ≠ []) (rest : Text) :
    braced? (opening :: digits ++ closing :: rest) = some (ds, rest) := by
  have stop : closing.hexDigit? = none := by decide
  have taken := takeHex_append h stop rest
  have between : opening.val = 0x7B ∧ closing.val = 0x7D := by decide
  obtain ⟨c, digits, rfl⟩ := List.exists_cons_of_ne_nil nonempty
  simp only [List.mapM_cons, Option.bind_eq_bind, Option.bind_eq_some_iff] at h
  obtain ⟨d, -, ds', -, same⟩ := h
  cases same
  rw [List.cons_append, braced?, if_pos between.1, taken]
  exact if_pos between.2

theorem ofCode_of_val {ds : List Nat} {c : CodePoint} (h : Text.ofDigits 16 ds = c.val) :
    ofCode ds = .ok [c] := by
  have found : CodePoint.ofNat? c.val = some c := by simp [CodePoint.ofNat?]
  rw [ofCode, h, found]

/-! ## Spellings of code points -/

/-- The letters that stand for a code point when a backslash is before them. -/
def letters : List (CodePoint × CodePoint) :=
  [(CodePoint.ofChar 'n', 0x0A), (CodePoint.ofChar 't', 0x09), (CodePoint.ofChar 'r', 0x0D),
    (CodePoint.ofChar 'b', 0x08), (CodePoint.ofChar 'f', 0x0C), (CodePoint.ofChar 'v', 0x0B),
    (CodePoint.ofChar '0', 0x00)]

/-- The ends of a line. -/
def lineEnds : List Text :=
  [[0x0A], [0x0D], [0x0D, 0x0A], [0x2028], [0x2029]]

/-- Code points before which a backslash has a meaning of its own: letters of escapes, digits and
ends of a line. -/
def isReserved (c : CodePoint) : Bool :=
  (Text.ofString "ntrbfvux0123456789").contains c || lineEnds.contains [c]

/-- `Spells c t`: between the quotes of a string, `t` is a spelling of the code point `c`. -/
inductive Spells : CodePoint → Text → Prop
  | raw {c : CodePoint} : c ≠ CodePoint.backslash → Spells c [c]
  | letter {c l : CodePoint} : (l, c) ∈ letters → Spells c [CodePoint.backslash, l]
  | twoDigits {c : CodePoint} {digits : Text} : Denotes digits c.val → digits.length = 2 →
      Spells c (CodePoint.backslash :: CodePoint.ofChar 'x' :: digits)
  | fourDigits {c : CodePoint} {digits : Text} : Denotes digits c.val → digits.length = 4 →
      Spells c (CodePoint.backslash :: CodePoint.ofChar 'u' :: digits)
  | braced {c : CodePoint} {digits : Text} : Denotes digits c.val → digits ≠ [] →
      Spells c (CodePoint.backslash :: CodePoint.ofChar 'u' :: opening :: digits ++ [closing])
  | escaped {c : CodePoint} : ¬isReserved c → Spells c [CodePoint.backslash, c]

/-! ## Reading a spelling -/

/-- What an escape at the start of a text comes to. -/
theorem unescape_of_read? {t head after : Text} (h : read? t = some (.ok head, after)) :
    unescape (CodePoint.backslash :: t) = (unescape after).map (head ++ ·) := by
  rw [unescape, if_pos rfl]
  split
  · next missing => cases missing.symm.trans h
  · next found =>
      cases found.symm.trans h
      cases unescape after <;> rfl

theorem read?_of_ne {c : CodePoint} {rest : Text} (u : c ≠ CodePoint.ofChar 'u')
    (x : c ≠ CodePoint.ofChar 'x') (r : c ≠ CodePoint.ofChar '\r') :
    read? (c :: rest) = some (.ok (ofLetter c), rest) := by
  simp only [read?, if_neg u, if_neg x, if_neg r]

/-- A letter that stands for a code point is read as that. -/
theorem read?_letter {l c : CodePoint} (h : (l, c) ∈ letters) (rest : Text) :
    read? (l :: rest) = some (.ok [c], rest) := by
  have table : ∀ pair ∈ letters, ofLetter pair.1 = [pair.2] ∧ pair.1 ≠ CodePoint.ofChar 'u' ∧
      pair.1 ≠ CodePoint.ofChar 'x' ∧ pair.1 ≠ CodePoint.ofChar '\r' := by
    simp only [letters, List.forall_mem_cons]
    refine ⟨?_, ?_, ?_, ?_, ?_, ?_, ?_, List.forall_mem_nil _⟩ <;>
      exact ⟨rfl, by decide, by decide, by decide⟩
  obtain ⟨value, u, x, r⟩ := table _ h
  rw [read?_of_ne u x r, value]

/-- Two digits after `x` are read as the code point. -/
theorem read?_twoDigits {c : CodePoint} {digits : Text} (h : Denotes digits c.val)
    (two : digits.length = 2) (rest : Text) :
    read? (CodePoint.ofChar 'x' :: digits ++ rest) = some (.ok [c], rest) := by
  obtain ⟨ds, read, number⟩ := h.exists_digits
  have fixed := fixed?_append read rest
  rw [two] at fixed
  have notU : CodePoint.ofChar 'x' ≠ CodePoint.ofChar 'u' := by decide
  simp only [List.cons_append, read?, if_neg notU, if_true, fixed, ofCode_of_val number]

/-- Four digits are read as such, since a digit is no brace. -/
theorem read?_fourDigits {c : CodePoint} {digits : Text} (h : Denotes digits c.val)
    (four : digits.length = 4) (rest : Text) :
    read? (CodePoint.ofChar 'u' :: digits ++ rest) = some (.ok [c], rest) := by
  obtain ⟨ds, read, number⟩ := h.exists_digits
  have fixed := fixed?_append read rest
  rw [four] at fixed
  have unbraced : braced? (digits ++ rest) = none := by
    obtain ⟨first, digits, rfl⟩ := List.exists_cons_of_length_eq_add_one four
    simp only [List.mapM_cons, Option.bind_eq_bind, Option.bind_eq_some_iff] at read
    obtain ⟨d, digit, -⟩ := read
    have brace : first.val ≠ 0x7B := by
      intro same
      have : first = opening := Fin.ext same
      rw [this] at digit
      cases digit
    rw [List.cons_append, braced?, if_neg brace]
  simp only [List.cons_append, read?, if_true, unbraced, fixed, ofCode_of_val number]

/-- Digits in braces after `u` are read as the code point. -/
theorem read?_braced {c : CodePoint} {digits : Text} (h : Denotes digits c.val)
    (nonempty : digits ≠ []) (rest : Text) :
    read? (CodePoint.ofChar 'u' :: opening :: digits ++ closing :: rest) =
      some (.ok [c], rest) := by
  obtain ⟨ds, read, number⟩ := h.exists_digits
  have braced := braced?_append read nonempty rest
  simp only [List.cons_append] at braced ⊢
  simp only [read?, if_true, braced, ofCode_of_val number]

/-- Any other code point stands for itself. -/
theorem read?_escaped {c : CodePoint} (h : ¬isReserved c) (rest : Text) :
    read? (c :: rest) = some (.ok [c], rest) := by
  have other : ∀ d, isReserved d → c ≠ d := by
    rintro d reserved rfl
    exact h reserved
  have letter : ofLetter c = [c] := by
    have feed : c.val ≠ 0x2028 ∧ c.val ≠ 0x2029 :=
      ⟨fun same => other 0x2028 (by decide) (Fin.ext same),
        fun same => other 0x2029 (by decide) (Fin.ext same)⟩
    simp only [ofLetter, other (CodePoint.ofChar 'n') (by decide),
      other (CodePoint.ofChar 't') (by decide), other (CodePoint.ofChar 'r') (by decide),
      other (CodePoint.ofChar 'b') (by decide), other (CodePoint.ofChar 'f') (by decide),
      other (CodePoint.ofChar 'v') (by decide), other (CodePoint.ofChar '0') (by decide),
      other (CodePoint.ofChar '\n') (by decide), other (CodePoint.ofChar '\r') (by decide),
      feed.1, feed.2, or_self, if_false]
  rw [read?_of_ne (other _ (by decide)) (other _ (by decide)) (other _ (by decide)), letter]

/-- The escape of an end of a line stands for nothing, and is read to the end of that line and no
further. -/
theorem read?_lineEnd {stop rest : Text} (h : stop ∈ lineEnds)
    (alone : stop = [0x0D] → rest.head? ≠ some 0x0A) :
    read? (stop ++ rest) = some (.ok [], rest) := by
  simp only [lineEnds, List.mem_cons, List.not_mem_nil, or_false] at h
  rcases h with rfl | rfl | rfl | rfl | rfl
  · exact read?_of_ne (by decide) (by decide) (by decide)
  · have next := alone rfl
    cases rest with
    | nil => rfl
    | cons d after =>
        have other : d ≠ CodePoint.ofChar '\n' := by
          rintro rfl
          exact next rfl
        change some (Except.ok [], if d = CodePoint.ofChar '\n' then after else d :: after) = _
        rw [if_neg other]
  · rfl
  · exact read?_of_ne (by decide) (by decide) (by decide)
  · exact read?_of_ne (by decide) (by decide) (by decide)

/-- A spelling is read to its end, whatever comes after it. -/
theorem unescape_spells {c : CodePoint} {piece : Text} (h : Spells c piece) (t : Text) :
    unescape (piece ++ t) = (unescape t).map (c :: ·) := by
  cases h with
  | raw plain =>
      rw [List.singleton_append, unescape, if_neg plain]
      cases unescape t <;> rfl
  | letter pair => exact unescape_of_read? (read?_letter pair t)
  | twoDigits number two => exact unescape_of_read? (read?_twoDigits number two t)
  | fourDigits number four => exact unescape_of_read? (read?_fourDigits number four t)
  | braced number nonempty =>
      rw [List.append_assoc]
      exact unescape_of_read? (read?_braced number nonempty t)
  | escaped free => exact unescape_of_read? (read?_escaped free t)

end Escape

/-- `Spelled cs t`: the text `t` between the quotes of a string spells the code points `cs`, one
after the other, with any number of continued lines. A continuation by a carriage return must not
have a line feed after it, with which it would be one end of a line. -/
inductive Spelled : Text → Text → Prop
  | nil : Spelled [] []
  | point {c : CodePoint} {piece cs t : Text} : Escape.Spells c piece → Spelled cs t →
      Spelled (c :: cs) (piece ++ t)
  | continued {stop cs t : Text} : stop ∈ Escape.lineEnds →
      (stop = [0x0D] → t.head? ≠ some 0x0A) → Spelled cs t →
      Spelled cs (CodePoint.backslash :: stop ++ t)

/-- Every way to spell a string is undone: the value of the text is the code points that it spells,
in their order and nothing else. -/
theorem unescape_of_spelled {cs t : Text} (h : Spelled cs t) : unescape t = .ok cs := by
  induction h with
  | nil => rw [unescape]
  | point spelling _ ih =>
      rw [Escape.unescape_spells spelling, ih]
      rfl
  | continued stop alone _ ih =>
      rw [List.cons_append, Escape.unescape_of_read? (Escape.read?_lineEnd stop alone), ih]
      rfl

open Escape in
/-- Two digits with a digit after them, a line continued by a carriage return with the escape of a
line feed after it, a code in braces with zeros and digits of both cases, and a null before a
digit. -/
theorem unescape_of_spelled_mixed : ∃ t : Text,
    t = Text.ofString "\\x411\\\r\\n\\u\x7b0eF\x7d\\0\\\r\n7\\\\" ∧
      Spelled [0x41, 0x31, 0x0A, 0xEF, 0x00, 0x37, 0x5C] t ∧
      unescape t = .ok [0x41, 0x31, 0x0A, 0xEF, 0x00, 0x37, 0x5C] := by
  have four : IsHexDigit 0x34 4 := .inl rfl
  have one : IsHexDigit 0x31 1 := .inl rfl
  have zero : IsHexDigit 0x30 0 := .inl rfl
  have lowerE : IsHexDigit 0x65 14 := .inl rfl
  have upperF : IsHexDigit 0x46 15 := .inr rfl
  have letterA : Spells 0x41 _ := .twoDigits (.digit (.digit .nil four) one) rfl
  have accented : Spells 0xEF _ :=
    .braced (.digit (.digit (.digit .nil zero) lowerE) upperF) (by decide)
  have spelled : Spelled [0x41, 0x31, 0x0A, 0xEF, 0x00, 0x37, 0x5C] _ :=
    .point letterA <| .point (.raw (by decide)) <|
    @Spelled.continued [0x0D] _ _ (by decide) (fun _ => by decide) <|
    .point (.letter (l := CodePoint.ofChar 'n') (by decide)) <| .point accented <|
    .point (.letter (l := CodePoint.ofChar '0') (by decide)) <|
    @Spelled.continued [0x0D, 0x0A] _ _ (by decide) (by decide) <| .point (.raw (by decide)) <|
    .point (.escaped (by decide)) .nil
  exact ⟨_, by decide, spelled, unescape_of_spelled spelled⟩

end EnvReads
