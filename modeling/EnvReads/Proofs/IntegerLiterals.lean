import EnvReads.Concrete.Numeral
import EnvReads.Proofs.StringSpellings
import Mathlib.Algebra.Group.Nat.Defs

/-!
# Integer literals

A JavaScript integer literal (`Numeral.IntegerLiteral`) is a row of digits in base ten, or in base
eight if it starts with a superfluous zero and all its digits are octal, or in the base that a mark
such as `0x` gives. Digits may be apart by separators, letters may be of either case, and a literal
of a big integer ends with `n`. However it is spelled, its value is read as the number that its
digits denote by their positions.
-/

namespace EnvReads

namespace Numeral

/-! ## The grammar -/

def separator : CodePoint := CodePoint.ofChar '_'

/-- The letter at the end of a big integer. -/
def bigMark : CodePoint := CodePoint.ofChar 'n'

/-- `Digits base t ds`: the text `t` spells the digits `ds`, the most significant first, with any
number of separators between two of them. -/
inductive Digits (base : Nat) : Text → List Nat → Prop
  | last {c : CodePoint} {d : Nat} : Escape.IsHexDigit c d → d < base → Digits base [c] [d]
  | more {c : CodePoint} {d : Nat} {t : Text} {ds : List Nat} (separators : Nat) :
      Escape.IsHexDigit c d → d < base → Digits base t ds →
      Digits base (c :: (List.replicate separators separator ++ t)) (d :: ds)

/-- The letters after a zero that name a base. -/
def baseLetters : List (CodePoint × Nat) :=
  [(CodePoint.ofChar 'x', 16), (CodePoint.ofChar 'X', 16), (CodePoint.ofChar 'o', 8),
    (CodePoint.ofChar 'O', 8), (CodePoint.ofChar 'b', 2), (CodePoint.ofChar 'B', 2)]

/-- `Unmarked t base ds`: the text `t` is an integer literal without the mark of a big integer, with
the digits `ds` in the given base. -/
inductive Unmarked : Text → Nat → List Nat → Prop
  | decimal {t : Text} {d : Nat} {ds : List Nat} : Digits 10 t (d :: ds) → d ≠ 0 ∨ ds = [] →
      Unmarked t 10 (d :: ds)
  /-- A zero in front makes no difference to a decimal numeral with a digit that is not octal. -/
  | padded {t : Text} {ds : List Nat} : Digits 10 t (0 :: ds) → (∃ d ∈ ds, 8 ≤ d) →
      Unmarked t 10 (0 :: ds)
  | oldOctal {t : Text} {ds : List Nat} : Digits 8 t (0 :: ds) → ds ≠ [] → Unmarked t 8 (0 :: ds)
  | based {t : Text} {letter : CodePoint} {base : Nat} {ds : List Nat} :
      (letter, base) ∈ baseLetters → Digits base t ds →
      Unmarked (CodePoint.ofChar '0' :: letter :: t) base ds

/-- An integer literal, big or not. -/
inductive IntegerLiteral : Text → Nat → List Nat → Prop
  | plain {t : Text} {base : Nat} {ds : List Nat} : Unmarked t base ds → IntegerLiteral t base ds
  | big {t : Text} {base : Nat} {ds : List Nat} : Unmarked t base ds →
      IntegerLiteral (t ++ [bigMark]) base ds

/-- The number that digits denote in a base: each counts as many times as the power of the base at
its position. -/
def positional (base : Nat) : List Nat → Nat
  | [] => 0
  | d :: ds => d * base ^ ds.length + positional base ds

/-- Digits are read by their positions. -/
theorem ofDigits_eq_positional (base : Nat) (ds : List Nat) :
    Text.ofDigits base ds = positional base ds := by
  suffices ∀ n, ds.foldl (fun n d => n * base + d) n = n * base ^ ds.length + positional base ds by
    simpa [Text.ofDigits] using this 0
  induction ds with
  | nil => simp [positional]
  | cons d ds ih =>
      intro n
      rw [List.foldl_cons, ih, positional, List.length_cons, Nat.pow_succ', Nat.add_mul,
        Nat.mul_assoc, Nat.add_assoc]

/-! ## Without separators, in lower case -/

/-- The digit of a value below sixteen, in lower case. -/
def smallDigit (d : Nat) : CodePoint :=
  (Text.ofString "0123456789abcdef").getD d 0

/-- The text without separators and in lower case. -/
def joined (t : Text) : Text :=
  (t.filter (· != separator)).map lower

/-- The mark of a big integer is dropped. -/
theorem bare_eq (t : Text) :
    bare t = if (joined t).getLast? = some bigMark then (joined t).dropLast else joined t :=
  rfl

/-- Separators are dropped piece by piece. -/
theorem joined_append (t u : Text) : joined (t ++ u) = joined t ++ joined u := by
  simp [joined]

theorem joined_based (letter : CodePoint) (t : Text) :
    joined (CodePoint.ofChar '0' :: letter :: t) =
      joined [CodePoint.ofChar '0', letter] ++ joined t :=
  joined_append [CodePoint.ofChar '0', letter] t

/-- All other code points stay, in lower case. -/
theorem joined_cons_of_ne {c : CodePoint} (h : c ≠ separator) (t : Text) :
    joined (c :: t) = lower c :: joined t := by
  simp [joined, h]

theorem joined_separators (n : Nat) : joined (List.replicate n separator) = [] := by
  simp [joined]

/-- What is needed of a digit in lower case: it is read as its value, and it is neither the mark of
a big integer nor a blank. -/
structure IsSmall (d : Nat) : Prop where
  value : (smallDigit d).digitUpTo16? = some d
  notBig : smallDigit d ≠ bigMark
  notPadding : (smallDigit d).isPadding = false

/-- A digit below 16 is written with a small letter or a figure. -/
theorem isSmall_of_lt {d : Nat} (h : d < 16) : IsSmall d := by
  have table : ∀ i : Fin 16, (smallDigit i).digitUpTo16? = some i.val ∧
      smallDigit i ≠ bigMark ∧ (smallDigit i).isPadding = false := by
    decide +kernel
  obtain ⟨value, notBig, notPadding⟩ := table ⟨d, h⟩
  exact ⟨value, notBig, notPadding⟩

/-- A digit becomes a small one. -/
theorem joined_digit {c : CodePoint} {d : Nat} (h : Escape.IsHexDigit c d) (t : Text) :
    joined (c :: t) = smallDigit d :: joined t := by
  have table : ∀ i : Fin 16,
      ((Text.ofString "0123456789abcdef")[i.val]?.all fun c =>
        decide (c ≠ separator ∧ lower c = smallDigit i)) ∧
      ((Text.ofString "0123456789ABCDEF")[i.val]?.all fun c =>
        decide (c ≠ separator ∧ lower c = smallDigit i)) := by
    decide +kernel
  have bound : d < 16 := by
    rcases h with h | h
    · exact (List.getElem?_eq_some_iff.mp h).1
    · exact (List.getElem?_eq_some_iff.mp h).1
  obtain ⟨small, large⟩ := table ⟨d, bound⟩
  have spelled : c ≠ separator ∧ lower c = smallDigit d := by
    rcases h with h | h
    · simpa [h] using small
    · simpa [h] using large
  rw [joined_cons_of_ne spelled.1, spelled.2]

variable {base limit : Nat} {t : Text} {ds : List Nat}

/-- Digits without their separators are small digits. -/
theorem Digits.joined_eq (h : Digits base t ds) : joined t = ds.map smallDigit := by
  induction h with
  | last digit _ => rw [joined_digit digit]; rfl
  | more separators digit _ _ ih =>
      rw [joined_digit digit, joined_append, joined_separators, List.nil_append, ih, List.map_cons]

/-- Digits stay below the base. -/
theorem Digits.lt (h : Digits base t ds) : ∀ d ∈ ds, d < base := by
  induction h with
  | last _ small => simpa using small
  | more _ _ small _ ih => exact List.forall_mem_cons.mpr ⟨small, ih⟩

/-- There is at least one digit. -/
theorem Digits.ne_nil (h : Digits base t ds) : ds ≠ [] := by
  cases h <;> exact List.cons_ne_nil _ _

/-! ## Rows of digits -/

/-- Small digits are read by their positions. -/
theorem numeral?_map_smallDigit (small : base ≤ 16) (below : ∀ d ∈ ds, d < base)
    (nonempty : ds ≠ []) :
    Text.numeral? base (ds.map smallDigit) = .some (positional base ds) := by
  have read : (ds.map smallDigit).mapM CodePoint.digitUpTo16? = .some ds := by
    clear nonempty
    induction ds with
    | nil => rfl
    | cons d ds ih =>
        obtain ⟨first, later⟩ := List.forall_mem_cons.mp below
        rw [List.map_cons, List.mapM_cons, (isSmall_of_lt (by omega)).value, ih later]
        rfl
  have fits : (ds.isEmpty || ds.any (base ≤ ·)) = false := by
    simpa [List.any_eq_false] using ⟨nonempty, below⟩
  rw [Text.numeral?, read, ← ofDigits_eq_positional]
  exact if_neg (by rw [fits]; exact Bool.false_ne_true)

theorem dropPadding_map_smallDigit (below : ∀ d ∈ ds, d < 16) :
    Text.dropPadding (ds.map smallDigit) = ds.map smallDigit := by
  rw [Text.dropPadding, Text.dropEndWhile, ← List.map_reverse]
  cases eq : ds.reverse with
  | nil => simpa using eq
  | cons d rest =>
      have last : d < 16 := below d (List.mem_reverse.mp (eq ▸ List.mem_cons_self))
      rw [List.map_cons, List.dropWhile_cons_of_neg (by simp [(isSmall_of_lt last).notPadding]),
        ← List.map_cons, ← eq, List.map_reverse, List.reverse_reverse]

/-- Decimal digits name no base. -/
theorem base?_map_smallDigit (below : ∀ d ∈ ds, d < 10) : base? (ds.map smallDigit) = none := by
  have letters : ∀ i : Fin 10, smallDigit i ≠ CodePoint.ofChar 'x' ∧
      smallDigit i ≠ CodePoint.ofChar 'o' ∧ smallDigit i ≠ CodePoint.ofChar 'b' := by
    decide
  rcases ds with - | ⟨first, - | ⟨second, rest⟩⟩
  · rfl
  · simp [base?, bases, Text.ofString]
  · obtain ⟨x, o, b⟩ := letters ⟨second, below second (by simp)⟩
    simp [base?, bases, Text.ofString, x.symm, o.symm, b.symm]

/-- Different figures are different code points. -/
theorem smallDigit_inj {d e : Nat} (first : d < 10) (second : e < 10)
    (h : smallDigit d = smallDigit e) : d = e := by
  have table : ∀ i j : Fin 10, smallDigit i = smallDigit j → i = j := by decide
  exact Fin.mk.inj (table ⟨d, first⟩ ⟨e, second⟩ h)

theorem smallDigit_mem_map_iff (below : ∀ d ∈ ds, d < 10) {e : Nat} (small : e < 10) :
    smallDigit e ∈ ds.map smallDigit ↔ e ∈ ds := by
  refine ⟨fun mem => ?_, List.mem_map_of_mem⟩
  obtain ⟨d, mem, same⟩ := List.mem_map.mp mem
  exact smallDigit_inj (below d mem) small same ▸ mem

/-- An old octal numeral has a zero in front and no digit above seven. -/
theorem isOldOctal_map_smallDigit (below : ∀ d ∈ ds, d < 10) :
    isOldOctal (ds.map smallDigit) = true ↔
      1 < ds.length ∧ ds.head? = some 0 ∧ ∀ d ∈ ds, d < 8 := by
  have spelled : CodePoint.ofChar '0' = smallDigit 0 ∧ CodePoint.ofChar '8' = smallDigit 8 ∧
      CodePoint.ofChar '9' = smallDigit 9 := by decide
  have octal : (∀ d ∈ ds, d < 8) ↔ 8 ∉ ds ∧ 9 ∉ ds := by grind
  have zero : (ds.map smallDigit).head? = some (smallDigit 0) ↔ ds.head? = some 0 := by
    cases ds with
    | nil => simp
    | cons d ds =>
        have first : d < 10 := below d List.mem_cons_self
        simpa using ⟨smallDigit_inj first (by decide), congrArg smallDigit⟩
  rw [isOldOctal, spelled.1, spelled.2.1, spelled.2.2, octal]
  simp only [Bool.and_eq_true, decide_eq_true_eq, zero, Bool.not_eq_true', List.contains_eq_mem,
    decide_eq_false_iff_not, smallDigit_mem_map_iff below (show 8 < 10 by decide),
    smallDigit_mem_map_iff below (show 9 < 10 by decide), List.length_map, and_assoc]

/-- Figures alone are read as an integer. -/
theorem ofBare?_map_smallDigit (below : ∀ d ∈ ds, d < 10) (nonempty : ds ≠ []) :
    ofBare? limit (ds.map smallDigit) =
      (ofDigits? limit (ds.map smallDigit)).map fun n => .int n := by
  have digits : ∀ i : Fin 10, (smallDigit i).digit?.isSome := by decide
  have all : (ds.map smallDigit).all (·.digit?.isSome) := by
    simpa using fun d mem => digits ⟨d, below d mem⟩
  have row : (!(ds.map smallDigit).isEmpty && (ds.map smallDigit).all (·.digit?.isSome)) := by
    rw [all, Bool.and_true]
    simpa using nonempty
  simp only [ofBare?, base?_map_smallDigit below, row, if_true]
  cases ofDigits? limit (ds.map smallDigit) <;> rfl

/-- Figures that are no old octal numeral are decimal. -/
theorem ofBare?_decimal (below : ∀ d ∈ ds, d < 10) (nonempty : ds ≠ [])
    (plain : ¬(1 < ds.length ∧ ds.head? = .some 0 ∧ ∀ d ∈ ds, d < 8)) (fits : ds.length ≤ limit) :
    ofBare? limit (ds.map smallDigit) = .some (.int (positional 10 ds)) := by
  rw [ofBare?_map_smallDigit below nonempty, ofDigits?,
    if_neg fun octal => plain ((isOldOctal_map_smallDigit below).mp octal),
    if_pos (by simpa using fits), numeral?_map_smallDigit (by decide) below nonempty]
  rfl

/-- Figures after a zero that stay below eight are octal. -/
theorem ofBare?_oldOctal (below : ∀ d ∈ 0 :: ds, d < 8) (nonempty : ds ≠ []) :
    ofBare? limit ((0 :: ds).map smallDigit) = .some (.int (positional 8 (0 :: ds))) := by
  have decimal : ∀ d ∈ 0 :: ds, d < 10 := fun d mem => Nat.lt_trans (below d mem) (by decide)
  have several : 1 < (0 :: ds).length := by simpa using List.length_pos_iff.mpr nonempty
  rw [ofBare?_map_smallDigit decimal (List.cons_ne_nil 0 ds), ofDigits?,
    if_pos ((isOldOctal_map_smallDigit decimal).mpr ⟨several, rfl, below⟩),
    numeral?_map_smallDigit (by decide) below (List.cons_ne_nil 0 ds)]
  rfl

/-- The mark of a base is taken off. -/
theorem base?_append {mark : Text × Nat} (h : mark ∈ bases) (u : Text) :
    base? (mark.1 ++ u) = some mark.2 ∧ (mark.1 ++ u).drop 2 = u := by
  simp only [bases, List.mem_cons, List.not_mem_nil, or_false] at h
  rcases h with rfl | rfl | rfl <;>
    exact ⟨by simp [base?, bases, Text.ofString, CodePoint.ofChar], rfl⟩

/-- After the mark of a base digits are read in that base. -/
theorem ofBare?_based {mark : Text × Nat} (h : mark ∈ bases) (below : ∀ d ∈ ds, d < mark.2)
    (nonempty : ds ≠ []) :
    ofBare? limit (mark.1 ++ ds.map smallDigit) = .some (.int (positional mark.2 ds)) := by
  have small : ∀ mark ∈ bases, mark.2 ≤ 16 := by decide
  have hex : ∀ d ∈ ds, d < 16 := fun d mem => Nat.lt_of_lt_of_le (below d mem) (small mark h)
  obtain ⟨named, rest⟩ := base?_append h (ds.map smallDigit)
  simp only [ofBare?, named, rest, dropPadding_map_smallDigit hex,
    numeral?_map_smallDigit (small mark h) below nonempty]
  rfl

/-! ## Literals -/

/-- A letter for a base is in lower case the mark that is looked for. -/
theorem exists_mark_of_mem {letter : CodePoint} (h : (letter, base) ∈ baseLetters) :
    ∃ mark ∈ bases, mark.2 = base ∧ joined [CodePoint.ofChar '0', letter] = mark.1 := by
  have table : ∀ entry ∈ baseLetters, ∃ mark ∈ bases, mark.2 = entry.2 ∧
      joined [CodePoint.ofChar '0', entry.1] = mark.1 := by
    decide
  exact table (letter, base) h

theorem Unmarked.ofBare?_joined (h : Unmarked t base ds) (fits : base = 10 → ds.length ≤ limit) :
    ofBare? limit (joined t) = some (.int (positional base ds)) := by
  cases h with
  | decimal digits first =>
      rw [digits.joined_eq]
      refine ofBare?_decimal digits.lt digits.ne_nil ?_ (fits rfl)
      rintro ⟨several, zero, -⟩
      rcases first with nonzero | rfl
      · exact nonzero (Option.some.inj zero)
      · exact absurd several (Nat.lt_irrefl 1)
  | padded digits high =>
      rw [digits.joined_eq]
      refine ofBare?_decimal digits.lt digits.ne_nil ?_ (fits rfl)
      rintro ⟨-, -, octal⟩
      obtain ⟨d, mem, high⟩ := high
      exact absurd (octal d (.tail 0 mem)) (Nat.not_lt.mpr high)
  | oldOctal digits several =>
      rw [digits.joined_eq]
      exact ofBare?_oldOctal digits.lt several
  | based named digits =>
      obtain ⟨mark, member, rfl, spelled⟩ := exists_mark_of_mem named
      rw [joined_based, spelled, digits.joined_eq]
      exact ofBare?_based member digits.lt digits.ne_nil

/-- The last digit is not taken for the mark of a big integer. -/
theorem Unmarked.getLast?_joined (h : Unmarked t base ds) :
    (joined t).getLast? ≠ some bigMark := by
  have ends (front : Text) {base : Nat} {t : Text} (small : base ≤ 16) (digits : Digits base t ds) :
      (front ++ joined t).getLast? ≠ some bigMark := by
    have last := List.getLast?_eq_some_getLast digits.ne_nil
    have below := digits.lt _ (List.getLast_mem digits.ne_nil)
    rw [digits.joined_eq, List.getLast?_append, List.getLast?_map, last]
    exact fun same => (isSmall_of_lt (Nat.lt_of_lt_of_le below small)).notBig (Option.some.inj same)
  cases h with
  | decimal digits _ | padded digits _ => exact ends [] (by decide) digits
  | oldOctal digits _ => exact ends [] (by decide) digits
  | based named digits =>
      have small : ∀ entry ∈ baseLetters, entry.2 ≤ 16 := by decide
      rw [joined_based]
      exact ends _ (small _ named) digits

/-- The mark of a big integer is cut off, and nothing else. -/
theorem IntegerLiteral.exists_bare (h : IntegerLiteral t base ds) :
    ∃ u, Unmarked u base ds ∧ bare t = joined u := by
  cases h with
  | plain literal => exact ⟨t, literal, (bare_eq t).trans (if_neg literal.getLast?_joined)⟩
  | @big u _ _ literal =>
      have mark : joined [bigMark] = [bigMark] := by decide
      refine ⟨u, literal, ?_⟩
      rw [bare_eq, joined_append, mark, List.getLast?_concat, if_pos rfl, List.dropLast_concat]

/-- The value of an integer literal is the number that its digits denote. Decimal literals are read
up to a number of digits that can be any. -/
theorem value_of_integerLiteral (h : IntegerLiteral t base ds)
    (fits : base = 10 → ds.length ≤ limit) :
    valueUpTo? limit t = some (.int (positional base ds)) := by
  obtain ⟨u, literal, same⟩ := h.exists_bare
  rw [valueUpTo?, same]
  exact literal.ofBare?_joined fits

/-- A big integer in base sixteen, with digits of both cases and separators. -/
theorem value_of_integerLiteral_hexadecimal :
    IntegerLiteral "0XfF__0_a9n" 16 [15, 15, 0, 10, 9] ∧
      valueUpTo? 0 "0XfF__0_a9n" = some (.int 1044649) := by
  have literal : IntegerLiteral "0XfF__0_a9n" 16 [15, 15, 0, 10, 9] :=
    .big (.based (by decide) (.more 0 (.inl rfl) (by decide) (.more 2 (.inr rfl) (by decide)
      (.more 1 (.inl rfl) (by decide) (.more 0 (.inl rfl) (by decide)
        (.last (.inl rfl) (by decide)))))))
  exact ⟨literal, value_of_integerLiteral literal (by decide)⟩

end Numeral

end EnvReads
