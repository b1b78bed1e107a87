import EnvReads.Concrete.Escape
import EnvReads.Proofs.Outcome
import Mathlib.Algebra.Group.Nat.Defs

/-!
# The range of escapes

Of all escapes only a code in braces can be too large: `unescape` succeeds exactly if the codes that
the braced escapes of its text denote (`Escape.bracedCodes`) are code points.
-/

namespace EnvReads

/-- Hexadecimal digits stay below 16. -/
theorem CodePoint.hexDigit?_lt {c : CodePoint} {d : Nat} (h : c.hexDigit? = some d) : d < 16 := by
  have letters : '0'.toNat = 48 ∧ '9'.toNat = 57 ∧ 'a'.toNat = 97 ∧ 'f'.toNat = 102 ∧
      'A'.toNat = 65 ∧ 'F'.toNat = 70 := by decide
  simp only [hexDigit?] at h
  split at h
  · cases h
    omega
  · split at h
    · cases h
      omega
    · split at h
      · cases h
        omega
      · cases h

/-- A number is less than the base to the number of its digits. -/
theorem Text.ofDigits_lt {base : Nat} {digits : List Nat} (h : ∀ d ∈ digits, d < base) :
    ofDigits base digits < base ^ digits.length := by
  suffices ∀ n, digits.foldl (fun n d => n * base + d) n < (n + 1) * base ^ digits.length by
    simpa [ofDigits] using this 0
  induction digits with
  | nil => simp
  | cons d rest ih =>
      intro n
      have first : n * base + d + 1 ≤ (n + 1) * base := by
        have := h d (.head rest)
        rw [Nat.add_mul]
        omega
      calc rest.foldl (fun n d => n * base + d) (n * base + d)
          < (n * base + d + 1) * base ^ rest.length := ih (fun e mem => h e (.tail d mem)) _
        _ ≤ (n + 1) * base * base ^ rest.length := Nat.mul_le_mul_right _ first
        _ = (n + 1) * base ^ (rest.length + 1) := by rw [Nat.mul_assoc, Nat.pow_succ']

namespace Escape

theorem fixed?_digits {count : Nat} {t after : Text} {ds : List Nat}
    (h : fixed? count t = some (ds, after)) : ds.length = count ∧ ∀ d ∈ ds, d < 16 := by
  induction count generalizing t ds with
  | zero =>
      cases h
      simp
  | succ count ih =>
      cases t with
      | nil => cases h
      | cons c rest =>
          simp only [fixed?, Option.bind_eq_bind, Option.bind_eq_some_iff] at h
          obtain ⟨d, digit, ⟨ds', after'⟩, found, eq⟩ := h
          cases eq
          obtain ⟨length, small⟩ := ih found
          exact ⟨by simp [length], List.forall_mem_cons.mpr ⟨CodePoint.hexDigit?_lt digit, small⟩⟩

/-- There is a code point with a number up to the greatest one. -/
theorem isOk_ofCode_iff {ds : List Nat} : (ofCode ds).isOk ↔ Text.ofDigits 16 ds ≤ 0x10FFFF := by
  simp only [ofCode, CodePoint.ofNat?]
  split
  · next found =>
      split at found
      · simp
        omega
      · cases found
  · next missing =>
      split at missing
      · cases missing
      · simp
        omega

/-- An escape with a fixed number of digits is in range. -/
theorem isOk_ofCode_of_fixed? {count : Nat} {t after : Text} {ds : List Nat} (few : count ≤ 4)
    (h : fixed? count t = some (ds, after)) : (ofCode ds).isOk := by
  obtain ⟨length, small⟩ := fixed?_digits h
  have bound := Text.ofDigits_lt small
  have most : 16 ^ ds.length ≤ 16 ^ 4 := Nat.pow_le_pow_right (by decide) (length ▸ few)
  rw [isOk_ofCode_iff]
  omega

/-- The code of an escape in braces at the start of a text, its backslash taken off. -/
def bracedCode? : Text → Option Nat
  | [] => none
  | c :: rest => if c = 'u' then (braced? rest).map fun (ds, _) => Text.ofDigits 16 ds else none

/-- An escape is in range unless it has braces and a number that is too great. -/
theorem isOk_of_read?_iff {t after : Text} {value : Except EscapeFault Text}
    (h : read? t = some (value, after)) :
    value.isOk ↔ ∀ n, bracedCode? t = some n → n ≤ 0x10FFFF := by
  unfold read? at h
  split at h
  · cases h
  · next c rest =>
      simp only [bracedCode?]
      split at h
      · next isU =>
          rw [if_pos isU]
          split at h
          · next ds after' found =>
              cases h
              simp [found, isOk_ofCode_iff]
          · next missing =>
              rw [missing]
              split at h
              · next found =>
                  cases h
                  simp [isOk_ofCode_of_fixed? (Nat.le_refl 4) found]
              · cases h
                simp
      · next notU =>
          rw [if_neg notU]
          split at h
          · split at h
            · next found =>
                cases h
                simp [isOk_ofCode_of_fixed? (by decide) found]
            · cases h
              simp
          · split at h
            · split at h <;> cases h <;> simp
            · cases h
              simp

/-- The codes that the escapes in braces denote, in the order of the text. -/
def bracedCodes : Text → List Nat
  | [] => []
  | c :: rest =>
    if c = CodePoint.backslash then
      match _h : read? rest with
      | none => []
      | some (_, after) => (bracedCode? rest).toList ++ bracedCodes after
    else
      bracedCodes rest
termination_by t => t.length
decreasing_by
  · have := length_lt_of_read? _h
    simp
    omega
  · simp

/-- The numbers in braces after a backslash. -/
theorem bracedCodes_backslash (rest : Text) :
    bracedCodes (CodePoint.backslash :: rest) =
      (read? rest).elim [] fun (_, after) => (bracedCode? rest).toList ++ bracedCodes after := by
  rw [bracedCodes, if_pos rfl]
  split <;> next read => rw [read]; rfl

end Escape

/-- Text has a value exactly if its escapes in braces denote code points. -/
theorem isOk_unescape_iff (t : Text) :
    (unescape t).isOk ↔ ∀ n ∈ Escape.bracedCodes t, n ≤ 0x10FFFF := by
  fun_induction unescape t with
  | case1 => simp [Escape.bracedCodes]
  | case2 rest read => simp [Escape.bracedCodes_backslash, read]
  | case3 rest value after read ih =>
      simp only [Escape.bracedCodes_backslash, read, Option.elim_some, List.forall_mem_append,
        Option.mem_toList, ← ih, ← Escape.isOk_of_read?_iff read,
        Except.isOk_bind_iff, Except.isOk_ok, and_true, exists_and_right, Except.exists_eq_ok_iff]
  | case4 c rest plain ih =>
      rw [Escape.bracedCodes, if_neg plain, ← ih]
      simp only [Except.isOk_bind_iff, Except.isOk_ok, and_true, Except.exists_eq_ok_iff]

end EnvReads
