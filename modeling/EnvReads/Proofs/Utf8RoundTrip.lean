import EnvReads.Text.Utf8

/-!
# UTF-8 read back

The octets of a text without surrogates decode to that text, strictly or with replacement. The
machine of `Utf8.step` is followed through one character: its first octet says how many octets are
owed and in which bounds the next one lies, and each further octet adds six bits. The narrow bounds
after E0, ED, F0 and F4 are where overlong forms, surrogates and numbers past the last code point
are kept out, so these are the cases in which the range of the code point is needed.
-/

namespace EnvReads

namespace CodePoint

@[simp] theorem ofNat?_val (c : CodePoint) : ofNat? c.val = some c := by
  simp [ofNat?]

end CodePoint

namespace Utf8

/-- The octet that starts a character of several octets. -/
theorem itemsAfter_first {n : Nat} {p : Pending} (h : start (UInt8.ofNat n) = ([], some p))
    (rest : List UInt8) :
    itemsAfter none (UInt8.ofNat n :: rest) = itemsAfter (some p) rest := by
  simp only [itemsAfter, step, h, List.nil_append]

section

variable {owed low high bits n : Nat} (octet : n < 256) (above : low ≤ n) (below : n ≤ high)
  (rest : List UInt8)

include octet above below

/-- An octet within the bounds of an open character that owes more after it. -/
theorem itemsAfter_more :
    itemsAfter (some ⟨owed + 2, low, high, bits⟩) (UInt8.ofNat n :: rest) =
      itemsAfter (some ⟨owed + 1, 0x80, 0xBF, bits * 64 + (n - 0x80)⟩) rest := by
  have value : (UInt8.ofNat n).toNat = n := UInt8.toNat_ofNat_of_lt' octet
  have more : ¬owed + 2 ≤ 1 := by omega
  simp only [itemsAfter, step, value, above, below, and_self, if_true, more, if_false,
    List.nil_append, Nat.add_one_sub_one]

/-- The octet that completes a character. -/
theorem itemsAfter_last :
    itemsAfter (some ⟨1, low, high, bits⟩) (UInt8.ofNat n :: rest) =
      CodePoint.ofNat? (bits * 64 + (n - 0x80)) :: itemsAfter none rest := by
  have value : (UInt8.ofNat n).toNat = n := UInt8.toNat_ofNat_of_lt' octet
  simp only [itemsAfter, step, value, above, below, and_self, if_true, Nat.le_refl,
    List.cons_append, List.nil_append]

end

/-! ## First octets -/

theorem start_two {n : Nat} (low : 0xC2 ≤ n) (high : n < 0xE0) :
    start (UInt8.ofNat n) = ([], some ⟨1, 0x80, 0xBF, n - 0xC0⟩) := by
  have value : (UInt8.ofNat n).toNat = n   :=
    UInt8.toNat_ofNat_of_lt' (show n < 256 by omega)
  simp only [start, value]
  rw [if_neg (by omega), if_neg (by omega), if_pos high]

/-- After E0 the second octet keeps out what two octets can say, after ED it keeps out surrogates.
-/
theorem start_three {n : Nat} (low : 0xE0 ≤ n) (high : n < 0xF0) :
    start (UInt8.ofNat n) = ([], some ⟨2, if n = 0xE0 then 0xA0 else 0x80,
      if n = 0xED then 0x9F else 0xBF, n - 0xE0⟩) := by
  have value : (UInt8.ofNat n).toNat = n   :=
    UInt8.toNat_ofNat_of_lt' (show n < 256 by omega)
  simp only [start, value]
  rw [if_neg (by omega), if_neg (by omega), if_neg (by omega)]
  by_cases first : n = 0xE0
  · simp [first]
  · by_cases last : n = 0xED
    · simp [last]
    · rw [if_neg first, if_neg last, if_pos high, if_neg first, if_neg last]

/-- After F0 the second octet keeps out what three octets can say, after F4 what no code point is.
-/
theorem start_four {n : Nat} (low : 0xF0 ≤ n) (high : n ≤ 0xF4) :
    start (UInt8.ofNat n) = ([], some ⟨3, if n = 0xF0 then 0x90 else 0x80,
      if n = 0xF4 then 0x8F else 0xBF, n - 0xF0⟩) := by
  have value : (UInt8.ofNat n).toNat = n   :=
    UInt8.toNat_ofNat_of_lt' (show n < 256 by omega)
  simp only [start, value]
  rw [if_neg (by omega), if_neg (by omega), if_neg (by omega), if_neg (by omega),
    if_neg (by omega), if_neg (by omega)]
  by_cases first : n = 0xF0
  · simp [first]
  · by_cases last : n = 0xF4
    · simp [last]
    · rw [if_neg first, if_pos (by omega), if_neg first, if_neg last]

/-! ## Characters and texts -/

/-- One character is read back, and the machine stands between characters again. -/
theorem itemsAfter_utf8 {c : CodePoint} (h : c.isSurrogate = false) (rest : List UInt8) :
    itemsAfter none (c.utf8 ++ rest) = some c :: itemsAfter none rest := by
  have whole := c.isLt
  have plain : c.val < 0xD800 ∨ 0xDFFF < c.val := by
    simp only [CodePoint.isSurrogate, Bool.and_eq_false_iff, decide_eq_false_iff_not] at h
    omega
  have read : ∀ {n : Nat}, n = c.val → CodePoint.ofNat? n = some c := by
    rintro n rfl
    exact c.ofNat?_val
  rw [CodePoint.utf8]
  simp only [Nat.div_one]
  split
  · next one =>
      have value : (UInt8.ofNat c.val).toNat = c.val :=
        UInt8.toNat_ofNat_of_lt' (show c.val < 256 by omega)
      simp only [List.cons_append, List.nil_append, itemsAfter, step, start, value, one, if_true,
        read rfl]
  · split
    · next two =>
        simp only [List.cons_append, List.nil_append]
        rw [itemsAfter_first (start_two (by omega) (by omega)),
          itemsAfter_last (by omega) (by omega) (by omega), read (by omega)]
    · split
      · next three =>
          simp only [List.cons_append, List.nil_append]
          rw [itemsAfter_first (start_three (by omega) (by omega)),
            itemsAfter_more (by omega) (by split <;> omega) (by split <;> omega),
            itemsAfter_last (by omega) (by omega) (by omega), read (by omega)]
      · next four =>
          simp only [List.cons_append, List.nil_append]
          rw [itemsAfter_first (start_four (by omega) (by omega)),
            itemsAfter_more (by omega) (by split <;> omega) (by split <;> omega),
            itemsAfter_more (by omega) (by omega) (by omega),
            itemsAfter_last (by omega) (by omega) (by omega), read (by omega)]

/-- The octets of a text without surrogates are read as its code points. -/
theorem items_octets {t : Text} (h : t.any CodePoint.isSurrogate = false) :
    items (octets t) = t.map some := by
  induction t with
  | nil => rfl
  | cons c rest ih =>
      simp only [List.any_cons, Bool.or_eq_false_iff] at h
      obtain ⟨first, later⟩ := h
      change itemsAfter none (c.utf8 ++ octets rest) = _
      rw [itemsAfter_utf8 first, List.map_cons]
      exact congrArg _ (ih later)

/-- A text without surrogates is decoded to itself. -/
theorem decode?_octets {t : Text} (h : t.any CodePoint.isSurrogate = false) :
    decode? (octets t) = some t := by
  rw [decode?, items_octets h]
  induction t with
  | nil => rfl
  | cons c rest ih =>
      rw [List.any_cons, Bool.or_eq_false_iff] at h
      simp only [List.map_cons, List.mapM_cons, id, ih h.2, Option.bind_eq_bind, Option.bind_some,
        Option.pure_def]

/-- Nothing in it is replaced. -/
theorem decodeReplacing_octets {t : Text} (h : t.any CodePoint.isSurrogate = false) :
    decodeReplacing (octets t) = t := by
  rw [decodeReplacing, items_octets h, List.map_map]
  exact List.map_id t

end Utf8

end EnvReads
