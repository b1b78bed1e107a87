import EnvReads.Concrete.Place
import EnvReads.Proofs.Outcome

/-!
# Places that a source has

Which offsets and rows a source has a place for. A node whose range lies between code points of the
source, and whose rows count the line feeds before it (`Mark.Placed`), can always be placed.
-/

namespace EnvReads

/-- The first `byte` octets of a text are whole code points, with `row` line feeds among them. -/
def Text.HasBoundary (code : Text) (byte row : Nat) : Prop :=
  ∃ k, k < code.length + 1 ∧ byte = (Utf8.octets (code.take k)).length ∧
    row = (code.take k).count (CodePoint.ofChar '\n')

instance (code : Text) (byte row : Nat) : Decidable (code.HasBoundary byte row) :=
  inferInstanceAs (Decidable (∃ k, k < code.length + 1 ∧ _))

/-- Both ends of a node lie between code points of the source, in the rows that it says. -/
structure Mark.Placed (code : Text) (m : Mark) : Prop where
  start : code.HasBoundary m.startByte m.start.row
  stop : code.HasBoundary m.endByte m.stop.row

instance (code : Text) (m : Mark) : Decidable (m.Placed code) :=
  decidable_of_iff
    (code.HasBoundary m.startByte m.start.row ∧ code.HasBoundary m.endByte m.stop.row)
    ⟨fun ⟨start, stop⟩ => ⟨start, stop⟩, fun ⟨start, stop⟩ => ⟨start, stop⟩⟩

namespace Utf8

/-- Texts are encoded one after the other. -/
theorem octets_append (t u : Text) : octets (t ++ u) = octets t ++ octets u := by
  simp [octets]

/-- The start of a text takes no more octets than the text. -/
theorem length_octets_take_le (t : Text) (k : Nat) :
    (octets (t.take k)).length ≤ (octets t).length := by
  conv => rhs; rw [← List.take_append_drop k t, octets_append, List.length_append]
  omega

end Utf8

/-- A boundary lies within the text. -/
theorem Text.HasBoundary.le {code : Text} {byte row : Nat} (h : code.HasBoundary byte row) :
    byte ≤ (Utf8.octets code).length := by
  obtain ⟨k, -, rfl, -⟩ := h
  exact Utf8.length_octets_take_le code k

namespace SourceCode

/-- The table has an offset for each octet and for the end. -/
@[simp] theorem length_offsetTable (index : Nat) (t : Text) :
    (offsetTable index t).length = (Utf8.octets t).length + 1 := by
  induction t generalizing index with
  | nil => rfl
  | cons c rest ih =>
      rw [offsetTable, List.length_append, List.length_replicate, ih]
      simp [Utf8.octets]
      omega

/-- There is one more line after each line feed. -/
@[simp] theorem length_startsAfter (index : Nat) (t : Text) :
    (startsAfter index t).length = t.count (CodePoint.ofChar '\n') := by
  induction t generalizing index with
  | nil => rfl
  | cons c rest ih =>
      rw [startsAfter, List.count_cons]
      split
      · next feed => simp [ih, feed]
      · next other => simp [ih, other]

/-- An entry can be had if its index is in the table, from the start or from the end. -/
theorem isOk_entry_iff {xs : List Nat} {i : Int} :
    (entry xs i).isOk ↔ -(xs.length : Int) ≤ i ∧ i < xs.length := by
  have inside : -(xs.length : Int) ≤ i ∧ i < xs.length ↔
      0 ≤ (if i < 0 then xs.length + i else i) ∧
        (if i < 0 then xs.length + i else i) < xs.length := by
    split <;> omega
  rw [inside, entry]
  generalize (if i < 0 then (xs.length : Int) + i else i) = index
  split
  · next negative =>
      simp only [Except.isOk_error, Bool.false_eq_true, false_iff]
      omega
  · next positive =>
      split
      · next found =>
          obtain ⟨bound, -⟩ := List.getElem?_eq_some_iff.mp found
          simp only [Except.isOk_ok, true_iff]
          omega
      · next missing =>
          have bound := List.getElem?_eq_none_iff.mp missing
          simp only [Except.isOk_error, Bool.false_eq_true, false_iff]
          omega

variable {code : Text}

/-- A source in ASCII has every offset. Another one has those up to its end, and as many before its
start, which count from the end. -/
theorem isOk_offset_iff {byte : Int} :
    ((ofText code).offset byte).isOk ↔ (Utf8.octets code).length = code.length ∨
      -((Utf8.octets code).length + 1 : Int) ≤ byte ∧ byte ≤ (Utf8.octets code).length := by
  rw [offset, ofText]
  by_cases ascii : (Utf8.octets code).length = code.length
  · simp [ascii]
  · simp only [ascii, if_false, Except.isOk_map, Except.isOk_bind_iff, Except.isOk_pure, and_true,
      Except.exists_eq_ok_iff, isOk_entry_iff, length_offsetTable, false_or]
    omega

/-- There is an offset at every boundary. -/
theorem isOk_offset_of_hasBoundary {byte row : Nat} (h : code.HasBoundary byte row) :
    ((ofText code).offset byte).isOk := by
  have := h.le
  exact isOk_offset_iff.mpr (.inr (by omega))

/-- There is a position at every boundary. -/
theorem isOk_position_of_hasBoundary {byte row : Nat} (h : code.HasBoundary byte row)
    (offset : Int) : ((ofText code).position row offset).isOk := by
  obtain ⟨k, -, -, rfl⟩ := h
  have feeds : (code.take k).count (CodePoint.ofChar '\n') ≤ code.count (CodePoint.ofChar '\n') :=
    (List.take_sublist k code).count_le _
  simp only [position, Except.isOk_bind_iff, Except.isOk_ok, and_true, Except.exists_eq_ok_iff,
    isOk_entry_iff, ofText, List.length_cons, length_startsAfter]
  omega

/-- A node with a place in the source can be placed, whatever it becomes. -/
theorem isOk_place_of_placed {m : Mark} (h : m.Placed code) (tag : Text) (fields : Fields) :
    ((ofText code).place m tag fields).isOk := by
  simp only [place, Except.isOk_bind_iff, Except.isOk_ok, and_true, Except.exists_eq_ok_iff,
    isOk_position_of_hasBoundary h.start, isOk_position_of_hasBoundary h.stop,
    isOk_offset_of_hasBoundary h.start, isOk_offset_of_hasBoundary h.stop]

end SourceCode

end EnvReads
