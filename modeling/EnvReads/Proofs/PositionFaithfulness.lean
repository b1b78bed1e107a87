import EnvReads.Parse
import EnvReads.Proofs.SourcePlaces
import EnvReads.Proofs.Utf8RoundTrip

/-!
# Positions of placed nodes

Three ways to say where something stands in a source meet here: octets, as concrete trees count,
code points, as ranges count, and lines with columns. Each boundary between code points
(`Text.HasBoundary`) is one index `k`, and everything is said of that index: the octets before it
are those of the first `k` code points, the offset that `SourceCode.offset` finds for them is `k`,
and the start of its line lies `Text.columnAt k` before it.
-/

namespace EnvReads

namespace Fields

@[simp] theorem field?_put_self (name : Text) (v : Value) (fields : Fields) :
    (fields.put name v).field? name = some v := by
  induction fields with
  | nil => simp [put, field?]
  | cons field rest ih =>
      obtain ⟨other, old⟩ := field
      rw [put]
      split
      · simp [field?]
      · next differs =>
          have differs' : (name == other) = false := by simpa using Ne.symm differs
          rw [field?, List.lookup_cons, differs']
          exact ih

theorem field?_put_of_ne {name other : Text} (differs : other ≠ name) (v : Value)
    (fields : Fields) : (fields.put name v).field? other = fields.field? other := by
  induction fields with
  | nil =>
      have differs' : (other == name) = false := by simpa using differs
      simp [put, field?, List.lookup_cons, differs']
  | cons field rest ih =>
      obtain ⟨first, old⟩ := field
      rw [put]
      split
      · next same =>
          subst same
          have differs' : (other == first) = false := by simpa using differs
          simp [field?, List.lookup_cons, differs']
      · rw [field?, field?, List.lookup_cons, List.lookup_cons]
        split
        · rfl
        · exact ih

end Fields

namespace Text

/-- The line of the place before the code point at an index, counted from one. -/
def lineAt (code : Text) (k : Nat) : Nat :=
  (code.take k).count (CodePoint.ofChar '\n') + 1

/-- The number of code points between an index and the last line feed before it. -/
def columnAt (code : Text) (k : Nat) : Nat :=
  ((code.take k).reverse.takeWhile (· != CodePoint.ofChar '\n')).length

/-- After a line feed the column is zero. -/
theorem columnAt_succ_of_feed {code : Text} {k : Nat}
    (h : code[k]? = some (CodePoint.ofChar '\n')) :
    code.columnAt (k + 1) = 0 := by
  simp [columnAt, List.take_add_one, h]

/-- After any other code point the column is one more. -/
theorem columnAt_succ_of_ne {code : Text} {k : Nat} {c : CodePoint} (h : code[k]? = some c)
    (other : c ≠ CodePoint.ofChar '\n') : code.columnAt (k + 1) = code.columnAt k + 1 := by
  simp [columnAt, List.take_add_one, h, other]

/-- The column is at most the offset. -/
theorem columnAt_le (code : Text) (k : Nat) : code.columnAt k ≤ k := by
  have before := (List.takeWhile_sublist (· != CodePoint.ofChar '\n')
    (l := (code.take k).reverse)).length_le
  rw [List.length_reverse, List.length_take] at before
  rw [columnAt]
  omega

end Text

theorem slice_eq {α : Type} {xs : List α} {i j : Nat} (hi : i ≤ xs.length) (hj : j ≤ xs.length) :
    slice xs i j = (xs.drop i).take (j - i) := by
  have first : clampIndex xs.length i = i := by
    rw [clampIndex, if_neg (by omega)]
    omega
  have last : clampIndex xs.length j = j := by
    rw [clampIndex, if_neg (by omega)]
    omega
  rw [slice, first, last]

/-- Every code point takes an octet at least. -/
theorem CodePoint.utf8_length_pos (c : CodePoint) : 0 < c.utf8.length := by
  rw [utf8]
  repeat' split
  all_goals exact Nat.zero_lt_succ _

namespace Utf8

theorem length_octets_cons (c : CodePoint) (t : Text) :
    (octets (c :: t)).length = c.utf8.length + (octets t).length := by
  rw [octets, List.flatMap_cons, List.length_append, octets]

/-- A text has at least as many octets as code points. -/
theorem length_le_length_octets (t : Text) : t.length ≤ (octets t).length := by
  induction t with
  | nil => exact Nat.zero_le _
  | cons c rest ih =>
      have first := c.utf8_length_pos
      rw [length_octets_cons, List.length_cons]
      omega

/-- The octets of a text are those before an offset and those after it. -/
theorem length_octets_take_add (t : Text) (k : Nat) :
    (octets (t.take k)).length + (octets (t.drop k)).length = (octets t).length := by
  rw [← List.length_append, ← octets_append, List.take_append_drop]

/-- Where a text has as many octets as code points, so has each initial part of it. -/
theorem length_octets_take_of_ascii {t : Text} (ascii : (octets t).length = t.length) {k : Nat}
    (h : k ≤ t.length) : (octets (t.take k)).length = k := by
  have whole := length_octets_take_add t k
  have before := length_le_length_octets (t.take k)
  have after := length_le_length_octets (t.drop k)
  rw [List.length_take] at before
  rw [List.length_drop] at after
  omega

/-- The octets between two boundaries are those of the code points between them. -/
theorem slice_octets {t : Text} {i j : Nat} (hi : i ≤ t.length) (hj : j ≤ t.length) :
    slice (octets t) (octets (t.take i)).length (octets (t.take j)).length =
      octets (slice t i j) := by
  rw [slice_eq (length_octets_take_le t i) (length_octets_take_le t j), slice_eq hi hj]
  have dropped : (octets t).drop (octets (t.take i)).length = octets (t.drop i) := by
    conv => lhs; rw [← List.take_append_drop i t, octets_append, List.take_append_drop]
    exact List.drop_left
  rw [dropped]
  by_cases order : i ≤ j
  · have split' : t.take j = t.take i ++ (t.drop i).take (j - i) := by
      rw [← List.take_add, Nat.add_sub_cancel' order]
    have between : (octets (t.take j)).length - (octets (t.take i)).length =
        (octets ((t.drop i).take (j - i))).length := by
      rw [split', octets_append, List.length_append]
      omega
    rw [between]
    conv => lhs; rw [← List.take_append_drop (j - i) (t.drop i), octets_append,
      List.take_append_drop]
    exact List.take_left
  · have before : (octets (t.take j)).length ≤ (octets (t.take i)).length := by
      have := length_octets_take_le (t.take i) j
      rwa [List.take_take, Nat.min_eq_left (by omega)] at this
    have nothing : j - i = 0 := by omega
    rw [Nat.sub_eq_zero_of_le before, nothing]
    rfl

end Utf8

namespace SourceCode

/-- The table has for the octets before a code point the index of that code point. -/
theorem getElem?_offsetTable {t : Text} {k : Nat} (h : k ≤ t.length) (index : Nat) :
    (offsetTable index t)[(Utf8.octets (t.take k)).length]? = some (index + k) := by
  induction t generalizing index k with
  | nil =>
      obtain rfl : k = 0 := Nat.le_zero.mp h
      rfl
  | cons c rest ih =>
      rw [offsetTable]
      cases k with
      | zero =>
          have first := c.utf8_length_pos
          rw [List.getElem?_append_left (by simpa [Utf8.octets] using first)]
          simp [Utf8.octets, first]
      | succ k =>
          have later := ih (Nat.le_of_succ_le_succ h) (index + 1)
          rw [List.take_succ_cons, Utf8.length_octets_cons, List.getElem?_append_right (by simp),
            List.length_replicate, Nat.add_sub_cancel_left, later]
          congr 1
          omega

/-- After a line feed a line starts. -/
theorem getElem?_startsAfter {t : Text} {k : Nat} (h : t[k]? = some (CodePoint.ofChar '\n'))
    (index : Nat) :
    (startsAfter index t)[(t.take k).count (CodePoint.ofChar '\n')]? = some (index + k + 1) := by
  induction t generalizing index k with
  | nil => simp at h
  | cons c rest ih =>
      rw [startsAfter]
      cases k with
      | zero =>
          obtain rfl : c = CodePoint.ofChar '\n' := by simpa using h
          simp
      | succ k =>
          have later := ih (by simpa using h) (index + 1)
          rw [List.take_succ_cons, List.count_cons]
          split
          · next feed => simp [feed, later]; omega
          · next other => simp [other, later]; omega

variable {code : Text} {k : Nat}

/-- The line that an index is in starts where its column says. -/
theorem getElem?_lineStarts (h : k ≤ code.length) :
    (ofText code).lineStarts[(code.take k).count (CodePoint.ofChar '\n')]? =
      some (k - code.columnAt k) := by
  induction k with
  | zero => rfl
  | succ k ih =>
      have before := ih (Nat.le_of_succ_le h)
      have inside : code[k]? = some code[k] := List.getElem?_eq_getElem h
      rw [List.take_add_one, inside, Option.toList_some, List.count_append]
      by_cases feed : code[k] = CodePoint.ofChar '\n'
      · rw [feed] at inside ⊢
        rw [Text.columnAt_succ_of_feed inside]
        simpa [ofText] using getElem?_startsAfter inside 0
      · rw [Text.columnAt_succ_of_ne inside feed, Nat.add_sub_add_right]
        simpa [feed] using before

theorem entry_of_getElem? {xs : List Nat} {i x : Nat} (h : xs[i]? = some x) :
    entry xs i = .ok x := by
  have positive : ¬(i : Int) < 0 := by omega
  simp only [entry, positive, if_false, Int.toNat_natCast, h]

/-- On either way, with a table and without, the octets before a code point lead to its index. -/
theorem offset_boundary (h : k ≤ code.length) :
    (ofText code).offset (Utf8.octets (code.take k)).length = .ok k := by
  rw [offset, ofText]
  by_cases ascii : (Utf8.octets code).length = code.length
  · simp only [ascii, if_true]
    rw [Utf8.length_octets_take_of_ascii ascii h]
  · simp only [ascii, if_false]
    rw [entry_of_getElem? (getElem?_offsetTable h 0), Nat.zero_add]
    rfl

/-- At an offset in the text, line and column are those of the text. -/
theorem position_boundary (h : k ≤ code.length) :
    (ofText code).position ((code.take k).count (CodePoint.ofChar '\n')) k =
      .ok (Span.positionValue (.int (code.lineAt k)) (.int (code.columnAt k))) := by
  have column := code.columnAt_le k
  have since : (k : Int) - (k - code.columnAt k : Nat) = code.columnAt k := by omega
  rw [position, entry_of_getElem? (getElem?_lineStarts h)]
  simp only [bind, Except.bind, since, Text.lineAt]
  rfl

end SourceCode

/-! ## Blanked first lines -/

/-- The code starts with as many blanks as it has lost code points. -/
theorem stripHashbang_eq_append (content : Text) : ∃ blanks, blanks ≤ content.length ∧
    stripHashbang content =
      List.replicate blanks (CodePoint.ofChar ' ') ++ content.drop blanks := by
  rw [stripHashbang]
  split
  · exact ⟨_, (List.takeWhile_sublist _).length_le, rfl⟩
  · exact ⟨0, Nat.zero_le _, rfl⟩

/-- Blanking the first line keeps the length of the text. -/
theorem length_stripHashbang (content : Text) :
    (stripHashbang content).length = content.length := by
  obtain ⟨blanks, bound, eq⟩ := stripHashbang_eq_append content
  rw [eq, List.length_append, List.length_replicate, List.length_drop]
  omega

/-- From the second line on nothing has changed. -/
theorem drop_stripHashbang {content : Text} {i : Nat}
    (h : 0 < ((stripHashbang content).take i).count (CodePoint.ofChar '\n')) :
    (stripHashbang content).drop i = content.drop i := by
  obtain ⟨blanks, -, eq⟩ := stripHashbang_eq_append content
  rw [eq] at h ⊢
  -- There is no line feed among the blanks, so the index lies beyond them.
  have beyond : blanks ≤ i := by
    rcases Nat.lt_or_ge i blanks with inside | beyond
    · have differs : (CodePoint.ofChar ' ' == CodePoint.ofChar '\n') = false := by decide
      rw [List.take_append_of_le_length (by simpa using Nat.le_of_lt inside),
        List.take_replicate, List.count_replicate, differs] at h
      exact absurd h (Nat.lt_irrefl 0)
    · exact beyond
  rw [List.drop_append, List.drop_eq_nil_of_le (by simpa using beyond), List.nil_append,
    List.drop_drop, List.length_replicate, Nat.add_sub_cancel' beyond]

namespace Node

/-- The node has the range from `i` to `j`, and the lines and columns of these two indices. -/
structure StandsAt (n : Node) (code : Text) (i j : Nat) : Prop where
  range : n.field? "range" = some (.list [.int i, .int j])
  loc : n.field? "loc" = some (.record [
    ("start", Span.positionValue (.int (code.lineAt i)) (.int (code.columnAt i))),
    ("end", Span.positionValue (.int (code.lineAt j)) (.int (code.columnAt j)))])

/-- The range of a node counts in whatever source the node is read. -/
theorem StandsAt.textIn?_eq {n : Node} {code : Text} {i j : Nat} (h : n.StandsAt code i j)
    (source : Text) : n.textIn? source = .ok (some (slice source i j)) := by
  have range : n.fields.field? "range" = some (.list [.int i, .int j]) := h.range
  simp only [textIn?, Span.range?, range, index, bind, Except.bind]
  rfl

end Node

namespace SourceCode

variable {code : Text}

/-- A node stands where its mark says, if the ends of the mark are offsets in the text. -/
theorem place_standsAt {m : Mark} {i j : Nat} (hi : i ≤ code.length) (hj : j ≤ code.length)
    (startByte : m.startByte = (Utf8.octets (code.take i)).length)
    (endByte : m.endByte = (Utf8.octets (code.take j)).length)
    (startRow : m.start.row = (code.take i).count (CodePoint.ofChar '\n'))
    (endRow : m.stop.row = (code.take j).count (CodePoint.ofChar '\n')) (tag : Text)
    (fields : Fields) :
    ∃ n, (ofText code).place m tag fields = .ok n ∧ n.StandsAt code i j := by
  rw [place, startByte, endByte, startRow, endRow, offset_boundary hi, offset_boundary hj]
  simp only [bind, Except.bind, position_boundary hi, position_boundary hj]
  refine ⟨_, rfl, ?_, ?_⟩
  · have type : ("range" : Text) ≠ "type" := by decide
    have loc : ("range" : Text) ≠ "loc" := by decide
    rw [Node.field?, Node.make, Fields.field?, List.lookup_cons, beq_false_of_ne type]
    exact (Fields.field?_put_of_ne loc _ _).trans (Fields.field?_put_self _ _ _)
  · have type : ("loc" : Text) ≠ "type" := by decide
    rw [Node.field?, Node.make, Fields.field?, List.lookup_cons, beq_false_of_ne type]
    exact Fields.field?_put_self _ _ _

/-- Octets, code points, lines and columns agree. A concrete node whose ends lie between code points
of a source becomes a syntax node with the range that holds its text, and with the lines and columns
of that range; nothing is looked up outside of the tables on the way. If the source has had its
first line blanked, a node that starts later has its text in the unchanged source too. -/
theorem place_keeps_position {data : List UInt8} (encoded : Utf8.encode? code = some data)
    {m : Mark} (placed : m.Placed code) (tag : Text) (fields : Fields) :
    ∃ n i j, (ofText code).place m tag fields = .ok n ∧ n.StandsAt code i j ∧
      (i ≤ code.length ∧ (Utf8.octets (code.take i)).length = m.startByte) ∧
      (j ≤ code.length ∧ (Utf8.octets (code.take j)).length = m.endByte) ∧
      Utf8.decode? (slice data m.startByte m.endByte) = some (slice code i j) ∧
      (ofText code).textOf m = slice code i j ∧
      ∀ content, code = stripHashbang content → 0 < m.start.row →
        n.textIn? content = .ok (some ((ofText code).textOf m)) := by
  obtain ⟨i, hi, startByte, startRow⟩ := placed.start
  obtain ⟨j, hj, endByte, endRow⟩ := placed.stop
  have hi : i ≤ code.length := Nat.le_of_lt_succ hi
  have hj : j ≤ code.length := Nat.le_of_lt_succ hj
  obtain ⟨plain, rfl⟩ : code.any CodePoint.isSurrogate = false ∧ Utf8.octets code = data := by
    rw [Utf8.encode?] at encoded
    split at encoded
    · cases encoded
    · next plain => exact ⟨Bool.eq_false_iff.mpr plain, Option.some.inj encoded⟩
  have between : slice (Utf8.octets code) m.startByte m.endByte = Utf8.octets (slice code i j) := by
    rw [startByte, endByte, Utf8.slice_octets hi hj]
  have plainBetween : (slice code i j).any CodePoint.isSurrogate = false := by
    rw [slice_eq hi hj]
    rw [List.any_eq_false] at plain ⊢
    exact fun c mem => plain c (List.mem_of_mem_drop (List.mem_of_mem_take mem))
  have text : (ofText code).textOf m = slice code i j := by
    change Utf8.decodeReplacing (slice (Utf8.octets code) m.startByte m.endByte) = _
    rw [between, Utf8.decodeReplacing_octets plainBetween]
  obtain ⟨n, made, stands⟩ := place_standsAt hi hj startByte endByte startRow endRow tag fields
  refine ⟨n, i, j, made, stands, ⟨hi, startByte.symm⟩, ⟨hj, endByte.symm⟩, ?_, text, ?_⟩
  · rw [between, Utf8.decode?_octets plainBetween]
  · rintro content rfl later
    have length := length_stripHashbang content
    rw [stands.textIn?_eq, text, slice_eq hi hj, slice_eq (length ▸ hi) (length ▸ hj),
      drop_stripHashbang (startRow ▸ later)]

end SourceCode

namespace Sample

/-- A script with a first line of its own, and letters of two octets before and after its end. -/
def script : Text :=
  "#!é\nü.x"

/-- The place of `ü.x` once the first line is three blanks. -/
def scriptMark : Mark where
  type := "member_expression"
  startByte := 4
  endByte := 8
  start := ⟨1, 0⟩
  stop := ⟨1, 4⟩
  role := none
  isNamed := true
  isMissing := false
  hasError := false

end Sample

/-- A script whose first line is blanked. -/
theorem SourceCode.place_keeps_position_script :
    ∃ n i j, (ofText (stripHashbang Sample.script)).place Sample.scriptMark "MemberExpression" [] =
        .ok n ∧ n.StandsAt (stripHashbang Sample.script) i j ∧
      n.textIn? Sample.script = .ok (some (Text.ofString "ü.x")) := by
  have encoded : Utf8.encode? (stripHashbang Sample.script) =
      some [32, 32, 32, 10, 195, 188, 46, 120] := by decide +kernel
  have placed : Sample.scriptMark.Placed (stripHashbang Sample.script) := by decide +kernel
  have text : (ofText (stripHashbang Sample.script)).textOf Sample.scriptMark =
      Text.ofString "ü.x" := by decide +kernel
  obtain ⟨n, i, j, made, stands, -, -, -, -, read⟩ :=
    place_keeps_position encoded placed "MemberExpression" []
  exact ⟨n, i, j, made, stands, text ▸ read Sample.script rfl (by decide)⟩

end EnvReads
