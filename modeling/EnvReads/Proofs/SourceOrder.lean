import EnvReads.Proofs.EmittedNodes
import EnvReads.Proofs.LaidOutTrees
import EnvReads.Proofs.TemplatePieces

/-!
# Conversion keeps the order of the source

If the children of every node of a concrete tree stand one after the other in the range of the node,
and each rule finds what it converts in the order in which it puts it together
(`Concrete.InOrder`), then the converted tree is laid out like its source (`Node.LaidOut`).

Concrete trees count octets and syntax trees code points, so layout is first said in octets
(`Concrete.Fits`) and carried over by offsets, which only grow. Nodes that a rule makes out of
order, such as the copies of a shorthand property or the texts of a template, are blank.
-/

namespace EnvReads

open Except (Ensures)

/-! ## Offsets -/

namespace SourceCode

/-- Offsets in code points grow with those in octets. -/
def IsMonotone (s : SourceCode) : Prop :=
  ∀ i j : Nat, i ≤ j → ∀ x y, s.offset i = .ok x → s.offset j = .ok y → x ≤ y

/-- The offsets in the table start with the given one. -/
theorem le_of_mem_offsetTable {index k : Nat} {t : Text} (h : k ∈ offsetTable index t) :
    index ≤ k := by
  induction t generalizing index with
  | nil => exact Nat.le_of_eq (List.mem_singleton.mp h).symm
  | cons c rest ih =>
      rcases List.mem_append.mp h with here | later
      · exact Nat.le_of_eq (List.mem_replicate.mp here).2.symm
      · exact Nat.le_of_succ_le (ih later)

/-- They grow along the table. -/
theorem pairwise_offsetTable (index : Nat) (t : Text) :
    (offsetTable index t).Pairwise (· ≤ ·) := by
  induction t generalizing index with
  | nil => exact List.pairwise_singleton _ _
  | cons c rest ih =>
      refine List.pairwise_append.mpr ⟨?_, ih (index + 1), fun i here j later => ?_⟩
      · exact List.pairwise_replicate.mpr (.inr (Nat.le_refl _))
      · rw [(List.mem_replicate.mp here).2]
        exact Nat.le_of_succ_le (le_of_mem_offsetTable later)

theorem getElem?_of_entry {xs : List Nat} {i x : Nat} (h : entry xs i = .ok x) :
    xs[i]? = some x := by
  have positive : ¬(i : Int) < 0 := by omega
  simp only [entry, positive, if_false, Int.toNat_natCast] at h
  split at h
  · next found => rw [found, Except.ok.inj h]
  · cases h

/-- An offset is an entry of the table. -/
theorem getElem?_of_offset {s : SourceCode} {xs : List Nat} (table : s.offsets = some xs) {i : Nat}
    {x : Int} (h : s.offset i = .ok x) : ∃ k : Nat, xs[i]? = some k ∧ x = k := by
  rw [offset, table] at h
  obtain ⟨y, read, same⟩ := Except.map_eq_ok_iff.mp h
  obtain ⟨k, found, eq⟩ := Except.bind_eq_ok_iff.mp read
  cases eq
  exact ⟨k, getElem?_of_entry found, same.symm⟩

/-- In every text, offsets in code points grow with those in octets. -/
theorem isMonotone_ofText (code : Text) : (ofText code).IsMonotone := by
  intro i j le x y first last
  cases table : (ofText code).offsets with
  | none =>
      rw [offset, table] at first last
      cases first
      cases last
      exact Int.ofNat_le.mpr le
  | some offsets =>
      have sorted : offsets.Pairwise (· ≤ ·) := by
        rw [ofText] at table
        split at table
        · cases table
        · cases table
          exact pairwise_offsetTable 0 code
      obtain ⟨k, found, rfl⟩ := getElem?_of_offset table first
      obtain ⟨l, found', rfl⟩ := getElem?_of_offset table last
      obtain ⟨hi, rfl⟩ := List.getElem?_eq_some_iff.mp found
      obtain ⟨hj, rfl⟩ := List.getElem?_eq_some_iff.mp found'
      rcases Nat.eq_or_lt_of_le le with rfl | lt
      · exact Int.le_refl _
      · exact Int.ofNat_le.mpr (List.pairwise_iff_getElem.mp sorted i j hi hj lt)

end SourceCode

namespace Concrete

open Rose

/-! ## Rows of concrete nodes -/

/-- The first node ends before the second one starts. -/
def Precedes (c d : Concrete) : Prop :=
  c.mark.endByte ≤ d.mark.startByte

/-- The nodes stand one after the other between two offsets. -/
inductive Row : Nat → Nat → List Concrete → Prop
  | nil {a b : Nat} : a ≤ b → Row a b []
  | cons {a b : Nat} {c : Concrete} {cs : List Concrete} : a ≤ c.mark.startByte →
      c.mark.startByte ≤ c.mark.endByte → Row c.mark.endByte b cs → Row a b (c :: cs)

namespace Row

variable {a b : Nat} {c : Concrete} {cs ds : List Concrete}

/-- A row has its start before its end. -/
theorem le (h : Row a b cs) : a ≤ b := by
  induction h with
  | nil le => exact le
  | cons starts forward _ ih => exact Nat.le_trans starts (Nat.le_trans forward ih)

/-- Nodes that stand apart between two offsets are a row. -/
theorem of_pairwise (le : a ≤ b) (apart : cs.Pairwise Precedes)
    (inside : ∀ c ∈ cs, a ≤ c.mark.startByte ∧ c.mark.startByte ≤ c.mark.endByte ∧
      c.mark.endByte ≤ b) : Row a b cs := by
  induction cs generalizing a with
  | nil => exact .nil le
  | cons c cs ih =>
      obtain ⟨⟨starts, forward, ends⟩, inside⟩ := List.forall_mem_cons.mp inside
      obtain ⟨later, apart⟩ := List.pairwise_cons.mp apart
      exact .cons starts forward
        (ih ends apart fun d mem => ⟨later d mem, (inside d mem).2⟩)

/-- Two lists in a row meet at some offset. -/
theorem split (h : Row a b (cs ++ ds)) : ∃ k, Row a k cs ∧ Row k b ds := by
  induction cs generalizing a with
  | nil => exact ⟨a, .nil (Nat.le_refl a), h⟩
  | cons c cs ih =>
      cases h with
      | cons starts forward later =>
          obtain ⟨k, first, last⟩ := ih later
          exact ⟨k, .cons starts forward first, last⟩

/-- Two rows one after the other are a row. -/
theorem append {k : Nat} (h : Row a k cs) (h' : Row k b ds) : Row a b (cs ++ ds) := by
  induction h with
  | nil le =>
      cases h' with
      | nil le' => exact .nil (Nat.le_trans le le')
      | cons starts forward later => exact .cons (Nat.le_trans le starts) forward later
  | cons starts forward _ ih => exact .cons starts forward (ih h')

/-- A row stays one between offsets that are further apart. -/
theorem mono {a' b' : Nat} (h : Row a b cs) (start : a' ≤ a) (stop : b ≤ b') : Row a' b' cs := by
  have padded := Row.append (.nil start) (h.append (.nil stop))
  simpa using padded

/-- Parts of nodes in a row are in a row. -/
theorem flatMap {f : Concrete → List Concrete} (h : Row a b cs)
    (each : ∀ c ∈ cs, Row c.mark.startByte c.mark.endByte (f c)) : Row a b (cs.flatMap f) := by
  induction h with
  | nil le => exact .nil le
  | cons starts forward _ ih =>
      obtain ⟨first, later⟩ := List.forall_mem_cons.mp each
      rw [List.flatMap_cons]
      exact (first.mono starts (Nat.le_refl _)).append (ih later)

end Row

/-! ## Rows of syntax nodes -/

section

variable {s : SourceCode} {a b k : Nat} {n : Node} {ns ms : List Node}

/-- The range of a node lies between two offsets in octets. -/
def Spans (s : SourceCode) (a b : Nat) (n : Node) : Prop :=
  ∃ i j : Nat, a ≤ i ∧ i ≤ j ∧ j ≤ b ∧ s.offset i = .ok n.rangeStart ∧
    s.offset j = .ok n.rangeStop

/-- The trees are laid out, and stand one after the other between two offsets, blank nodes apart. -/
structure Fits (s : SourceCode) (a b : Nat) (ns : List Node) : Prop where
  laidOut : ∀ n ∈ ns, n.LaidOut
  spans : ∀ n ∈ ns, Spans s a b n
  apart : ns.Pairwise fun n m => n.isBlank ∨ m.isBlank ∨ n.Before m

/-- The nodes are blank and stand between two offsets. -/
structure Blanks (s : SourceCode) (a b : Nat) (ns : List Node) : Prop where
  blank : ∀ n ∈ ns, n.isBlank
  laidOut : ∀ n ∈ ns, n.LaidOut
  spans : ∀ n ∈ ns, Spans s a b n

theorem Spans.mono (h : Spans s a b n) {a' b' : Nat} (start : a' ≤ a) (stop : b ≤ b') :
    Spans s a' b' n := by
  obtain ⟨i, j, first, order, last, starts, stops⟩ := h
  exact ⟨i, j, Nat.le_trans start first, order, Nat.le_trans last stop, starts, stops⟩

/-- Ranges in different parts of the text are in order. -/
theorem Spans.before {n m : Node} {l : Nat} (monotone : s.IsMonotone) (first : Spans s a k n)
    (last : Spans s l b m) (le : k ≤ l) : n.Before m := by
  obtain ⟨-, j, -, -, before, -, stops⟩ := first
  obtain ⟨i, -, after, -, -, starts, -⟩ := last
  exact monotone j i (Nat.le_trans before (Nat.le_trans le after)) _ _ stops starts

theorem fits_nil : Fits s a b [] :=
  ⟨by simp, by simp, .nil⟩

/-- What fits, fits between offsets that are further apart. -/
theorem Fits.mono (h : Fits s a b ns) {a' b' : Nat} (start : a' ≤ a) (stop : b ≤ b') :
    Fits s a' b' ns :=
  ⟨h.laidOut, fun n mem => (h.spans n mem).mono start stop, h.apart⟩

/-- What fits one after the other fits together. -/
theorem Fits.append (monotone : s.IsMonotone) (first : Fits s a k ns) (last : Fits s k b ms)
    (start : a ≤ k) (stop : k ≤ b) : Fits s a b (ns ++ ms) := by
  refine ⟨?_, ?_, List.pairwise_append.mpr ⟨first.apart, last.apart, fun n mem m mem' => ?_⟩⟩
  · exact List.forall_mem_append.mpr ⟨first.laidOut, last.laidOut⟩
  · exact List.forall_mem_append.mpr ⟨(first.mono (Nat.le_refl a) stop).spans,
      (last.mono start (Nat.le_refl b)).spans⟩
  · exact .inr (.inr ((first.spans n mem).before monotone (last.spans m mem') (Nat.le_refl k)))

/-- Blank nodes may be put together in any order. -/
theorem Blanks.append (h : Blanks s a b ns) (h' : Blanks s a b ms) : Blanks s a b (ns ++ ms) :=
  ⟨List.forall_mem_append.mpr ⟨h.blank, h'.blank⟩,
    List.forall_mem_append.mpr ⟨h.laidOut, h'.laidOut⟩,
    List.forall_mem_append.mpr ⟨h.spans, h'.spans⟩⟩

theorem blanks_nil : Blanks s a b [] :=
  ⟨by simp, by simp, by simp⟩

theorem Blanks.mono (h : Blanks s a b ns) {a' b' : Nat} (start : a' ≤ a) (stop : b ≤ b') :
    Blanks s a' b' ns :=
  ⟨h.blank, h.laidOut, fun n mem => (h.spans n mem).mono start stop⟩

/-- Blank nodes may stand before anything. -/
theorem Blanks.fits_append (h : Blanks s a b ns) (fits : Fits s a b ms) :
    Fits s a b (ns ++ ms) := by
  refine ⟨?_, ?_, List.pairwise_append.mpr ⟨?_, fits.apart, fun n mem m _ => ?_⟩⟩
  · exact List.forall_mem_append.mpr ⟨h.laidOut, fits.laidOut⟩
  · exact List.forall_mem_append.mpr ⟨h.spans, fits.spans⟩
  · exact List.pairwise_iff_getElem.mpr fun i j hi hj _ => .inl (h.blank _ (List.getElem_mem hi))
  · exact .inl (h.blank n mem)

/-- Blank nodes fit. -/
theorem Blanks.fits (h : Blanks s a b ns) : Fits s a b ns := by
  simpa using h.fits_append fits_nil

/-- A placed node fits where its mark says, if its children do. -/
theorem Fits.placed (monotone : s.IsMonotone) {m : Mark} {tag : Text}
    (forward : m.startByte ≤ m.endByte) (placed : PlacedAs s m tag n)
    (below : Fits s m.startByte m.endByte n.children) :
    Fits s m.startByte m.endByte [n] := by
  obtain ⟨fields, placed⟩ := placed
  obtain ⟨start, stop, starts, stops, field⟩ := SourceCode.range_of_place placed
  have range : Span.range? n.fields = some (.int start, .int stop) := by
    rw [Span.range?, show n.fields.field? "range" = _ from field]
  have first : n.rangeStart = start := by rw [Node.rangeStart, Node.ends, range]
  have last : n.rangeStop = stop := by rw [Node.rangeStop, Node.ends, range]
  rw [← first] at starts range
  rw [← last] at stops range
  have laid : n.Laid := by
    refine ⟨⟨range, monotone _ _ forward _ _ starts stops⟩, fun c child => ?_, below.apart⟩
    obtain ⟨i, j, after, -, before, starts', stops'⟩ := below.spans c child
    exact ⟨monotone _ _ after _ _ starts starts', monotone _ _ before _ _ stops' stops⟩
  have laidOut : n.LaidOut := .intro laid below.laidOut
  have spans : Spans s m.startByte m.endByte n :=
    ⟨_, _, Nat.le_refl _, forward, Nat.le_refl _, starts, stops⟩
  exact ⟨by simpa using laidOut, by simpa using spans, List.pairwise_singleton _ _⟩

/-- A placed node of a leaf kind without children is blank. -/
theorem Blanks.placed (monotone : s.IsMonotone) {m : Mark} {tag : Text} {fields : Fields}
    (forward : m.startByte ≤ m.endByte) (leaf : (Kind.ofTag tag).isLeaf)
    (alone : Node.childrenIn fields = []) :
    Ensures (fun n => Blanks s m.startByte m.endByte [n]) (s.place m tag fields) := by
  intro n placed
  have children : n.children = [] := (SourceCode.children_of_place placed).trans alone
  have fits := Fits.placed monotone forward ⟨fields, placed⟩ (children ▸ fits_nil)
  refine ⟨?_, fits.laidOut, fits.spans⟩
  simp [Node.isBlank, Node.kind, SourceCode.tag_of_place placed, leaf, children]

/-! ## Nodes in the order of a row -/

variable {c : Concrete} {cs ds : List Concrete}

/-- Wherever the concrete nodes stand in a row, the syntax nodes fit. -/
def Lays (s : SourceCode) (cs : List Concrete) (ns : List Node) : Prop :=
  ∀ a b, Row a b cs → Fits s a b ns

theorem lays_nil : Lays s [] [] :=
  fun _ _ _ => fits_nil

/-- Lists that are laid out one after the other are laid out together. -/
theorem Lays.append (monotone : s.IsMonotone) (h : Lays s cs ns) (h' : Lays s ds ms) :
    Lays s (cs ++ ds) (ns ++ ms) := by
  intro a b row
  obtain ⟨k, first, last⟩ := row.split
  exact (h a k first).append monotone (h' k b last) first.le last.le

/-- What fits in one node is laid out by it. -/
theorem lays_single (fits : Fits s c.mark.startByte c.mark.endByte ns) : Lays s [c] ns := by
  intro a b row
  cases row with
  | cons starts _ later => exact fits.mono starts later.le

/-- What the node converts to fits where the node stands. -/
def Sits (s : SourceCode) (c : Concrete) : Prop :=
  Ensures (fun r => Fits s c.mark.startByte c.mark.endByte r.toList) (convert s c)

/-- What conversion emits is laid out by the nodes that it converts. -/
theorem Lays.of_emits (monotone : s.IsMonotone) (h : Emits s cs ns) (sits : ∀ c ∈ cs, Sits s c) :
    Lays s cs ns := by
  obtain ⟨converts, rfl⟩ := h
  induction cs with
  | nil => exact lays_nil
  | cons c cs ih =>
      obtain ⟨first, converts⟩ := List.forall_mem_cons.mp converts
      obtain ⟨here, sits⟩ := List.forall_mem_cons.mp sits
      obtain ⟨r, gives⟩ := Except.isOk_iff.mp first
      rw [List.flatMap_cons, converted_of_convert gives]
      exact (lays_single (here r gives)).append monotone (ih sits converts)

/-- One step for each node of a row. -/
theorem lays_mapM {β : Type} (monotone : s.IsMonotone) {f : Concrete → Except ConcreteFault β}
    {below : β → List Node}
    (each : ∀ c ∈ cs, Ensures (fun r => Fits s c.mark.startByte c.mark.endByte (below r)) (f c)) :
    Ensures (fun rs => Lays s cs (rs.flatMap below)) (cs.mapM f) := by
  have steps : ∀ c ∈ cs, Ensures (fun r => Lays s [c] (below r)) (f c) :=
    fun c mem r gives => lays_single (each c mem r gives)
  have run := Ensures.mapM lays_nil (Lays.append monotone) steps
  rwa [List.flatMap_singleton'] at run

end

/-! ## Trees in order -/

/-- The nodes that the rule for a node puts together, in the order in which it does. -/
def emitted (c : Concrete) : List Concrete :=
  match c.symbol with
  | .importStatement => ofSymbol c.children .importClause ++ inRoles c.children ["source"]
  | .pair | .pairPattern => memberUses c
  | _ => c.uses

/-- The children of a node stand one after the other in its range, and so does what its rule puts
together. The substitutions of a template stand between its quotes. -/
structure Arranged (c : Concrete) : Prop where
  forward : c.mark.startByte ≤ c.mark.endByte
  inside : ∀ d : Concrete, d ∈ c.children →
    c.mark.startByte ≤ d.mark.startByte ∧ d.mark.endByte ≤ c.mark.endByte
  apart : c.children.Pairwise Precedes
  emitted : c.emitted.Pairwise Precedes
  quotes : c.symbol = .templateString → c.mark.startByte + 2 ≤ c.mark.endByte ∧
    ∀ d ∈ c.substitutions, c.mark.startByte + 1 ≤ d.mark.startByte ∧
      d.mark.endByte ≤ c.mark.endByte - 1

/-- The named nodes keep their order. -/
theorem named_sublist (cs : List Concrete) : (named cs).Sublist cs :=
  List.filter_sublist

/-- So do those that conversion keeps. -/
theorem kept_sublist (cs : List Concrete) : (kept cs).Sublist cs :=
  List.filter_sublist.trans (named_sublist cs)

/-- So do those of a symbol. -/
theorem ofSymbol_sublist (cs : List Concrete) (symbol : Symbol) : (ofSymbol cs symbol).Sublist cs :=
  List.filter_sublist.trans (named_sublist cs)

theorem firstKeptOf_sublist (cs : List Concrete) : (firstKeptOf cs).Sublist cs := by
  refine List.Sublist.trans ?_ (kept_sublist cs)
  rw [firstKeptOf]
  cases kept cs with
  | nil => exact .slnil
  | cons c rest => exact List.singleton_sublist.mpr (.head _)

theorem sublist_inRole? (cs : List Concrete) (name : Text) :
    (inRole? cs name).toList.Sublist cs := by
  cases found : inRole? cs name with
  | none => exact List.nil_sublist cs
  | some d => exact List.singleton_sublist.mpr (mem_of_inRole? found)

instance (c d : Concrete) : Decidable (c.Precedes d) :=
  inferInstanceAs (Decidable (_ ≤ _))

instance (c : Concrete) : Decidable c.Arranged :=
  decidable_of_iff
    (c.mark.startByte ≤ c.mark.endByte ∧
      (∀ d ∈ c.children, c.mark.startByte ≤ (mark d).startByte ∧
        (mark d).endByte ≤ c.mark.endByte) ∧
      c.children.Pairwise Precedes ∧ c.emitted.Pairwise Precedes ∧
      (c.symbol = .templateString → c.mark.startByte + 2 ≤ c.mark.endByte ∧
        ∀ d ∈ c.substitutions, c.mark.startByte + 1 ≤ d.mark.startByte ∧
          d.mark.endByte ≤ c.mark.endByte - 1))
    ⟨fun ⟨forward, inside, apart, emitted, quotes⟩ => ⟨forward, inside, apart, emitted, quotes⟩,
      fun ⟨forward, inside, apart, emitted, quotes⟩ => ⟨forward, inside, apart, emitted, quotes⟩⟩

/-- Every node of a tree is arranged. -/
def InOrder (c : Concrete) : Prop :=
  ∀ d ∈ c.subtrees, d.Arranged

instance (c : Concrete) : Decidable c.InOrder :=
  inferInstanceAs (Decidable (∀ d ∈ c.subtrees, d.Arranged))

namespace InOrder

variable {c d : Concrete} {ds : List Concrete}

theorem arranged (h : c.InOrder) : c.Arranged :=
  h c c.mem_subtrees_self

/-- Every part of a tree in order is in order. -/
theorem of_mem_subtrees (h : c.InOrder) (mem : d ∈ c.subtrees) : d.InOrder :=
  fun e below => h e (mem_subtrees_trans mem below)

theorem of_mem_children (h : c.InOrder) (mem : d ∈ c.children) : d.InOrder :=
  h.of_mem_subtrees (mem_subtrees_of_child d.mem_subtrees_self mem)

/-- Every part of a tree stands in its range. -/
theorem inside (h : c.InOrder) (mem : d ∈ c.subtrees) : c.mark.startByte ≤ d.mark.startByte ∧
    d.mark.startByte ≤ d.mark.endByte ∧ d.mark.endByte ≤ c.mark.endByte := by
  induction c using subtrees.induct with
  | case1 m cs ih =>
      have own := h.arranged
      rw [subtrees_node] at mem
      rcases List.mem_cons.mp mem with rfl | below
      · exact ⟨Nat.le_refl _, own.forward, Nat.le_refl _⟩
      · obtain ⟨e, child, below⟩ := List.mem_flatMap.mp below
        obtain ⟨starts, forward, ends⟩ := ih ⟨e, child⟩ (h.of_mem_children child) below
        obtain ⟨starts', ends'⟩ := own.inside e child
        exact ⟨Nat.le_trans starts' starts, forward, Nat.le_trans ends ends'⟩

/-- Parts of a tree that stand apart are a row in its range. -/
theorem row (h : c.InOrder) (below : ∀ d ∈ ds, d ∈ c.subtrees) (apart : ds.Pairwise Precedes) :
    Row c.mark.startByte c.mark.endByte ds :=
  .of_pairwise h.arranged.forward apart fun d mem => h.inside (below d mem)

/-- Some of the children, in their order, are a row. -/
theorem row_of_sublist (h : c.InOrder) (sublist : ds.Sublist c.children) :
    Row c.mark.startByte c.mark.endByte ds := by
  refine h.row (fun d mem => ?_) (h.arranged.apart.sublist sublist)
  exact mem_subtrees_of_child d.mem_subtrees_self (sublist.mem mem)

theorem inside_inRole? (h : c.InOrder) {name : Text} (found : inRole? c.children name = some d) :
    c.mark.startByte ≤ d.mark.startByte ∧ d.mark.startByte ≤ d.mark.endByte ∧
      d.mark.endByte ≤ c.mark.endByte :=
  h.inside (mem_subtrees_of_child d.mem_subtrees_self (mem_of_inRole? found))

/-- What a simple rule converts is a row. -/
theorem row_uses (h : c.InOrder) (simple : ¬c.symbol.isComposed) :
    Row c.mark.startByte c.mark.endByte c.uses := by
  refine h.row (fun d mem => mem_subtrees_of_mem_uses mem) ?_
  have own := h.arranged.emitted
  rw [emitted] at own
  split at own
  · next symbol => simp [symbol, Symbol.isComposed] at simple
  · next symbol =>
      rw [uses, symbol]
      exact h.arranged.apart.sublist List.filter_sublist
  · next symbol =>
      rw [uses, symbol]
      exact h.arranged.apart.sublist List.filter_sublist
  · exact own

/-- What is converted for a property is a row. -/
theorem row_memberUses (h : c.InOrder) (pair : c.symbol = .pair ∨ c.symbol = .pairPattern) :
    Row c.mark.startByte c.mark.endByte (memberUses c) := by
  refine h.row (fun d mem => ?_) ?_
  · obtain ⟨e, same, below⟩ := inside_memberUses (List.mem_singleton_self c) d mem
    rwa [List.mem_singleton.mp same] at below
  · have own := h.arranged.emitted
    rw [emitted] at own
    rcases pair with symbol | symbol
    · rwa [symbol] at own
    · rwa [symbol] at own

end InOrder

/-! ## Rules -/

section

open Node (nodesIn)

variable {s : SourceCode} (monotone : s.IsMonotone) {m : Mark} {c : Concrete}

include monotone

/-- A node that is placed fits if its fields do. -/
theorem fits_place {tag : Text} {fields : Fields} (forward : m.startByte ≤ m.endByte)
    (proper : fields.all (fun field => !Node.isPosition field.1))
    (h : Fits s m.startByte m.endByte (fields.flatMap fun field => nodesIn field.2)) :
    Ensures (fun n => Fits s m.startByte m.endByte [n]) (s.place m tag fields) := by
  intro n placed
  refine Fits.placed monotone forward ⟨fields, placed⟩ ?_
  rwa [SourceCode.children_of_place placed, Node.childrenIn_eq proper]

omit monotone in
/-- Its children fit where its fields do. -/
theorem fits_below {tag : Text} {fields : Fields} {a b : Nat}
    (proper : fields.all (fun field => !Node.isPosition field.1))
    (h : Fits s a b (fields.flatMap fun field => nodesIn field.2)) :
    Ensures (fun n => Fits s a b n.children) (s.place m tag fields) := by
  intro n placed
  rwa [SourceCode.children_of_place placed, Node.childrenIn_eq proper]

/-- An identifier is blank. -/
theorem blanks_identifier (forward : m.startByte ≤ m.endByte) :
    Ensures (fun n => Blanks s m.startByte m.endByte [n]) (identifier s m) :=
  Blanks.placed monotone forward (by decide) rfl

/-! ### Objects -/

/-- A property fits if its key and its value do. -/
theorem fits_property {key value : Value} {computed shorthand : Bool}
    (forward : m.startByte ≤ m.endByte)
    (h : Fits s m.startByte m.endByte (nodesIn key ++ nodesIn value)) :
    Ensures (fun n => Fits s m.startByte m.endByte [n])
      (property s m key computed value shorthand) :=
  fits_place monotone forward rfl (by simpa using h)

/-- A shorthand property with a default: the name stands twice, before and in the pattern. -/
theorem fits_defaulted (ordered : c.InOrder) {left : Concrete}
    (found : inRole? c.children "left" = some left)
    (sits : ∀ d ∈ (inRole? c.children "right").toList, Sits s d) :
    Ensures (fun r : Option Node => Fits s c.mark.startByte c.mark.endByte r.toList) (do
      let name ← identifier s left.mark
      let right ← role (c.children.map (draft s)) "right"
      let value ← s.place c.mark "AssignmentPattern" [("left", name.toValue), ("right", right)]
      property s c.mark name.toValue false value.toValue true) := by
  have forward := ordered.arranged.forward
  obtain ⟨starts, leftForward, ends⟩ := ordered.inside_inRole? found
  refine (blanks_identifier monotone leftForward).bind fun name blank => ?_
  have blank := blank.mono starts ends
  refine (emits_role _ _).bind fun right emitted => ?_
  have rightFits := Lays.of_emits monotone emitted sits _ _
    (ordered.row_of_sublist (sublist_inRole? _ _))
  have pattern : Ensures (fun n : Node => Fits s c.mark.startByte c.mark.endByte [n])
      (s.place c.mark "AssignmentPattern" [("left", name.toValue), ("right", right)]) :=
    fits_place monotone forward rfl (by simpa using blank.fits_append rightFits)
  refine pattern.bind fun value valueFits => ?_
  refine Ensures.bind (fits_property monotone forward ?_) fun n fits => .ok fits
  simpa using blank.fits_append valueFits

/-- A member of an object fits where it stands. -/
theorem fits_member (ordered : c.InOrder) (sits : ∀ d ∈ memberUses c, Sits s d) :
    Ensures (fun r => Fits s c.mark.startByte c.mark.endByte r.toList) (member s (draft s c)) := by
  have forward := ordered.arranged.forward
  have role (name : Text) : inRoles c.children [name] = (inRole? c.children name).toList := by
    simp [inRoles]
  simp only [member, symbol_draft, children_draft, inRole?_draft, mark_draft]
  cases symbol : c.symbol with
  | pair | pairPattern =>
      have row := ordered.row_memberUses (by simp [symbol])
      simp only [memberUses, symbol, role] at sits row
      refine (emits_propertyKey _).bind fun key first => ?_
      refine (emits_role _ _).bind fun value last => ?_
      have fits := Lays.of_emits monotone (first.append last) sits _ _ row
      exact (fits_property monotone forward fits).bind fun n fits => .ok fits
  | shorthandPropertyIdentifier | shorthandPropertyIdentifierPattern =>
      refine (blanks_identifier monotone forward).bind fun name blank => ?_
      have fits := (blank.append blank).fits
      refine Ensures.bind (fits_property monotone forward ?_) fun n fits => .ok fits
      simpa using fits
  | objectAssignmentPattern =>
      simp only [memberUses, symbol] at sits
      cases found : inRole? c.children "left" with
      | none =>
          rw [found] at sits
          exact sits c (by simp)
      | some left =>
          simp only [found, Option.any_some, Option.map_some, symbol_draft, mark_draft] at sits ⊢
          split
          · next named =>
              rw [if_pos named, role] at sits
              exact fits_defaulted monotone ordered found sits
          · next other =>
              rw [if_neg other] at sits
              exact sits c (by simp)
  | _ =>
      simp only [memberUses, symbol] at sits
      exact sits c (by simp)

/-- The members of an object fit where it stands. -/
theorem fits_object {tag : Text} (ordered : c.InOrder)
    (sits : ∀ d ∈ (kept c.children).flatMap memberUses, Sits s d) :
    Ensures (fun n => Fits s c.mark.startByte c.mark.endByte n.children)
      (object s c.mark tag (c.children.map (draft s))) := by
  have each : ∀ d ∈ kept c.children,
      Ensures (fun r => Fits s d.mark.startByte d.mark.endByte r.toList) (member s (draft s d)) :=
    fun d mem => fits_member monotone (ordered.of_mem_children (mem_of_mem_kept mem))
      fun e below => sits e (List.mem_flatMap.mpr ⟨d, mem, below⟩)
  rw [object, kept_draft, List.mapM_map]
  refine (lays_mapM monotone each).bind fun rs lays => fits_below rfl ?_
  rw [List.flatMap_singleton, Node.nodesIn_listOf, filterMap_id_eq_flatMap]
  exact lays _ _ (ordered.row_of_sublist (kept_sublist _))

/-! ### Templates -/

/-- The elements of a template are blank. -/
theorem blanks_templateElement {a b : Nat} (le : a ≤ b) (tail : Bool) :
    Ensures (fun v => Blanks s a b (Node.ofValue? v).toList) (templateElement s a b tail) := by
  intro v made
  obtain ⟨start, starts, made⟩ := Except.bind_eq_ok_iff.mp made
  obtain ⟨stop, stops, made⟩ := Except.bind_eq_ok_iff.mp made
  obtain ⟨cooked, -, made⟩ := Except.bind_eq_ok_iff.mp made
  cases made
  rw [Node.ofValue?_toValue, Option.toList_some]
  generalize element : Node.make "TemplateElement" _ = q
  have first : q.rangeStart = start := by rw [← element]; rfl
  have last : q.rangeStop = stop := by rw [← element]; rfl
  have range : Span.range? q.fields = some (.int start, .int stop) := by rw [← element]; rfl
  have children : q.children = [] := by rw [← element]; rfl
  have blank : q.isBlank := by rw [← element]; rfl
  rw [← first] at starts range
  rw [← last] at stops range
  have laid : q.Laid :=
    ⟨⟨range, monotone a b le _ _ starts stops⟩, by simp [children], by simp [children]⟩
  have laidOut : q.LaidOut := .intro laid (by simp [children])
  have spans : Spans s a b q := ⟨a, b, Nat.le_refl a, le, Nat.le_refl b, starts, stops⟩
  exact ⟨by simpa using blank, by simpa using laidOut, by simpa using spans⟩

/-- The texts of a template are blank. -/
theorem blanks_templateParts {a b lo hi : Nat} {cs : List Concrete} (row : Row a b cs)
    (low : lo ≤ a)
    (high : b ≤ hi) :
    Ensures (fun parts : List Value × List Value => Blanks s lo hi (nodesIn (.list parts.1)))
      (templateParts s b a (cs.map (draft s))) := by
  induction row with
  | nil le =>
      refine (blanks_templateElement monotone le true).bind fun v blank => .ok ?_
      rw [Node.nodesIn_list_cons]
      exact (blank.mono low high).append blanks_nil
  | @cons a b c cs starts forward later ih =>
      have rest := ih (Nat.le_trans low (Nat.le_trans starts forward)) high
      simp only [List.map_cons, templateParts, mark_draft]
      refine (blanks_templateElement monotone starts false).bind fun v blank => ?_
      refine .bind_of_forall fun expression => rest.bind fun parts blanks => .ok ?_
      rw [Node.nodesIn_list_cons]
      exact (blank.mono low (Nat.le_trans forward (Nat.le_trans later.le high))).append blanks

/-- The elements and the substitutions of a template fit where it stands. -/
theorem fits_templateLiteral (ordered : c.InOrder) (symbol : c.symbol = .templateString)
    (sits : ∀ d ∈ Selection.substitutions.among c.children, Sits s d) :
    Ensures (fun n => Fits s c.mark.startByte c.mark.endByte n.children)
      (templateLiteral s c.mark (c.children.map (draft s))) := by
  obtain ⟨quotes, between⟩ := ordered.arranged.quotes symbol
  have sublist := ofSymbol_sublist c.children .templateSubstitution
  have child {d : Concrete} (mem : d ∈ c.substitutions) := ordered.of_mem_children (sublist.mem mem)
  have inner : Row (c.mark.startByte + 1) (c.mark.endByte - 1) c.substitutions := by
    refine .of_pairwise (by omega) (ordered.arranged.apart.sublist sublist) fun d mem => ?_
    exact ⟨(between d mem).1, (child mem).arranged.forward, (between d mem).2⟩
  have row : Row c.mark.startByte c.mark.endByte (Selection.substitutions.among c.children) :=
    (ordered.row_of_sublist sublist).flatMap fun d mem =>
      (child mem).row_of_sublist (firstKeptOf_sublist _)
  rw [templateLiteral, ofSymbol_draft]
  intro n made
  obtain ⟨parts, cut, placed⟩ := Except.bind_eq_ok_iff.mp made
  have expressions := Lays.of_emits monotone (emits_templateParts _ parts cut) sits _ _ row
  have stop : (c.mark.endByte : Int) - 1 = (c.mark.endByte - 1 : Nat) := by omega
  rw [stop] at cut
  have texts := blanks_templateParts monotone inner (Nat.le_succ _) (Nat.sub_le _ 1) parts cut
  refine fits_below rfl ?_ n placed
  simpa using texts.fits_append expressions

/-! ### Imports -/

/-- The name of a module is blank. -/
theorem blanks_moduleName {a b : Nat} {name : Option Concrete}
    (within : ∀ d ∈ name, a ≤ d.mark.startByte ∧ d.mark.startByte ≤ d.mark.endByte ∧
      d.mark.endByte ≤ b) :
    Ensures (fun v => Blanks s a b (nodesIn v)) (moduleName s (name.map (draft s))) := by
  cases name with
  | none => exact .ok blanks_nil
  | some d =>
      obtain ⟨starts, forward, ends⟩ := within d rfl
      simp only [Option.map_some, moduleName, mark_draft, symbol_draft]
      split
      · refine .bind_of_forall fun name => ?_
        refine Ensures.map (Blanks.placed monotone forward (by decide) rfl) fun n blank => ?_
        rw [Node.nodesIn_toValue]
        exact blank.mono starts ends
      · refine (blanks_identifier monotone forward).map fun n blank => ?_
        rw [Node.nodesIn_toValue]
        exact blank.mono starts ends

/-- An import specifier fits where it stands. -/
theorem fits_importSpecifier (ordered : c.InOrder) :
    Ensures (fun n => Fits s c.mark.startByte c.mark.endByte [n])
      (importSpecifier s (draft s c)) := by
  rw [importSpecifier, children_draft, inRole?_draft, inRole?_draft, orElse_draft, mark_draft]
  have either : ∀ d ∈ (inRole? c.children "alias").or (inRole? c.children "name"),
      c.mark.startByte ≤ d.mark.startByte ∧ d.mark.startByte ≤ d.mark.endByte ∧
        d.mark.endByte ≤ c.mark.endByte := by
    intro d found
    rcases Option.or_eq_some_iff.mp found with found | ⟨-, found⟩
    · exact ordered.inside_inRole? found
    · exact ordered.inside_inRole? found
  refine (blanks_moduleName monotone either).bind fun localName first => ?_
  refine (blanks_moduleName monotone fun d => ordered.inside_inRole?).bind fun imported last => ?_
  refine fits_place monotone ordered.arranged.forward rfl ?_
  simpa using (first.append last).fits

/-- So does every part of an import. -/
theorem fits_importPart (ordered : c.InOrder) :
    Ensures (Fits s c.mark.startByte c.mark.endByte) (importPart s (draft s c)) := by
  have forward := ordered.arranged.forward
  have specifier {m : Mark} {tag : Text} (inside : c.mark.startByte ≤ m.startByte ∧
      m.startByte ≤ m.endByte ∧ m.endByte ≤ c.mark.endByte) :
      Ensures (Fits s c.mark.startByte c.mark.endByte) (do
        let name ← identifier s m
        let specifier ← s.place c.mark tag [("local", name.toValue)]
        .ok [specifier]) := by
    obtain ⟨starts, inward, ends⟩ := inside
    refine (blanks_identifier monotone inward).bind fun name blank => ?_
    refine Ensures.bind (fits_place monotone forward rfl ?_) fun n fits => .ok fits
    simpa using (blank.mono starts ends).fits
  rw [importPart, symbol_draft, mark_draft, children_draft, ofSymbol_draft]
  split
  · exact specifier ⟨Nat.le_refl _, forward, Nat.le_refl _⟩
  · rw [named_draft, List.find?_map]
    cases found : (named c.children).find? _ with
    | none => exact .ok fits_nil
    | some target =>
        have child := mem_of_mem_named (List.mem_of_find?_eq_some found)
        have inside := ordered.inside (mem_subtrees_of_child (mem_subtrees_self target) child)
        simp only [Option.map_some, mark_draft]
        exact specifier inside
  · have each : ∀ d ∈ ofSymbol c.children .importSpecifier,
        Ensures (fun n => Fits s d.mark.startByte d.mark.endByte [n])
          (importSpecifier s (draft s d)) :=
      fun d mem => fits_importSpecifier monotone (ordered.of_mem_children (mem_of_mem_ofSymbol mem))
    intro ns made
    rw [List.mapM_map] at made
    have fits : Fits s c.mark.startByte c.mark.endByte (ns.flatMap fun n => [n]) :=
      lays_mapM monotone each ns made _ _ (ordered.row_of_sublist (ofSymbol_sublist _ _))
    rwa [List.flatMap_singleton'] at fits
  · exact .ok fits_nil

/-- The parts of an import and the module fit where it stands. -/
theorem fits_importDeclaration (ordered : c.InOrder) (symbol : c.symbol = .importStatement)
    (sits : ∀ d ∈ inRoles c.children ["source"], Sits s d) :
    Ensures (fun n => Fits s c.mark.startByte c.mark.endByte n.children)
      (importDeclaration s c.mark (c.children.map (draft s))) := by
  have clause := ofSymbol_sublist c.children .importClause
  have source : inRoles c.children ["source"] = (inRole? c.children "source").toList := by
    simp [inRoles]
  have row : Row c.mark.startByte c.mark.endByte
      (ofSymbol c.children .importClause ++ inRoles c.children ["source"]) := by
    have own := ordered.arranged.emitted
    rw [emitted, symbol] at own
    refine ordered.row (List.forall_mem_append.mpr ⟨fun d mem => ?_, fun d mem => ?_⟩) own
    · exact mem_subtrees_of_child d.mem_subtrees_self (clause.mem mem)
    · rw [source] at mem
      exact mem_subtrees_of_child d.mem_subtrees_self ((sublist_inRole? _ _).mem mem)
  obtain ⟨k, first, last⟩ := row.split
  have parts : Row c.mark.startByte k
      ((ofSymbol c.children .importClause).flatMap fun d => named d.children) :=
    first.flatMap fun d mem =>
      (ordered.of_mem_children (clause.mem mem)).row_of_sublist (named_sublist _)
  have each : ∀ d ∈ (ofSymbol c.children .importClause).flatMap fun d => named d.children,
      Ensures (fun ns => Fits s d.mark.startByte d.mark.endByte (id ns))
        (importPart s (draft s d)) := by
    intro d mem
    obtain ⟨e, listed, child⟩ := List.mem_flatMap.mp mem
    exact fits_importPart monotone
      ((ordered.of_mem_children (clause.mem listed)).of_mem_children (mem_of_mem_named child))
  have drafts : ((ofSymbol c.children .importClause).map (draft s)).flatMap
      (fun d => named d.children) =
        ((ofSymbol c.children .importClause).flatMap fun d => named d.children).map (draft s) := by
    simp [List.flatMap_map, List.map_flatMap]
  rw [importDeclaration, ofSymbol_draft, drafts, List.mapM_map]
  refine (lays_mapM monotone each).bind fun specifiers lays => ?_
  refine (emits_role _ _).bind fun v emitted => fits_below rfl ?_
  rw [source] at sits last
  have fits := Lays.of_emits monotone emitted sits _ _ last
  rw [List.flatMap_id] at lays
  simpa using (lays _ _ parts).append monotone fits parts.le last.le

/-! ### All rules -/

/-- What a rule puts below a node fits where the node stands, if what it has converted does. -/
theorem fits_assembleKept (ordered : c.InOrder) (kept : ¬c.symbol.isSkipped)
    (sits : ∀ d ∈ c.uses, Sits s d) :
    Ensures (fun n => Fits s c.mark.startByte c.mark.endByte n.children)
      (assembleKept s c.mark (c.children.map (draft s))) := by
  by_cases composed : c.symbol.isComposed
  · have symbolEq : c.mark.symbol = c.symbol := rfl
    rw [uses] at sits
    rw [assembleKept, symbolEq]
    cases symbol : c.symbol with
    | templateString =>
        rw [symbol] at sits
        exact fits_templateLiteral monotone ordered symbol sits
    | object | objectPattern =>
        rw [symbol] at sits
        exact fits_object monotone ordered sits
    | importStatement =>
        rw [symbol] at sits
        exact fits_importDeclaration monotone ordered symbol sits
    | _ => simp [symbol, Symbol.isComposed] at composed
  · intro n made
    have emitted := emits_assembleKept kept composed n made
    exact Lays.of_emits monotone emitted sits _ _ (ordered.row_uses composed)

/-- Whatever a tree in order converts to is laid out and fits where the tree stands. -/
theorem sits_of_inOrder (ordered : c.InOrder) : Sits s c := by
  induction c using visited.induct with
  | case1 c ih =>
      have sits : ∀ d ∈ c.uses, Sits s d := fun d used =>
        ih ⟨d, used⟩ (ordered.of_mem_subtrees (mem_subtrees_of_mem_uses used))
      intro r converts
      by_cases skipped : c.symbol.isSkipped
      · rw [convert_of_isSkipped s skipped] at converts
        cases converts
        exact fits_nil
      · cases inside : c.inside? with
        | some d =>
            have used := mem_uses_of_inside? inside
            obtain ⟨starts, -, ends⟩ := ordered.inside (mem_subtrees_of_mem_uses used)
            rw [convert_of_inside? inside] at converts
            exact (sits d used r converts).mono starts ends
        | none =>
            cases r with
            | none => exact absurd converts (convert_ne_none s skipped)
            | some n =>
                have made := assembleKept_of_convert inside converts
                exact .placed monotone ordered.arranged.forward
                  (placedAs_assembleKept s c.mark _ n made)
                  (fits_assembleKept monotone ordered skipped sits n made)

end

/-- Conversion keeps the order of the source: in what a tree in order converts to, every node has a
range that holds those of its children, and the nodes that are of no leaf kind start in order. So
every search that passes over the leaf kinds finds its nodes one after the other, and so do the
searches for declarations and for the values of exports. -/
theorem convert_keeps_order {code : Text} {c : Concrete} (ordered : c.InOrder) {n : Node}
    (h : convert (.ofText code) c = .ok (some n)) :
    (∀ m ∈ n.walk, m.HasRange ∧ ∀ k ∈ m.children, m.Encloses k) ∧
      (n.walk.filter (!·.kind.isLeaf)).Pairwise (fun m k => m.rangeStart ≤ k.rangeStart) ∧
      (∀ q : Query, q.isLeaf = Kind.isLeaf →
        (q.run n).accepted.Pairwise Node.Before ∧ (q.run n).suspects.Pairwise Node.Before) ∧
      (∀ p, (n.search p).Pairwise Node.Before) ∧
      (∀ p found, n.declarationsOf p = .ok found → found.Pairwise Node.Before) ∧
      ∀ p values, n.exports p = .ok values →
        (values.filterMap Prod.fst).Pairwise Node.Before := by
  have fits := sits_of_inOrder (SourceCode.isMonotone_ofText code) ordered _ h
  have laidOut : n.LaidOut := fits.laidOut n (.head _)
  refine ⟨fun m mem => ?_, laidOut.pairwise_walk, fun q leaves => ?_, laidOut.pairwise_search,
    fun p found => laidOut.pairwise_declarationsOf, fun p values => laidOut.pairwise_exports⟩
  · have laid := (laidOut.of_mem_walk mem).laid
    exact ⟨laid.range, laid.inside⟩
  · rw [Query.run_eq_collect]
    exact laidOut.pairwise_collect leaves

end Concrete

namespace Sample

def patternSource : Text :=
  "var \x7ba = `x$\x7b1\x7d`\x7d = \x7bb\x7d"

/-- The tree of ``var {a = `x${1}`} = {b}``. -/
def patterns : Concrete :=
  .node (mark "variable_declaration" 0 23 none) [
    .node (mark "variable_declarator" 4 23 none) [
      .node (mark "object_pattern" 4 17 (some "name")) [
        .node (mark "object_assignment_pattern" 5 16 none) [
          .node (mark "shorthand_property_identifier_pattern" 5 6 (some "left")) [],
          .node (mark "template_string" 9 16 (some "right")) [
            .node (mark "template_substitution" 11 15 none) [
              .node (mark "number" 13 14 none) []]]]],
      .node (mark "object" 20 23 (some "value")) [
        .node (mark "shorthand_property_identifier" 21 22 none) []]]]

end Sample

open Sample in
/-- A pattern with a default value that is a template. -/
theorem Concrete.convert_keeps_order_patterns :
    patterns.InOrder ∧ ∃ n, convert (.ofText patternSource) patterns = .ok (some n) ∧
      (n.walk.filter (!·.kind.isLeaf)).Pairwise (fun m k => m.rangeStart ≤ k.rangeStart) ∧
      (n.search (·.kind = .property)).length = 2 ∧
      (n.search (·.kind = .property)).Pairwise Node.Before := by
  obtain ⟨ordered, found⟩ : patterns.InOrder ∧
      (convert (.ofText patternSource) patterns).toOption.join.any fun n =>
        (n.search (·.kind = .property)).length = 2 := by
    decide +kernel
  obtain ⟨n, joined, count⟩ := (Option.any_eq_true _ _).mp found
  have converts : convert (.ofText patternSource) patterns = .ok (some n) :=
    Except.toOption_eq_some_iff.mp (Option.join_eq_some_iff.mp joined)
  obtain ⟨-, starts, -, searched, -⟩ := convert_keeps_order ordered converts
  exact ⟨ordered, n, converts, starts, of_decide_eq_true count, searched _⟩

end EnvReads
