import EnvReads.Module.Export
import EnvReads.Proofs.ModuleReferences
import EnvReads.Proofs.SearchOrder

/-!
# Trees that are laid out like their source

In a tree that is laid out (`Node.LaidOut`) the range of every node holds the ranges of its
children, and of two children the first ends before the second starts. A node of a leaf kind without
children is exempt from the second rule: it may be a copy, or stand before what it follows in the
source. No search enters such nodes, so whatever is searched for in the tree is found in the order
of the source, and so are the declarations and the exports of a module.
-/

namespace EnvReads

/-- What passes a test that can fail is left in its order. -/
theorem Fault.filter_sublist {α : Type} {p : α → Except Fault Bool} {xs ys : List α}
    (h : Fault.filter p xs = .ok ys) : ys.Sublist xs := by
  induction xs generalizing ys with
  | nil =>
      cases h
      exact .slnil
  | cons x rest ih =>
      obtain ⟨passes, -, h⟩ := Except.bind_eq_ok_iff.mp h
      obtain ⟨more, later, h⟩ := Except.bind_eq_ok_iff.mp h
      cases h
      cases passes with
      | true => exact (ih later).cons_cons x
      | false => exact (ih later).cons x

namespace Node

/-- The nodes in a field are some of the children. -/
theorem childrenOf_sublist {n : Node} {role : Text} (field : ¬isPosition role) :
    (n.childrenOf role).Sublist n.children := by
  have each : ∀ fields : Fields,
      ((fields.field? role).elim [] nodesIn).Sublist (fields.flatMap childrenOfField) := by
    intro fields
    induction fields with
    | nil => exact .slnil
    | cons entry rest ih =>
        obtain ⟨name, v⟩ := entry
        rw [Fields.field?, List.lookup_cons, List.flatMap_cons]
        split
        · next same =>
            have own : childrenOfField (name, v) = nodesIn v := by
              rw [childrenOfField, if_neg (beq_iff_eq.mp same ▸ field)]
            rw [own]
            exact List.sublist_append_left _ _
        · exact ih.trans (List.sublist_append_right _ _)
  exact each n.fields

/-! ## Ranges -/

/-- The start and the end of the range of a node. -/
def ends (n : Node) : Int × Int :=
  match Span.range? n.fields with
  | some (.int start, .int stop) => (start, stop)
  | _ => (0, 0)

def rangeStart (n : Node) : Int :=
  n.ends.1

def rangeStop (n : Node) : Int :=
  n.ends.2

/-- The node has a range, and that does not end before it starts. -/
structure HasRange (n : Node) : Prop where
  range : Span.range? n.fields = some (.int n.rangeStart, .int n.rangeStop)
  forward : n.rangeStart ≤ n.rangeStop

/-- The range of the second node lies in that of the first. -/
structure Encloses (n m : Node) : Prop where
  start : n.rangeStart ≤ m.rangeStart
  stop : m.rangeStop ≤ n.rangeStop

theorem Encloses.refl (n : Node) : n.Encloses n :=
  ⟨Int.le_refl _, Int.le_refl _⟩

/-- What is enclosed in something enclosed is enclosed. -/
theorem Encloses.trans {n m k : Node} (h : n.Encloses m) (h' : m.Encloses k) : n.Encloses k :=
  ⟨Int.le_trans h.start h'.start, Int.le_trans h'.stop h.stop⟩

/-- The first node ends before the second one starts. -/
def Before (n m : Node) : Prop :=
  n.rangeStop ≤ m.rangeStart

/-- Parts of nodes that come one before the other do so too. -/
theorem Before.of_encloses {n m k l : Node} (h : n.Before m) (first : n.Encloses k)
    (last : m.Encloses l) : k.Before l :=
  Int.le_trans first.stop (Int.le_trans h last.start)

/-! ## Layout -/

/-- A node of a leaf kind that has no children. -/
def isBlank (n : Node) : Bool :=
  n.kind.isLeaf && n.children.isEmpty

theorem isBlank_eq_false {n : Node} (h : n.kind.isLeaf = false) : n.isBlank = false := by
  rw [isBlank, h, Bool.false_and]

/-- A node with children is not blank. -/
theorem isBlank_eq_false_of_mem {n c : Node} (h : c ∈ n.children) : n.isBlank = false := by
  rw [isBlank, List.isEmpty_eq_false_iff.mpr (List.ne_nil_of_mem h), Bool.and_false]

/-- The children of a node stand in its range, and one after the other, blank ones apart. -/
structure Laid (n : Node) : Prop where
  range : n.HasRange
  inside : ∀ c ∈ n.children, n.Encloses c
  apart : n.children.Pairwise fun c d => c.isBlank ∨ d.isBlank ∨ c.Before d

/-- The children of every node of a tree are laid out. -/
inductive LaidOut : Node → Prop
  | intro {n : Node} : n.Laid → (∀ c ∈ n.children, LaidOut c) → LaidOut n

namespace LaidOut

variable {n m c d : Node}

/-- A tree that is laid out is so at its root. -/
theorem laid (h : n.LaidOut) : n.Laid := by
  cases h with
  | intro laid => exact laid

/-- The children of a tree that is laid out are laid out. -/
theorem of_mem_children (h : n.LaidOut) (mem : c ∈ n.children) : c.LaidOut := by
  cases h with
  | intro _ below => exact below c mem

/-- So are all nodes below. -/
theorem of_mem_walk (h : n.LaidOut) (mem : m ∈ n.walk) : m.LaidOut := by
  induction h with
  | @intro n laid below ih =>
      rw [walk_eq] at mem
      rcases List.mem_cons.mp mem with rfl | mem
      · exact .intro laid below
      · obtain ⟨c, child, mem⟩ := List.mem_flatMap.mp mem
        exact ih c child mem

/-- All of a tree lies in the range of its root. -/
theorem encloses (h : n.LaidOut) (mem : m ∈ n.walk) : n.Encloses m := by
  induction h with
  | @intro n laid below ih =>
      rw [walk_eq] at mem
      rcases List.mem_cons.mp mem with rfl | mem
      · exact .refl _
      · obtain ⟨c, child, mem⟩ := List.mem_flatMap.mp mem
        exact (laid.inside c child).trans (ih c child mem)

/-- Below a blank node all are blank. -/
theorem isBlank_of_mem_walk (blank : c.isBlank) (mem : m ∈ c.walk) : m.isBlank := by
  rw [isBlank, Bool.and_eq_true, List.isEmpty_iff] at blank
  rw [walk_eq, blank.2] at mem
  rw [List.mem_singleton.mp mem, isBlank, blank.1, blank.2]
  rfl

/-- What lies in two trees that stand apart stands apart. -/
theorem before (first : c.LaidOut) (last : d.LaidOut)
    (apart : c.isBlank ∨ d.isBlank ∨ c.Before d) {m k : Node} (mem : m ∈ c.walk)
    (mem' : k ∈ d.walk) (solid : m.isBlank = false) (solid' : k.isBlank = false) : m.Before k := by
  rcases apart with blank | blank | before
  · exact absurd (isBlank_of_mem_walk blank mem) (Bool.eq_false_iff.mp solid)
  · exact absurd (isBlank_of_mem_walk blank mem') (Bool.eq_false_iff.mp solid')
  · exact before.of_encloses (first.encloses mem) (last.encloses mem')

/-- A choice of nodes from each child stands in order if each part does. -/
theorem pairwise_flatMap (h : n.LaidOut) {choose : Node → List Node} {r : Node → Node → Prop}
    (chosen : ∀ c ∈ n.children, ∀ m ∈ choose c, m ∈ c.walk ∧ m.isBlank = false)
    (ordered : ∀ m k : Node, m.HasRange → m.Before k → r m k)
    (each : ∀ c ∈ n.children, (choose c).Pairwise r) :
    (n.children.flatMap choose).Pairwise r := by
  refine List.pairwise_flatMap.mpr ⟨each, h.laid.apart.imp_of_mem ?_⟩
  intro c d first last apart m mem k mem'
  obtain ⟨walked, solid⟩ := chosen c first m mem
  obtain ⟨walked', solid'⟩ := chosen d last k mem'
  have firstLaid := h.of_mem_children first
  refine ordered m k (firstLaid.of_mem_walk walked).laid.range ?_
  exact firstLaid.before (h.of_mem_children last) apart walked walked' solid solid'

/-- The nodes that are of no leaf kind start in order. -/
theorem pairwise_walk (h : n.LaidOut) :
    (n.walk.filter (!·.kind.isLeaf)).Pairwise fun m k => m.rangeStart ≤ k.rangeStart := by
  induction h with
  | @intro n laid below ih =>
      have whole : n.LaidOut := .intro laid below
      have later : ((n.children.flatMap walk).filter (!·.kind.isLeaf)).Pairwise
          fun m k => m.rangeStart ≤ k.rangeStart := by
        rw [List.filter_flatMap]
        refine whole.pairwise_flatMap (fun c child m mem => ?_) (fun m k range before => ?_) ih
        · obtain ⟨walked, solid⟩ := List.mem_filter.mp mem
          exact ⟨walked, isBlank_eq_false (by simpa using solid)⟩
        · exact Int.le_trans range.forward before
      rw [walk_eq, List.filter_cons]
      split
      · refine List.pairwise_cons.mpr ⟨fun m mem => ?_, later⟩
        have walked : m ∈ n.walk := walk_eq n ▸ List.mem_cons_of_mem n (List.mem_filter.mp mem).1
        exact (whole.encloses walked).start
      · exact later

/-! ## Searches -/

variable {q : Query}

/-- What a search finds stands in the tree and is not blank. -/
theorem mem_walk_of_mem_collect (leaves : q.isLeaf = Kind.isLeaf)
    (mem : m ∈ (q.collect n).accepted ∨ m ∈ (q.collect n).suspects) :
    m ∈ n.walk ∧ m.isBlank = false := by
  have self : n ∈ n.walk := walk_eq n ▸ List.mem_cons_self
  induction n using Query.collect.induct q with
  | case1 n leaf =>
      rw [Query.collect, if_pos leaf] at mem
      simp at mem
  | case2 n leaf accept =>
      rw [Query.collect, if_neg leaf, if_pos accept] at mem
      obtain rfl : m = n := by simpa using mem
      exact ⟨self, isBlank_eq_false (leaves ▸ Bool.eq_false_iff.mpr leaf)⟩
  | case3 n leaf accept suspect =>
      rw [Query.collect, if_neg leaf, if_neg accept, if_pos suspect] at mem
      obtain rfl : m = n := by simpa using mem
      exact ⟨self, isBlank_eq_false (leaves ▸ Bool.eq_false_iff.mpr leaf)⟩
  | case4 n leaf accept suspect ih =>
      rw [Query.collect_of_enters leaf accept suspect] at mem
      obtain ⟨c, child, found⟩ : ∃ c ∈ n.children,
          m ∈ (q.collect c).accepted ∨ m ∈ (q.collect c).suspects := by
        rcases mem with mem | mem
        · obtain ⟨c, child, found⟩ := List.mem_flatMap.mp mem
          exact ⟨c, child, .inl found⟩
        · obtain ⟨c, child, found⟩ := List.mem_flatMap.mp mem
          exact ⟨c, child, .inr found⟩
      obtain ⟨walked, solid⟩ := ih ⟨c, child⟩ found (walk_eq c ▸ List.mem_cons_self)
      rw [walk_eq]
      exact ⟨List.mem_cons_of_mem n (List.mem_flatMap.mpr ⟨c, child, walked⟩), solid⟩

/-- Whatever a search that passes over the leaf kinds collects stands one after the other. -/
theorem pairwise_collect (h : n.LaidOut) (leaves : q.isLeaf = Kind.isLeaf) :
    (q.collect n).accepted.Pairwise Before ∧ (q.collect n).suspects.Pairwise Before := by
  induction h with
  | @intro n laid below ih =>
      by_cases leaf : q.isLeaf n.kind
      · rw [Query.collect, if_pos leaf]
        exact ⟨.nil, .nil⟩
      by_cases accept : q.accepts n
      · rw [Query.collect, if_neg leaf, if_pos accept]
        exact ⟨List.pairwise_singleton _ _, .nil⟩
      by_cases suspect : q.suspects n
      · rw [Query.collect, if_neg leaf, if_neg accept, if_pos suspect]
        exact ⟨.nil, List.pairwise_singleton _ _⟩
      have whole : n.LaidOut := .intro laid below
      rw [Query.collect_of_enters leaf accept suspect]
      constructor
      · refine whole.pairwise_flatMap (fun c _ m mem => ?_) (fun _ _ _ before => before)
          fun c child => (ih c child).1
        exact mem_walk_of_mem_collect leaves (.inl mem)
      · refine whole.pairwise_flatMap (fun c _ m mem => ?_) (fun _ _ _ before => before)
          fun c child => (ih c child).2
        exact mem_walk_of_mem_collect leaves (.inr mem)

/-- A search finds nodes in the order of the source. -/
theorem pairwise_search (h : n.LaidOut) (p : Node → Bool) : (n.search p).Pairwise Before := by
  rw [search, Query.run_eq_collect]
  exact (h.pairwise_collect rfl).1

theorem mem_walk_of_mem_search {p : Node → Bool} (mem : m ∈ n.search p) : m ∈ n.walk := by
  rw [search, Query.run_eq_collect] at mem
  exact (mem_walk_of_mem_collect rfl (.inl mem)).1

/-- Declarations are found in the order of the source. -/
theorem pairwise_declarationsOf (h : n.LaidOut) {p : StaticPath} {found : List Node}
    (searched : n.declarationsOf p = .ok found) : found.Pairwise Before :=
  (h.pairwise_search _).sublist (Fault.filter_sublist searched)

/-! ## Exports -/

end LaidOut

/-- The nodes stand in the range of a node, one after the other. -/
structure Holds (n : Node) (nodes : List Node) : Prop where
  inside : ∀ m ∈ nodes, n.Encloses m
  apart : nodes.Pairwise Before

namespace Holds

variable {n c : Node} {nodes : List Node} {role : Text}

theorem nil : n.Holds [] :=
  ⟨fun _ mem => absurd mem List.not_mem_nil, .nil⟩

/-- What a part of a node holds the node holds. -/
theorem of_encloses (h : c.Holds nodes) (inside : n.Encloses c) : n.Holds nodes :=
  ⟨fun m mem => inside.trans (h.inside m mem), h.apart⟩

/-- A node holds the child in a role. -/
theorem child? (h : n.LaidOut) (field : ¬isPosition role) : n.Holds (n.child? role).toList := by
  cases child : n.child? role with
  | none => exact .nil
  | some c =>
      have mem := mem_children_of_mem_childrenOf (mem_childrenOf_of_child? child) field
      refine ⟨fun m found => ?_, List.pairwise_singleton _ _⟩
      rw [List.mem_singleton.mp found]
      exact h.laid.inside c mem

/-- In each of some children, the node in a role. -/
theorem filterMap_child? (h : n.LaidOut) (sublist : nodes.Sublist n.children)
    (field : ¬isPosition role) : n.Holds (nodes.filterMap (Node.child? · role)) := by
  have within {d m : Node} (mem : d ∈ nodes) (found : d.child? role = some m) :
      d ∈ n.children ∧ d.isBlank = false ∧ d.Encloses m := by
    have child := mem_children_of_mem_childrenOf (mem_childrenOf_of_child? found) field
    have laid := h.of_mem_children (sublist.mem mem)
    exact ⟨sublist.mem mem, isBlank_eq_false_of_mem child, laid.laid.inside m child⟩
  constructor
  · intro m mem
    obtain ⟨d, listed, found⟩ := List.mem_filterMap.mp mem
    obtain ⟨child, -, inside⟩ := within listed found
    exact (h.laid.inside d child).trans inside
  · refine List.pairwise_filterMap.mpr ((h.laid.apart.sublist sublist).imp_of_mem ?_)
    intro d e first last apart m found k found'
    obtain ⟨-, solid, inside⟩ := within first found
    obtain ⟨-, solid', inside'⟩ := within last found'
    have before : d.Before e := by simpa [solid, solid'] using apart
    exact before.of_encloses inside inside'

/-- What a node gives to an export stands in the node. -/
theorem exportedAt (h : n.LaidOut) {p : ExportPath} {values : List (Option Node × List Value)}
    (given : n.exportedAt p = .ok values) : n.Holds (values.filterMap Prod.fst) := by
  have single (role : Text) (field : ¬isPosition role) (keys : List Value) :
      n.Holds ([(n.child? role, keys)].filterMap Prod.fst) := by
    have own := child? h field
    cases found : n.child? role with
    | none => exact .nil
    | some c => exact found ▸ own
  rw [Node.exportedAt] at given
  split at given
  · obtain ⟨path, -, given⟩ := Except.bind_eq_ok_iff.mp given
    split at given
    · cases given
      split
      · exact single "right" (by decide) _
      · exact .nil
    · cases given
      exact .nil
  · cases given
    rw [declaredExport]
    split
    · next declaration found =>
        have child := mem_children_of_mem_childrenOf (mem_childrenOf_of_child? found) (by decide)
        split
        · rw [List.filterMap_map]
          change n.Holds (List.filterMap (Node.child? · "init") _)
          refine of_encloses (filterMap_child? (h.of_mem_children child) ?_ (by decide))
            (h.laid.inside _ child)
          exact List.filter_sublist.trans (childrenOf_sublist (by decide))
        · exact .nil
    · exact .nil
  · cases given
    split
    · exact single "declaration" (by decide) _
    · exact .nil
  · cases given
    exact .nil

end Holds

/-- Nodes that stand one after the other give their values in order. -/
theorem ordered_mapM_exportedAt {p : ExportPath} {es : List Node} (laid : ∀ e ∈ es, e.LaidOut)
    (apart : es.Pairwise Before) {values : List (Option Node × List Value)}
    (given : (es.mapM (exportedAt p)).map List.flatten = .ok values) :
    (∀ v ∈ values.filterMap Prod.fst, ∃ e ∈ es, e.Encloses v) ∧
      (values.filterMap Prod.fst).Pairwise Before := by
  induction es generalizing values with
  | nil =>
      cases given
      exact ⟨fun v mem => absurd mem List.not_mem_nil, .nil⟩
  | cons e es ih =>
      obtain ⟨first, laid⟩ := List.forall_mem_cons.mp laid
      obtain ⟨before, apart⟩ := List.pairwise_cons.mp apart
      rw [Except.map_flatten_mapM_cons] at given
      obtain ⟨here, own, given⟩ := Except.bind_eq_ok_iff.mp given
      obtain ⟨more, later, given⟩ := Except.bind_eq_ok_iff.mp given
      cases given
      have held := Holds.exportedAt first own
      obtain ⟨inside, ordered⟩ := ih laid apart later
      rw [List.filterMap_append]
      refine ⟨List.forall_mem_append.mpr ⟨fun v mem => ?_, fun v mem => ?_⟩,
        List.pairwise_append.mpr ⟨held.apart, ordered, fun v mem w mem' => ?_⟩⟩
      · exact ⟨e, .head _, held.inside v mem⟩
      · obtain ⟨f, listed, encloses⟩ := inside v mem
        exact ⟨f, .tail _ listed, encloses⟩
      · obtain ⟨f, listed, encloses⟩ := inside w mem'
        exact (before f listed).of_encloses (held.inside v mem) encloses

/-- The values of an export are found in the order of the source. -/
theorem LaidOut.pairwise_exports {n : Node} (h : n.LaidOut) {p : ExportPath}
    {values : List (Option Node × List Value)} (given : n.exports p = .ok values) :
    (values.filterMap Prod.fst).Pairwise Before := by
  have laid : ∀ e ∈ n.search isExport, e.LaidOut :=
    fun e mem => h.of_mem_walk (mem_walk_of_mem_search mem)
  exact (ordered_mapM_exportedAt laid (h.pairwise_search isExport) given).2

end Node

end EnvReads
