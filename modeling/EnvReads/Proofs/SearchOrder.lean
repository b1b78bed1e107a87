import EnvReads.Proofs.Outcome
import EnvReads.Syntax.Search

/-!
# The order of a search

`Query.visit` keeps the nodes still to visit in one list, those of all levels of the tree together.
This file says what that comes to:

* `Query.collect` is the same search by recursion on the tree, and `Query.visit` finds what it
  finds;
* `Query.tour` lists the nodes that the loop takes from its list, with their addresses, and what is
  found is what the tests pick from the tour;
* the tour visits each node that can be reached (`Node.Reached`) once, in the order of the
  addresses;
* so a search finds the outermost nodes that pass its test (`Node.Outermost`), and not those nested
  in them (`Node.Nested`).

Two places in a tree can hold the same node, so a node is told apart by its address.
-/

namespace EnvReads

/-- The way from a root to a node: at each level, which of the children. -/
abbrev Address := List Nat

namespace Address

/-- The two ways part, and the first one takes the earlier child there. -/
def Left (a b : Address) : Prop :=
  ∃ p i j r t, a = p ++ i :: r ∧ b = p ++ j :: t ∧ i < j

/-- What lies below two places is ordered as they are. -/
theorem Left.append {a b : Address} (h : Left a b) (x y : Address) : Left (a ++ x) (b ++ y) := by
  obtain ⟨p, i, j, r, t, rfl, rfl, lt⟩ := h
  exact ⟨p, i, j, r ++ x, t ++ y, by simp, by simp, lt⟩

/-- The earlier way is the smaller one. -/
theorem Left.lt {a b : Address} (h : Left a b) : a < b := by
  obtain ⟨p, i, j, r, t, rfl, rfl, lt⟩ := h
  induction p with
  | nil => exact List.cons_lt_cons_iff.mpr (.inl lt)
  | cons k p ih => exact List.cons_lt_cons_iff.mpr (.inr ⟨rfl, ih⟩)

/-- A node comes before all nodes below it. -/
theorem lt_append_cons (a : Address) (i : Nat) (b : Address) : a < a ++ i :: b := by
  induction a with
  | nil => exact List.nil_lt_cons i b
  | cons k a ih => exact List.cons_lt_cons_iff.mpr (.inr ⟨rfl, ih⟩)

end Address

/-- A node and its address in a tree. -/
structure Located where
  address : Address
  node : Node

namespace Located

def children (l : Located) : List Located :=
  l.node.children.mapIdx fun i c => ⟨l.address ++ [i], c⟩

@[simp] theorem map_node_children (l : Located) : l.children.map node = l.node.children := by
  simp [children, List.mapIdx_eq_zipIdx_map, Function.comp_def]

/-- The children of a located node stand one level below it. -/
theorem mem_children_iff {l k : Located} :
    k ∈ l.children ↔ ∃ i, l.node.children[i]? = some k.node ∧ k.address = l.address ++ [i] := by
  rw [children, List.mem_mapIdx]
  constructor
  · rintro ⟨i, bound, rfl⟩
    exact ⟨i, List.getElem?_eq_getElem bound, rfl⟩
  · rintro ⟨i, child, address⟩
    obtain ⟨bound, child⟩ := List.getElem?_eq_some_iff.mp child
    exact ⟨i, bound, by rw [child, ← address]⟩

/-- Their addresses go from left to right. -/
theorem pairwise_children (l : Located) :
    l.children.Pairwise fun k k' => Address.Left k.address k'.address := by
  rw [children, List.pairwise_iff_getElem]
  intro i j hi hj lt
  simp only [List.getElem_mapIdx]
  exact ⟨l.address, i, j, [], [], rfl, rfl, lt⟩

end Located

namespace Node

/-- `Reached enters n a m`: the node `m` stands at `a` in the tree `n`, and a walk that only enters
the nodes that `enters` allows comes to it. -/
inductive Reached (enters : Node → Bool) : Node → Address → Node → Prop
  | here (n : Node) : Reached enters n [] n
  | step {n c m : Node} {i : Nat} {a : Address} : enters n = true → n.children[i]? = some c →
      Reached enters c a m → Reached enters n (i :: a) m

/-- The node at an address, if a walk comes to it. -/
def nodeAt? (enters : Node → Bool) (n : Node) : Address → Option Node
  | [] => some n
  | i :: a => if enters n then n.children[i]?.bind fun c => nodeAt? enters c a else none

namespace Reached

/-- Walks can be joined if the first one ends at a node that may be entered. -/
theorem trans {enters : Node → Bool} {n m k : Node} {a b : Address}
    (h : Reached enters n a m) (h' : Reached enters m b k) : Reached enters n (a ++ b) k := by
  induction h with
  | here => exact h'
  | step entered child _ ih => exact .step entered child (ih h')

/-- To pass below a node a walk has to enter it. -/
theorem enters_of_append {enters : Node → Bool} {n m k : Node} {a b : Address} {i : Nat}
    (h : Reached enters n a m) (h' : Reached enters n (a ++ i :: b) k) : enters m = true := by
  induction h with
  | here =>
      cases h' with
      | step entered => exact entered
  | step _ child _ ih =>
      cases h' with
      | step _ child' rest =>
          rw [child] at child'
          cases child'
          exact ih rest

/-- A walk comes to every place on its way. -/
theorem exists_of_append {enters : Node → Bool} {n m : Node} {a b : Address}
    (h : Reached enters n (a ++ b) m) : ∃ k, Reached enters n a k ∧ Reached enters k b m := by
  induction a generalizing n with
  | nil => exact ⟨n, .here n, h⟩
  | cons i a ih =>
      cases h with
      | step entered child rest =>
          obtain ⟨k, first, later⟩ := ih rest
          exact ⟨k, .step entered child first, later⟩

/-- A walk comes to the nodes that are reached. -/
theorem nodeAt?_eq_some_iff {enters : Node → Bool} {n m : Node} {a : Address} :
    nodeAt? enters n a = some m ↔ Reached enters n a m := by
  constructor
  · intro h
    induction a generalizing n with
    | nil =>
        cases h
        exact .here _
    | cons i a ih =>
        rw [nodeAt?] at h
        split at h
        · next entered =>
            obtain ⟨c, child, rest⟩ := Option.bind_eq_some_iff.mp h
            exact .step entered child (ih rest)
        · cases h
  · intro h
    induction h with
    | here => rfl
    | step entered child _ ih => rw [nodeAt?, if_pos entered, child, Option.bind_some, ih]

/-- At an address stands one node. -/
theorem node_unique {enters : Node → Bool} {n m k : Node} {a : Address}
    (h : Reached enters n a m) (h' : Reached enters n a k) : m = k := by
  rw [← nodeAt?_eq_some_iff] at h h'
  exact Option.some.inj (h.symm.trans h')

/-- A walk goes through if each node that it comes to may be entered by the other walk too. -/
theorem of_agree {enters enters' : Node → Bool} {n m : Node} {a : Address}
    (h : Reached enters' n a m)
    (agree : ∀ b k, Reached enters n b k → enters' k = true → enters k = true) :
    Reached enters n a m := by
  induction h with
  | here m => exact .here m
  | step entered child _ ih =>
      have entered' := agree [] _ (.here _) entered
      exact .step entered' child (ih fun b k reached => agree _ k (.step entered' child reached))

theorem mono {enters enters' : Node → Bool} {n m : Node} {a : Address} (h : Reached enters' n a m)
    (more : ∀ k, enters' k = true → enters k = true) : Reached enters n a m :=
  h.of_agree fun _ k _ => more k

end Reached

end Node

namespace Query

/-- A node at which the search goes on to the children. -/
def enters (q : Query) (n : Node) : Bool :=
  !q.isLeaf n.kind && !q.accepts n && !q.suspects n

/-- A node that is collected, if the search comes to it. -/
def takes (q : Query) (n : Node) : Bool :=
  !q.isLeaf n.kind && q.accepts n

/-- A node that is collected apart, if the search comes to it. -/
def doubts (q : Query) (n : Node) : Bool :=
  !q.isLeaf n.kind && !q.accepts n && q.suspects n

/-! ## The search by recursion -/

/-- What a search finds at a node and below it. -/
def collect (q : Query) (n : Node) : Found :=
  if q.isLeaf n.kind then
    ⟨[], []⟩
  else if q.accepts n then
    ⟨[n], []⟩
  else if q.suspects n then
    ⟨[], [n]⟩
  else
    let below := n.children.attach.map fun c => q.collect c.1
    ⟨below.flatMap Found.accepted, below.flatMap Found.suspects⟩
termination_by sizeOf n.fields
decreasing_by
  have := Node.sizeOf_lt_weight_of_mem c.2
  have := Node.weight_children_le n
  omega

/-- Where a search goes on, it finds what it finds below. -/
theorem collect_of_enters {q : Query} {n : Node} (leaf : ¬q.isLeaf n.kind) (accept : ¬q.accepts n)
    (suspect : ¬q.suspects n) :
    q.collect n = ⟨n.children.flatMap fun c => (q.collect c).accepted,
      n.children.flatMap fun c => (q.collect c).suspects⟩ := by
  rw [collect, if_neg leaf, if_neg accept, if_neg suspect]
  simp [List.flatMap_map]

/-- The loop has collected `accepted` and `suspects` so far, and what is still to come is what the
recursive search finds in each of the pending trees. -/
theorem visit_eq_collect (q : Query) (accepted suspects pending : List Node) :
    q.visit accepted suspects pending =
      ⟨accepted.reverse ++ pending.flatMap fun n => (q.collect n).accepted,
        suspects.reverse ++ pending.flatMap fun n => (q.collect n).suspects⟩ := by
  fun_induction visit q accepted suspects pending with
  | case1 accepted suspects => simp
  | case2 accepted suspects n rest leaf ih =>
      have here : q.collect n = ⟨[], []⟩ := by rw [collect, if_pos leaf]
      rw [ih]
      simp [here]
  | case3 accepted suspects n rest leaf accept ih =>
      have here : q.collect n = ⟨[n], []⟩ := by rw [collect, if_neg leaf, if_pos accept]
      rw [ih]
      simp [here]
  | case4 accepted suspects n rest leaf accept suspect ih =>
      have here : q.collect n = ⟨[], [n]⟩ := by
        rw [collect, if_neg leaf, if_neg accept, if_pos suspect]
      rw [ih]
      simp [here]
  | case5 accepted suspects n rest leaf accept suspect ih =>
      rw [ih]
      simp [collect_of_enters leaf accept suspect]

/-- The loop finds what the recursion does. -/
theorem run_eq_collect (q : Query) (root : Node) : q.run root = q.collect root := by
  rw [run, visit_eq_collect]
  simp

/-! ## The tour of the loop -/

/-- The nodes that the loop takes from its list, one by one. Each is tested when it is taken. -/
def tour (q : Query) : List Located → List Located
  | [] => []
  | l :: rest =>
    if q.enters l.node then l :: q.tour (l.children ++ rest) else l :: q.tour rest
termination_by pending => Node.weight (pending.map Located.node)
decreasing_by
  · simpa using Node.weight_children_lt l.node (rest.map Located.node)
  · exact Node.weight_lt_cons l.node (rest.map Located.node)

/-- The loop collects from the nodes of its tour. -/
theorem visit_eq_tour (q : Query) (accepted suspects : List Node) (pending : List Located) :
    q.visit accepted suspects (pending.map Located.node) =
      ⟨accepted.reverse ++ ((q.tour pending).filter (q.takes ·.node)).map Located.node,
        suspects.reverse ++ ((q.tour pending).filter (q.doubts ·.node)).map Located.node⟩ := by
  fun_induction tour q pending generalizing accepted suspects with
  | case1 => simp [visit]
  | case2 l rest enter ih =>
      simp only [enters, Bool.and_eq_true, Bool.not_eq_true', Bool.eq_false_iff, ne_eq] at enter
      obtain ⟨⟨leaf, accept⟩, suspect⟩ := enter
      have later := ih accepted suspects
      rw [List.map_append, Located.map_node_children] at later
      rw [List.map_cons, visit, if_neg leaf, if_neg accept, if_neg suspect, later]
      simp [takes, doubts, accept, suspect]
  | case3 l rest stop ih =>
      rw [List.map_cons, visit]
      split
      · next leaf => simp [ih, takes, doubts, leaf]
      · next leaf =>
          split
          · next accept => simp [ih, takes, doubts, leaf, accept]
          · next accept =>
              split
              · next suspect => simp [ih, takes, doubts, leaf, accept, suspect]
              · next suspect => simp [enters, leaf, accept, suspect] at stop

/-- A search collects from the tour that starts at the root. -/
theorem run_eq_tour (q : Query) (root : Node) :
    q.run root =
      ⟨((q.tour [⟨[], root⟩]).filter (q.takes ·.node)).map Located.node,
        ((q.tour [⟨[], root⟩]).filter (q.doubts ·.node)).map Located.node⟩ := by
  have whole := q.visit_eq_tour [] [] [⟨[], root⟩]
  simpa only [run, List.map_singleton, List.reverse_nil, List.nil_append] using whole

/-- A tour of pending trees comes to what can be reached in one of them. -/
theorem mem_tour_iff {q : Query} {pending : List Located} {b : Address} {m : Node} :
    ⟨b, m⟩ ∈ q.tour pending ↔
      ∃ k ∈ pending, ∃ a, Node.Reached q.enters k.node a m ∧ b = k.address ++ a := by
  fun_induction tour q pending with
  | case1 => simp
  | case2 k rest enter ih =>
      rw [List.mem_cons, ih]
      constructor
      · rintro (rfl | ⟨c, mem, a, reached, address⟩)
        · exact ⟨⟨b, m⟩, .head _, [], .here m, by simp⟩
        · rcases List.mem_append.mp mem with mem | mem
          · obtain ⟨i, child, above⟩ := Located.mem_children_iff.mp mem
            exact ⟨k, .head _, i :: a, .step enter child reached, by simp [address, above]⟩
          · exact ⟨c, .tail _ mem, a, reached, address⟩
      · rintro ⟨c, mem, a, reached, address⟩
        rcases List.mem_cons.mp mem with rfl | mem
        · cases reached with
          | here => exact .inl (by simp [address])
          | @step _ d _ i a _ child reached =>
              have first : ⟨c.address ++ [i], d⟩ ∈ c.children :=
                Located.mem_children_iff.mpr ⟨i, child, rfl⟩
              exact .inr ⟨_, List.mem_append_left _ first, a, reached, by simp [address]⟩
        · exact .inr ⟨c, List.mem_append_right _ mem, a, reached, address⟩
  | case3 k rest stop ih =>
      rw [List.mem_cons, ih]
      constructor
      · rintro (rfl | ⟨c, mem, a, reached, address⟩)
        · exact ⟨⟨b, m⟩, .head _, [], .here m, by simp⟩
        · exact ⟨c, .tail _ mem, a, reached, address⟩
      · rintro ⟨c, mem, a, reached, address⟩
        rcases List.mem_cons.mp mem with rfl | mem
        · cases reached with
          | here => exact .inl (by simp [address])
          | step entered => exact absurd entered stop
        · exact .inr ⟨c, mem, a, reached, address⟩

/-- The tour comes to all nodes that can be reached. -/
theorem mem_tour_root_iff {q : Query} {root m : Node} {a : Address} :
    ⟨a, m⟩ ∈ q.tour [⟨[], root⟩] ↔ Node.Reached q.enters root a m := by
  simp [mem_tour_iff]

/-- The pending trees lie side by side, in order, at every step of the loop; so a tour goes through
increasing addresses. -/
theorem pairwise_tour {q : Query} {pending : List Located}
    (h : pending.Pairwise fun k k' => Address.Left k.address k'.address) :
    (q.tour pending).Pairwise fun l l' => l.address < l'.address := by
  fun_induction tour q pending with
  | case1 => exact .nil
  | case2 k rest enter ih =>
      obtain ⟨first, later⟩ := List.pairwise_cons.mp h
      have across : ∀ c ∈ k.children, ∀ k' ∈ rest, Address.Left c.address k'.address := by
        intro c mem k' mem'
        obtain ⟨i, -, address⟩ := Located.mem_children_iff.mp mem
        simpa [address] using (first k' mem').append [i] []
      have sorted := List.pairwise_append.mpr ⟨k.pairwise_children, later, across⟩
      refine .cons ?_ (ih sorted)
      rintro ⟨b, m⟩ later
      obtain ⟨c, mem, a, -, rfl⟩ := mem_tour_iff.mp later
      rcases List.mem_append.mp mem with mem | mem
      · obtain ⟨i, -, above⟩ := Located.mem_children_iff.mp mem
        rw [above, List.append_assoc]
        exact Address.lt_append_cons k.address i a
      · simpa using ((first c mem).append [] a).lt
  | case3 k rest stop ih =>
      obtain ⟨first, later⟩ := List.pairwise_cons.mp h
      refine .cons ?_ (ih later)
      rintro ⟨b, m⟩ later
      obtain ⟨c, mem, a, -, rfl⟩ := mem_tour_iff.mp later
      simpa using ((first c mem).append [] a).lt

/-- The tour comes to the nodes in the order of their addresses. -/
theorem pairwise_tour_root (q : Query) (root : Node) :
    (q.tour [⟨[], root⟩]).Pairwise fun l l' => l.address < l'.address :=
  pairwise_tour (List.pairwise_singleton _ _)

theorem nodup_tour_root (q : Query) (root : Node) :
    ((q.tour [⟨[], root⟩]).map Located.address).Nodup := by
  rw [List.Nodup, List.pairwise_map]
  refine (q.pairwise_tour_root root).imp ?_
  intro l l' lt same
  exact List.lt_irrefl _ (same ▸ lt)

/-- Only at the nodes of its tour does a search look. -/
theorem tour_eq_of_agree {q q' : Query} {pending : List Located}
    (h : ∀ l ∈ q.tour pending, q'.enters l.node = q.enters l.node) :
    q'.tour pending = q.tour pending := by
  fun_induction tour q pending with
  | case1 => rw [tour]
  | case2 l rest enter ih =>
      have here := h l (.head _)
      rw [tour, if_pos (here.trans enter), ih fun k mem => h k (.tail _ mem)]
  | case3 l rest stop ih =>
      have here := h l (.head _)
      rw [tour, if_neg (here ▸ stop), ih fun k mem => h k (.tail _ mem)]

/-- What is collected is not entered, so nothing collected lies below it. -/
theorem not_enters_of_listed {q : Query} {n : Node} (h : q.takes n || q.doubts n) :
    ¬q.enters n := by
  simp only [takes, doubts, enters] at h ⊢
  cases accept : q.accepts n <;> cases suspect : q.suspects n <;> simp_all

/-- A search that keeps a list of nodes still to visit is the pruned pre-order traversal of its
tree. It finds what the recursive search finds; it takes every node that it can reach from its list,
each once and in the order of the addresses, and looks at no other; both of its results stand in
that order, and no node in them lies below another. -/
theorem run_is_pruned_preorder (q : Query) (root : Node) :
    q.run root = q.collect root ∧
      (∀ a n, ⟨a, n⟩ ∈ q.tour [⟨[], root⟩] ↔ Node.Reached q.enters root a n) ∧
      (∀ a n, Node.Reached q.enters root a n →
        ((q.tour [⟨[], root⟩]).map Located.address).count a = 1) ∧
      (q.tour [⟨[], root⟩]).Pairwise (fun l l' => l.address < l'.address) ∧
      (∀ q' : Query, (∀ l ∈ q.tour [⟨[], root⟩], q'.isLeaf l.node.kind = q.isLeaf l.node.kind ∧
        q'.accepts l.node = q.accepts l.node ∧ q'.suspects l.node = q.suspects l.node) →
        q'.run root = q.run root) ∧
      (q.run root).accepted =
        ((q.tour [⟨[], root⟩]).filter (q.takes ·.node)).map Located.node ∧
      (q.run root).suspects =
        ((q.tour [⟨[], root⟩]).filter (q.doubts ·.node)).map Located.node ∧
      (∀ l ∈ q.tour [⟨[], root⟩], ∀ l' ∈ q.tour [⟨[], root⟩],
        (q.takes l.node || q.doubts l.node) → l.address <+: l'.address → l = l') := by
  refine ⟨q.run_eq_collect root, fun a n => mem_tour_root_iff, ?_, q.pairwise_tour_root root, ?_,
    by rw [run_eq_tour], by rw [run_eq_tour], ?_⟩
  · intro a n reached
    have mem : a ∈ (q.tour [⟨[], root⟩]).map Located.address :=
      List.mem_map.mpr ⟨⟨a, n⟩, mem_tour_root_iff.mpr reached, rfl⟩
    rw [(q.nodup_tour_root root).count, if_pos mem]
  · intro q' agree
    have same : q'.tour [⟨[], root⟩] = q.tour [⟨[], root⟩] := by
      refine tour_eq_of_agree fun l mem => ?_
      obtain ⟨leaf, accept, suspect⟩ := agree l mem
      rw [enters, enters, leaf, accept, suspect]
    have taken : ∀ l ∈ q.tour [⟨[], root⟩], q'.takes l.node = q.takes l.node := by
      intro l mem
      obtain ⟨leaf, accept, -⟩ := agree l mem
      rw [takes, takes, leaf, accept]
    have doubted : ∀ l ∈ q.tour [⟨[], root⟩], q'.doubts l.node = q.doubts l.node := by
      intro l mem
      obtain ⟨leaf, accept, suspect⟩ := agree l mem
      rw [doubts, doubts, leaf, accept, suspect]
    rw [run_eq_tour, run_eq_tour, same, List.filter_congr taken, List.filter_congr doubted]
  · rintro ⟨a, n⟩ mem ⟨b, m⟩ mem' listed ⟨t, rfl⟩
    have reached := mem_tour_root_iff.mp mem
    have reached' := mem_tour_root_iff.mp mem'
    cases t with
    | nil =>
        rw [List.append_nil] at reached' ⊢
        rw [reached.node_unique reached']
    | cons i t => exact absurd (reached.enters_of_append reached') (not_enters_of_listed listed)

end Query

/-! ## What a search passes over -/

namespace Node

/-- A node that is no leaf. -/
def passes (n : Node) : Bool :=
  !n.kind.isLeaf

section

variable (tree : Node) (test : Node → Bool) (n : Node)

/-- The node passes the test and stands in the tree, not below a leaf. -/
def Within : Prop :=
  ∃ a, Reached passes tree a n ∧ test n

/-- The node stands in the tree, and it is the first one on the way to it that passes the test. -/
def Outermost : Prop :=
  ∃ a, Reached (fun m => m.passes && !test m) tree a n ∧ test n

/-- The node passes the test and stands below another one that does. -/
def Nested : Prop :=
  ∃ outer, tree.Outermost test outer ∧ ∃ i a, Reached passes outer (i :: a) n ∧ test n

end

variable {tree n : Node}

/-- The nodes that pass a test are the outermost ones and the nested ones. -/
theorem within_iff {test : Node → Bool} :
    tree.Within test n ↔ tree.Outermost test n ∨ tree.Nested test n := by
  constructor
  · rintro ⟨a, reached, passed⟩
    induction reached with
    | here n => exact .inl ⟨[], .here n, passed⟩
    | @step m c n i a entered child reached ih =>
        by_cases first : test m
        · exact .inr ⟨m, ⟨[], .here m, first⟩, i, a, .step entered child reached, passed⟩
        · have entered' : (m.passes && !test m) = true := by simp [entered, first]
          rcases ih passed with ⟨b, reached, -⟩ | ⟨outer, ⟨b, reached, outerPassed⟩, below⟩
          · exact .inl ⟨i :: b, .step entered' child reached, passed⟩
          · exact .inr ⟨outer, ⟨i :: b, .step entered' child reached, outerPassed⟩, below⟩
  · have fewer : ∀ m, (m.passes && !test m) = true → m.passes = true :=
      fun m h => (Bool.and_eq_true_iff.mp h).1
    rintro (⟨a, reached, passed⟩ | ⟨outer, ⟨a, reached, -⟩, i, b, below, passed⟩)
    · exact ⟨a, reached.mono fewer, passed⟩
    · exact ⟨a ++ i :: b, (reached.mono fewer).trans below, passed⟩

section

variable {test : Node → Bool}

/-- The places of the nodes that a search finds, in the order of the tree. -/
def places (tree : Node) (test : Node → Bool) : List Located :=
  (Query.tour { accepts := test } [⟨[], tree⟩]).filter (Query.takes { accepts := test } ·.node)

/-- A search gives the nodes at its places. -/
theorem search_eq_places (tree : Node) (test : Node → Bool) :
    tree.search test = (tree.places test).map Located.node := by
  rw [search, Query.run_eq_tour, places]

theorem pairwise_places (tree : Node) (test : Node → Bool) :
    (tree.places test).Pairwise fun l l' => l.address < l'.address :=
  (Query.pairwise_tour_root _ tree).filter _

/-- The places of a search are those of the outermost nodes that pass the test. -/
theorem mem_places_iff (solid : ∀ m, test m → m.passes) {a : Address} :
    ⟨a, n⟩ ∈ tree.places test ↔ Reached (fun m => m.passes && !test m) tree a n ∧ test n := by
  have enters : Query.enters { accepts := test } = fun m => m.passes && !test m := by
    funext m
    simp [Query.enters, passes]
  rw [places, List.mem_filter, Query.mem_tour_root_iff, enters]
  refine and_congr_right fun _ => ?_
  exact ⟨fun taken => (Bool.and_eq_true_iff.mp taken).2,
    fun passed => Bool.and_eq_true_iff.mpr ⟨solid n passed, passed⟩⟩

theorem search_of_leaf (leaf : tree.kind.isLeaf) : tree.search test = [] := by
  rw [search, Query.run_eq_collect, Query.collect, if_pos leaf]

theorem search_of_accepts (solid : tree.passes) (h : test tree) : tree.search test = [tree] := by
  have leaf : ¬tree.kind.isLeaf := by simpa [passes] using solid
  rw [search, Query.run_eq_collect, Query.collect, if_neg leaf, if_pos h]

/-- Where nothing is found at a node, the search goes through its children. -/
theorem search_of_enters (solid : tree.passes) (h : ¬test tree) :
    tree.search test = tree.children.flatMap (·.search test) := by
  have leaf : ¬tree.kind.isLeaf := by simpa [passes] using solid
  rw [search, Query.run_eq_collect, Query.collect_of_enters leaf h (by simp)]
  simp only [search, Query.run_eq_collect]

/-- A search finds the outermost nodes that pass its test. -/
theorem mem_search_iff (solid : ∀ m, test m → m.passes) :
    n ∈ tree.search test ↔ tree.Outermost test n := by
  rw [search_eq_places, List.mem_map]
  constructor
  · rintro ⟨⟨a, m⟩, mem, rfl⟩
    exact ⟨a, (mem_places_iff solid).mp mem⟩
  · rintro ⟨a, found⟩
    exact ⟨⟨a, n⟩, (mem_places_iff solid).mpr found, rfl⟩

end

/-- Whether a test holds, and does not fail. -/
def holds (test : Node → Except Fault Bool) (n : Node) : Bool :=
  match test n with
  | .ok b => b
  | .error _ => false

theorem holds_iff {test : Node → Except Fault Bool} : holds test n ↔ test n = .ok true := by
  rw [holds]
  cases test n <;> simp

/-- A search that does not fail finds the outermost nodes for which its test holds. -/
theorem mem_searchTrying_iff {test : Node → Except Fault Bool}
    (solid : ∀ m, isFound test m → m.passes) {found : List Node}
    (h : tree.searchTrying test = .ok found) : n ∈ found ↔ tree.Outermost (holds test) n := by
  obtain ⟨tested, member⟩ := Fault.mem_filter_iff h
  rw [member, mem_search_iff solid]
  constructor
  · rintro ⟨⟨a, reached, -⟩, passed⟩
    refine ⟨a, reached.mono fun m entered => ?_, holds_iff.mpr passed⟩
    simp only [isFound, holds, Bool.and_eq_true] at entered ⊢
    refine ⟨entered.1, ?_⟩
    split at entered <;> simp_all
  · rintro ⟨a, reached, passed⟩
    have passed := holds_iff.mp passed
    refine ⟨⟨a, reached.of_agree fun b k reached' entered => ?_, by simp [isFound, passed]⟩, passed⟩
    obtain ⟨solidNode, fails⟩ := Bool.and_eq_true_iff.mp entered
    refine Bool.and_eq_true_iff.mpr ⟨solidNode, ?_⟩
    -- A node that the search stops at is one that it tests, so there the test does not fail.
    cases stops : isFound test k with
    | false => rfl
    | true =>
        obtain ⟨b, outcome⟩ := tested k ((mem_search_iff solid).mpr ⟨_, reached', stops⟩)
        cases b <;> simp [isFound, holds, outcome] at stops fails

end Node

end EnvReads
