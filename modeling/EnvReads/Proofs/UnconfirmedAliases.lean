import EnvReads.Candidate
import EnvReads.Proofs.Sample
import EnvReads.Proofs.SearchOrder
import EnvReads.Proofs.SortPermutation

/-!
# Uses of a variable that may be the environment

A search for reads stops at each use of a variable `env`, before it is known whether `env` is the
environment. If it turns out that it is not, the uses are dropped, and with them whatever stands
below them. This file compares that search with the one for direct reads alone
(`Candidate.findDirect`): the two find the same exactly if no direct read stands below such a use
(`Node.Hidden`).
-/

namespace EnvReads

namespace Query

/-- A search that enters fewer nodes than another, for the same, finds what the other one finds less
the places that it does not come to. -/
theorem filter_tour_of_fewer {q q' : Query} (fewer : ∀ n, q.enters n = true → q'.enters n = true)
    (same : ∀ n, q.takes n = q'.takes n) (root : Node) :
    (q.tour [⟨[], root⟩]).filter (q.takes ·.node) =
      ((q'.tour [⟨[], root⟩]).filter (q'.takes ·.node)).filter
        fun l => (root.nodeAt? q.enters l.address).isSome := by
  have sorted := (q.pairwise_tour_root root).filter (q.takes ·.node)
  have sorted' := ((q'.pairwise_tour_root root).filter (q'.takes ·.node)).filter
    fun l => (root.nodeAt? q.enters l.address).isSome
  have distinct : ∀ {l l' : Located}, l.address < l'.address → l ≠ l' := by
    rintro l l' lt rfl
    exact List.lt_irrefl _ lt
  have members : ∀ l, l ∈ (q.tour [⟨[], root⟩]).filter (q.takes ·.node) ↔
      l ∈ ((q'.tour [⟨[], root⟩]).filter (q'.takes ·.node)).filter
        fun l => (root.nodeAt? q.enters l.address).isSome := by
    rintro ⟨a, n⟩
    simp only [List.mem_filter, mem_tour_root_iff, same, Option.isSome_iff_exists,
      Node.Reached.nodeAt?_eq_some_iff]
    constructor
    · rintro ⟨reached, taken⟩
      exact ⟨⟨reached.mono fewer, taken⟩, n, reached⟩
    · rintro ⟨⟨reached, taken⟩, m, reached'⟩
      obtain rfl := (reached'.mono fewer).node_unique reached
      exact ⟨reached', taken⟩
  refine List.Perm.eq_of_pairwise ?_ sorted sorted'
    ((List.perm_ext_iff_of_nodup (sorted.imp distinct) (sorted'.imp distinct)).mpr members)
  intro l l' _ _ before after
  exact absurd (List.lt_trans before after) (List.lt_irrefl _)

end Query

namespace Candidate

/-! ## Reads at the nodes that are left -/

theorem ofNodes_cons (n : Node) (rest : List Node) :
    ofNodes (n :: rest) = do
      let here ← ofNode n
      let more ← ofNodes rest
      return here ++ more :=
  Except.map_flatten_mapM_cons ofNode n rest

section

variable {keep : Located → Bool} {ls : List Located}

/-- Nodes without reads can be left out. -/
theorem ofNodes_filter (h : ∀ l ∈ ls, keep l = false → ofNode l.node = .ok []) :
    ofNodes ((ls.filter keep).map Located.node) = ofNodes (ls.map Located.node) := by
  induction ls with
  | nil => rfl
  | cons l rest ih =>
      obtain ⟨here, later⟩ := List.forall_mem_cons.mp h
      rw [List.map_cons, ofNodes_cons, ← ih later, List.filter_cons]
      cases kept : keep l with
      | true => rw [if_pos rfl, List.map_cons, ofNodes_cons]
      | false =>
          rw [here kept]
          cases rest' : ofNodes ((rest.filter keep).map Located.node) <;>
            simp [rest', bind, Except.bind, pure, Except.pure]

/-- If nodes are left out and no read is missing, these nodes had none. -/
theorem ofNode_eq_nil_of_length_le {cs ds : List Candidate}
    (h : ofNodes ((ls.filter keep).map Located.node) = .ok cs)
    (h' : ofNodes (ls.map Located.node) = .ok ds) :
    cs.length ≤ ds.length ∧
      (ds.length ≤ cs.length → ∀ l ∈ ls, keep l = false → ofNode l.node = .ok []) := by
  induction ls generalizing cs ds with
  | nil =>
      cases h
      cases h'
      simp
  | cons l rest ih =>
      rw [List.map_cons, ofNodes_cons] at h'
      obtain ⟨here, first, h'⟩ := Except.bind_eq_ok_iff.mp h'
      obtain ⟨more, later, h'⟩ := Except.bind_eq_ok_iff.mp h'
      cases h'
      rw [List.length_append]
      cases kept : keep l with
      | true =>
          rw [List.filter_cons, if_pos kept, List.map_cons, ofNodes_cons] at h
          obtain ⟨here', first', h⟩ := Except.bind_eq_ok_iff.mp h
          obtain ⟨more', later', h⟩ := Except.bind_eq_ok_iff.mp h
          cases h
          cases first.symm.trans first'
          obtain ⟨fewer, unread⟩ := ih later' later
          rw [List.length_append]
          refine ⟨by omega, fun enough => ?_⟩
          exact List.forall_mem_cons.mpr ⟨by simp [kept], unread (by omega)⟩
      | false =>
          rw [List.filter_cons, if_neg (by simp [kept])] at h
          obtain ⟨fewer, unread⟩ := ih h later
          refine ⟨by omega, fun enough => ?_⟩
          have nothing : here = [] := List.length_eq_zero_iff.mp (by omega)
          exact List.forall_mem_cons.mpr ⟨fun _ => nothing ▸ first, unread (by omega)⟩

end

/-- Sorting loses no reads. -/
theorem perm_of_sort {cs sorted : List Candidate} (h : sort cs = .ok sorted) : sorted.Perm cs := by
  rw [sort] at h
  split at h
  · next found =>
      cases h
      exact Value.sortOn?_perm found
  · cases h

/-! ## What a search for reads collects -/

/-- Nothing is found at a leaf. -/
theorem collect_of_leaf {n : Node} (leaf : query.isLeaf n.kind) : query.collect n = ⟨[], []⟩ := by
  rw [Query.collect, if_pos leaf]

/-- Nothing is found at an identifier. -/
theorem collect_of_identifier {n : Node} (h : n.isIdentifier) : query.collect n = ⟨[], []⟩ := by
  refine collect_of_leaf ?_
  rw [show n.kind = .identifier from of_decide_eq_true h]
  rfl

/-- A node that is entered gives nothing if its children give nothing. -/
theorem collect_of_children {n : Node} (direct : n.isDirectRead = false)
    (use : n.isAliasUse = false) (below : ∀ c ∈ n.children, query.collect c = ⟨[], []⟩) :
    query.collect n = ⟨[], []⟩ := by
  by_cases leaf : query.isLeaf n.kind
  · exact collect_of_leaf leaf
  · rw [Query.collect_of_enters leaf (Bool.eq_false_iff.mp direct) (Bool.eq_false_iff.mp use)]
    congr 1
    · exact List.flatMap_eq_nil_iff.mpr fun c mem => by rw [below c mem]
    · exact List.flatMap_eq_nil_iff.mpr fun c mem => by rw [below c mem]

/-- At a direct read the search stops. -/
theorem collect_of_direct {n : Node} (leaf : ¬query.isLeaf n.kind) (direct : n.isDirectRead) :
    query.collect n = ⟨[n], []⟩ := by
  rw [Query.collect, if_neg leaf, if_pos (show query.accepts n from direct)]

/-! ## The search for direct reads alone -/

/-- The query for direct reads, which takes no notice of `env`. -/
def directQuery : Query where
  accepts := Node.isDirectRead

/-- The direct reads in a tree, in the order of the source. -/
def findDirect (tree : Node) : Except Fault (List Candidate) := do
  sort (← ofNodes (directQuery.run tree).accepted)

end Candidate

namespace Node

/-- A node below which a direct read may stand that is not part of another one. -/
def isOpen (n : Node) : Bool :=
  n.passes && !n.isDirectRead

/-- The node is a direct read below a use of `env`, in no other direct read. -/
def Hidden (tree n : Node) : Prop :=
  ∃ b u i a, Reached isOpen tree b u ∧ u.isAliasUse ∧ Reached isOpen u (i :: a) n ∧ n.isDirectRead

end Node

namespace Candidate

theorem enters_directQuery : directQuery.enters = Node.isOpen := by
  funext n
  simp [Query.enters, directQuery, Node.isOpen, Node.passes]

/-- The search goes on below open nodes that do not use `env`. -/
theorem enters_query (n : Node) : query.enters n = (n.isOpen && !n.isAliasUse) := by
  simp [Query.enters, query, Node.isOpen, Node.passes]

theorem isOpen_of_enters {n : Node} (h : query.enters n = true) : n.isOpen = true := by
  rw [enters_query] at h
  exact (Bool.and_eq_true_iff.mp h).1

/-- A direct read is hidden if the search that stops at uses of `env` does not come to its place. -/
theorem hidden_iff {tree n : Node} : tree.Hidden n ↔
    ∃ a, Node.Reached Node.isOpen tree a n ∧ n.isDirectRead ∧
      tree.nodeAt? query.enters a = none := by
  constructor
  · rintro ⟨b, u, i, a, above, used, below, direct⟩
    refine ⟨b ++ i :: a, above.trans below, direct, ?_⟩
    rw [Option.eq_none_iff_forall_ne_some]
    intro m found
    obtain ⟨k, first, rest⟩ := (Node.Reached.nodeAt?_eq_some_iff.mp found).exists_of_append
    obtain rfl := (first.mono fun _ => isOpen_of_enters).node_unique above
    cases rest with
    | step entered =>
        rw [enters_query, used] at entered
        simp at entered
  · rintro ⟨a, reached, direct, missed⟩
    induction reached with
    | here => cases missed
    | @step m c n i a entered child reached ih =>
        by_cases used : m.isAliasUse
        · exact ⟨[], m, i, a, .here m, used, .step entered child reached, direct⟩
        · have entered' : query.enters m = true := by simp [enters_query, entered, used]
          rw [Node.nodeAt?, if_pos entered', child, Option.bind_some] at missed
          obtain ⟨b, u, j, a', above, rest⟩ := ih direct missed
          exact ⟨i :: b, u, j, a', .step entered child above, rest⟩

/-- A tree takes `env` from `process` if some node of it does. -/
theorem confirmsAlias_eq_false_iff {tree : Node} :
    confirmsAlias tree = false ↔ ∀ n, ¬tree.Within Node.bindsEnv n := by
  have solid : ∀ m : Node, m.bindsEnv → m.passes := by
    intro m binds
    simp only [Node.bindsEnv, Bool.and_eq_true, decide_eq_true_eq] at binds
    simp [Node.passes, binds.1, Kind.isLeaf]
  rw [confirmsAlias, Bool.not_eq_false', List.isEmpty_iff, List.eq_nil_iff_forall_not_mem]
  simp only [Node.mem_search_iff solid]
  constructor
  · intro unbound n within'
    rcases Node.within_iff.mp within' with outer | ⟨outer, first, -⟩
    · exact unbound n outer
    · exact unbound outer first
  · intro unbound n outer
    exact unbound n (Node.within_iff.mpr (.inl outer))

/-- Without an alias, only direct reads are kept. -/
theorem find_of_unconfirmed {tree : Node} (h : confirmsAlias tree = false) :
    find tree = ofNodes (query.run tree).accepted >>= sort := by
  rw [find, gather, h, bind_assoc]
  refine bind_congr fun direct => ?_
  exact congrArg sort (List.append_nil direct)

/-- The places of direct reads, as the search for them alone comes to them. -/
def directPlaces (tree : Node) : List Located :=
  (directQuery.tour [⟨[], tree⟩]).filter (directQuery.takes ·.node)

/-- The places of direct reads that are in no other one. -/
theorem mem_directPlaces_iff {tree n : Node} {a : Address} :
    ⟨a, n⟩ ∈ directPlaces tree ↔ Node.Reached Node.isOpen tree a n ∧ n.isDirectRead := by
  have solid : n.isDirectRead → n.kind.isLeaf = false := by
    intro direct
    simp only [Node.isDirectRead, Node.isEnvMember, Node.isEnvDestructuring, Bool.or_eq_true,
      Bool.and_eq_true, decide_eq_true_eq] at direct
    rcases direct with ⟨kind, -⟩ | ⟨⟨kind, -⟩, -⟩
    · rw [kind]; rfl
    · rw [kind]; rfl
  rw [directPlaces, List.mem_filter, Query.mem_tour_root_iff, enters_directQuery]
  refine and_congr_right fun _ => ?_
  simp only [Query.takes, directQuery, Bool.and_eq_true, Bool.not_eq_true']
  exact ⟨fun taken => taken.2, fun direct => ⟨solid direct, direct⟩⟩

/-- The search for direct reads finds what is at these places. -/
theorem accepted_directQuery (tree : Node) :
    (directQuery.run tree).accepted = (directPlaces tree).map Located.node := by
  rw [Query.run_eq_tour, directPlaces]

/-- The search that stops at uses of `env` finds the direct reads that it comes to. -/
theorem accepted_query (tree : Node) :
    (query.run tree).accepted = ((directPlaces tree).filter fun l =>
      (tree.nodeAt? query.enters l.address).isSome).map Located.node := by
  have fewer : ∀ n, query.enters n = true → directQuery.enters n = true := by
    intro n entered
    rw [enters_directQuery]
    exact isOpen_of_enters entered
  rw [Query.run_eq_tour, Query.filter_tour_of_fewer fewer (fun _ => rfl) tree, directPlaces]

/-- In a tree that never takes `env` from `process`, the uses of `env` take no direct read away
exactly if there is none with a variable below them. If nothing is hidden, the reads that are found
are those that the search for direct reads alone finds, or it fails as that one does; and if the
same reads are found, then nothing was hidden. -/
theorem find_eq_findDirect_iff_unhidden {tree : Node}
    (unbound : ∀ n, ¬tree.Within Node.bindsEnv n) :
    ((∀ n, tree.Hidden n → ofNode n = .ok []) → find tree = findDirect tree) ∧
      ((find tree).isOk → find tree = findDirect tree →
        ∀ n, tree.Hidden n → ofNode n = .ok []) := by
  have found := find_of_unconfirmed (confirmsAlias_eq_false_iff.mpr unbound)
  rw [accepted_query] at found
  have direct : findDirect tree = ofNodes ((directPlaces tree).map Located.node) >>= sort := by
    rw [findDirect, accepted_directQuery]
  constructor
  · intro unhidden
    rw [found, direct, ofNodes_filter]
    rintro ⟨a, n⟩ mem missed
    obtain ⟨reached, read⟩ := mem_directPlaces_iff.mp mem
    refine unhidden n (hidden_iff.mpr ⟨a, reached, read, ?_⟩)
    exact Option.isNone_iff_eq_none.mp (Option.isSome_eq_false_iff.mp missed)
  · intro ok same n hidden
    obtain ⟨a, reached, read, missed⟩ := hidden_iff.mp hidden
    obtain ⟨cs, ok⟩ := Except.isOk_iff.mp ok
    obtain ⟨left, gathered, sorted⟩ := Except.bind_eq_ok_iff.mp (found ▸ ok)
    obtain ⟨all, every, sorted'⟩ := Except.bind_eq_ok_iff.mp (direct ▸ same ▸ ok)
    have lengths := (perm_of_sort sorted).length_eq.symm.trans (perm_of_sort sorted').length_eq
    have unread := (ofNode_eq_nil_of_length_le gathered every).2 (Nat.le_of_eq lengths.symm)
    exact unread ⟨a, n⟩ (mem_directPlaces_iff.mpr ⟨reached, read⟩) (by simp [missed])

end Candidate

namespace Sample

/-- `env[process.env.KEY]`. -/
def nestedRead : Node :=
  program [statement (entry (name "env") (member processEnv "KEY"))]

theorem nestedRead_unbound (n : Node) : ¬nestedRead.Within Node.bindsEnv n := by
  have unconfirmed : Candidate.confirmsAlias nestedRead = false := by decide +kernel
  exact Candidate.confirmsAlias_eq_false_iff.mp unconfirmed n

/-- The inner read is not found. -/
theorem nestedRead_missed : Candidate.find nestedRead ≠ Candidate.findDirect nestedRead := by
  have counts : (Candidate.find nestedRead).toOption.map List.length ≠
      (Candidate.findDirect nestedRead).toOption.map List.length := by decide +kernel
  intro same
  exact counts (by rw [same])

end Sample

namespace Candidate

/-- A direct read in a key of `env`, which is not an alias. -/
theorem find_eq_findDirect_iff_unhidden_nested :
    (∀ n, ¬Sample.nestedRead.Within Node.bindsEnv n) ∧
      ¬∀ n, Sample.nestedRead.Hidden n → ofNode n = .ok [] := by
  refine ⟨Sample.nestedRead_unbound, ?_⟩
  intro unhidden
  exact Sample.nestedRead_missed
    ((find_eq_findDirect_iff_unhidden Sample.nestedRead_unbound).1 unhidden)

/-- A variable called `env` that is not the environment can take direct reads away. -/
theorem not_always_findDirect :
    ¬∀ tree : Node, (∀ n, ¬tree.Within Node.bindsEnv n) → find tree = findDirect tree :=
  fun always => Sample.nestedRead_missed (always _ Sample.nestedRead_unbound)

end Candidate

end EnvReads
