import EnvReads.Proofs.GatheredReads
import EnvReads.Proofs.ModuleReferences
import EnvReads.Proofs.SpelledOut
import Mathlib.Data.List.Forall2

/-!
# A variable `env` read as `process.env`

Where a tree takes `env` from `process`, a use of `env` is as good as one of `process.env`. The tree
in which it is spelled out has the same reads (`Candidate.find_spelled_perm`): what the search
collects as a suspect in one tree it accepts in the other, apart from declarations such as `x =
env`, at which the one search stops without a read, and through which the other one goes without
finding any.
-/

namespace EnvReads

section

variable {α β γ : Type}

theorem exists_of_forall₂ {R : α → β → Prop} {xs : List α} {ys : List β} (h : List.Forall₂ R xs ys)
    {y : β} (mem : y ∈ ys) : ∃ x, R x y := by
  induction h with
  | nil => cases mem
  | cons here _ ih =>
      rcases List.mem_cons.mp mem with rfl | mem
      · exact ⟨_, here⟩
      · exact ih mem

/-- Lists that are found for members in step are the same up to order if they are so for each
member. -/
theorem perm_flatMap_of_forall₂ {f : α → List γ} {g : β → List γ} {xs : List α} {ys : List β}
    (h : List.Forall₂ (fun x y => (g y).Perm (f x)) xs ys) :
    (ys.flatMap g).Perm (xs.flatMap f) := by
  induction h with
  | nil => exact .nil
  | cons here _ ih => exact here.append ih

end

namespace Node

open Value (spelledAt)

/-! ## The search -/

/-- The nodes at the same place of a tree and of the tree that is spelled out. -/
def Stands (c c' : Node) : Prop :=
  c' = c.spelled ∨ c.isNamed "env" ∧ c' = processEnv

/-- Below a field each child stands where it stood, or is spelled out. -/
theorem stands_childrenOfField (k : Kind) (f : Text × Value) :
    List.Forall₂ Stands (childrenOfField f) (childrenOfField (f.1, spelledAt k f.1 f.2)) := by
  rw [childrenOfField, childrenOfField, spelledAt]
  by_cases field : isPosition f.1
  · rw [if_pos field, if_pos field]
    exact .nil
  · rw [if_neg field, if_neg field, if_neg field]
    split
    · next replaced =>
        rw [Bool.and_eq_true, Option.any_eq_true] at replaced
        obtain ⟨-, c, node, named⟩ := replaced
        rw [nodesIn_of_ofValue? node, nodesIn_of_ofValue? (ofValue?_toValue processEnv)]
        exact .cons (.inr ⟨named, rfl⟩) .nil
    · rw [nodesIn_spelled, List.forall₂_map_right_iff]
      exact List.forall₂_same.mpr fun c _ => .inl rfl

/-- So does each child of a node. -/
theorem stands_children (n : Node) : List.Forall₂ Stands n.children n.spelled.children := by
  rw [children, children, show n.spelled.fields = _ from Value.spelledFields_eq_map n.kind n.fields]
  induction n.fields with
  | nil => exact .nil
  | cons f rest ih => exact List.rel_append (stands_childrenOfField n.kind f) ih

/-- What is found in a child is found in the node, if children are entered. -/
theorem within_of_mem_children {n c m : Node} {test : Node → Bool} (entered : n.passes)
    (child : c ∈ n.children) (h : c.Within test m) : n.Within test m := by
  obtain ⟨a, reached, passed⟩ := h
  obtain ⟨i, place⟩ := List.mem_iff_getElem?.mp child
  exact ⟨i :: a, .step entered place reached, passed⟩

/-- A declaration whose target is an identifier or an object pattern. It has each field once, and
its children stand in the fields for the target and the initial value. -/
def isPlainBinding (n : Node) : Bool :=
  (n.fields.map Prod.fst).Nodup &&
    (n.fields.all fun f => f.1 = "id" || f.1 = "init" || (childrenOfField f).isEmpty) &&
    (n.child? "id").any fun target => target.isIdentifier || target.kind = .objectPattern

/-- If no role occurs twice, each field is found under its role. -/
theorem field?_of_mem {n : Node} {f : Text × Value} (names : (n.fields.map Prod.fst).Nodup)
    (mem : f ∈ n.fields) : n.field? f.1 = some f.2 := by
  obtain ⟨before, after, eq⟩ := List.append_of_mem mem
  rw [field?, Fields.field?, List.lookup_eq_some_iff]
  refine ⟨before, after, eq, ?_⟩
  intro g earlier
  rw [eq, List.map_append, List.map_cons, List.nodup_append] at names
  exact bne_iff_ne.mpr fun same =>
    names.2.2 g.1 (List.mem_map_of_mem earlier) f.1 (.head _) same.symm

/-- A declaration such as `x = env` has no children but identifiers. -/
theorem isIdentifier_of_mem_children {n c : Node} (binding : n.isAliasBinding)
    (plain : n.isPlainBinding) (target : (n.child? "id").any (·.kind = .objectPattern) = false)
    (child : c ∈ n.children) : c.isIdentifier := by
  simp only [isPlainBinding, Bool.and_eq_true, decide_eq_true_eq, List.all_eq_true,
    Bool.or_eq_true] at plain
  obtain ⟨⟨names, roles⟩, id⟩ := plain
  have only : ∀ {f : Text × Value}, f ∈ n.fields → (n.child? f.1).any isIdentifier →
      c ∈ childrenOfField f → c.isIdentifier := by
    intro f mem identifier inside
    rw [child?, field?_of_mem names mem, Option.bind_some, Option.any_eq_true] at identifier
    obtain ⟨d, node, identifier⟩ := identifier
    rw [childrenOfField, nodesIn_of_ofValue? node] at inside
    split at inside
    · cases inside
    · rw [List.mem_singleton.mp inside]
      exact identifier
  obtain ⟨f, mem, inside⟩ := List.mem_flatMap.mp child
  rcases roles f mem with (role | role) | bare
  · refine only mem ?_ inside
    rw [role]
    cases found : n.child? "id" with
    | none => simp [found] at id
    | some d =>
        simp only [found, Option.any_some, Bool.or_eq_true, decide_eq_true_eq,
          decide_eq_false_iff_not] at id target
        exact id.resolve_right target
  · refine only mem ?_ inside
    rw [role]
    rw [isAliasBinding, Bool.and_eq_true, Option.any_eq_true] at binding
    obtain ⟨-, d, found, named⟩ := binding
    rw [isNamed, Bool.and_eq_true] at named
    rw [found]
    exact named.1
  · rw [List.isEmpty_iff.mp bare] at inside
    cases inside

end Node

namespace Candidate

/-- `process.env` by itself is no read. -/
theorem collect_processEnv : query.collect Node.processEnv = ⟨[], []⟩ := by
  refine collect_of_children (by decide) (by decide) ?_
  have leaves : ∀ c ∈ Node.processEnv.children, c.isIdentifier := by decide
  exact fun c mem => collect_of_identifier (leaves c mem)

/-- A suspect that may have reads. The others are declarations without an object pattern. -/
def isRead (n : Node) : Bool :=
  !n.isAliasBinding || (n.child? "id").any (·.kind = .objectPattern)

/-- A node that is spelled out is a direct read if it was one, or was a read through an alias. -/
theorem isDirectRead_spelled (n : Node) :
    n.spelled.isDirectRead = (n.isDirectRead || n.isAliasUse && isRead n) := by
  rw [Node.isDirectRead, Node.isEnvMember_spelled, Node.isEnvDestructuring_spelled,
    Node.isDirectRead, Node.isAliasUse, isRead]
  have apart : n.isAliasMember → n.isAliasBinding = false := by
    intro member
    rw [Node.isAliasMember, Bool.and_eq_true, decide_eq_true_eq] at member
    simp [Node.isAliasBinding, member.1]
  cases member : n.isAliasMember with
  | true => simp [apart member]
  | false => cases n.isAliasBinding <;> simp [Bool.or_assoc]

/-- Nothing is found below `x = process.env`. -/
theorem collect_spelled_of_not_isRead {n : Node} (direct : n.isDirectRead = false)
    (plain : n.isAliasBinding → n.isPlainBinding) (h : isRead n = false) :
    query.collect n.spelled = ⟨[], []⟩ := by
  refine collect_of_children ?_ n.isAliasUse_spelled ?_
  · rw [isDirectRead_spelled, direct, h, Bool.and_false, Bool.or_false]
  · rw [isRead, Bool.or_eq_false_iff, Bool.not_eq_false'] at h
    have identifiers : ∀ c ∈ n.children, c.isIdentifier :=
      fun c => Node.isIdentifier_of_mem_children h.1 (plain h.1) h.2
    have stands := (List.forall₂_and_left _ _).mpr ⟨identifiers, n.stands_children⟩
    intro c' mem
    obtain ⟨c, identifier, rfl | ⟨-, rfl⟩⟩ := exists_of_forall₂ stands mem
    · exact collect_of_identifier identifier
    · exact collect_processEnv

/-- What the search finds in a tree, found in the tree that is spelled out: no suspects, and
accepted all that it collects in the tree itself, as long as there is something to read. -/
def Matches (found found' : Found) : Prop :=
  found'.suspects = [] ∧
    found'.accepted.Perm ((found.accepted ++ found.suspects.filter isRead).map Node.spelled)

/-- What is collected from children in step matches if it does for each child. -/
theorem matches_of_children {n n' : Node}
    (h : List.Forall₂ (fun c c' => Matches (query.collect c) (query.collect c')) n.children
      n'.children) :
    Matches
      ⟨n.children.flatMap fun c => (query.collect c).accepted,
        n.children.flatMap fun c => (query.collect c).suspects⟩
      ⟨n'.children.flatMap fun c => (query.collect c).accepted,
        n'.children.flatMap fun c => (query.collect c).suspects⟩ := by
  constructor
  · refine List.flatMap_eq_nil_iff.mpr fun c' mem => ?_
    obtain ⟨c, found⟩ := exists_of_forall₂ h mem
    exact found.1
  · have each := perm_flatMap_of_forall₂ (h.imp fun c c' found => found.2)
    refine each.trans ?_
    simp only [List.filter_flatMap]
    rw [← List.map_flatMap]
    exact (List.flatMap_append_perm _ _ _).symm.map _

/-- The two searches side by side, by induction on the one in the tree itself. -/
theorem collect_spelled (n : Node)
    (plain : ∀ m, n.Within Node.isAliasBinding m → m.isPlainBinding) :
    Matches (query.collect n) (query.collect n.spelled) := by
  induction n using Query.collect.induct query with
  | case1 n leaf =>
      rw [collect_of_leaf leaf, collect_of_leaf (n := n.spelled) leaf]
      exact ⟨rfl, .nil⟩
  | case2 n leaf accept =>
      have direct : n.spelled.isDirectRead := by
        rw [isDirectRead_spelled, show n.isDirectRead = true from accept, Bool.true_or]
      rw [collect_of_direct leaf accept, collect_of_direct (n := n.spelled) leaf direct]
      exact ⟨rfl, .refl _⟩
  | case3 n leaf accept suspect =>
      have direct : n.isDirectRead = false := Bool.eq_false_iff.mpr accept
      have here : query.collect n = ⟨[], [n]⟩ := by
        rw [Query.collect, if_neg leaf, if_neg accept, if_pos suspect]
      -- A use of `env` is accepted when it is spelled out, or entered without finding anything.
      cases read : isRead n with
      | true =>
          have direct' : n.spelled.isDirectRead := by
            rw [isDirectRead_spelled, read, show n.isAliasUse = true from suspect]
            simp
          rw [here, collect_of_direct (n := n.spelled) leaf direct']
          refine ⟨rfl, ?_⟩
          rw [List.filter_cons_of_pos read]
          exact .refl _
      | false =>
          rw [here, collect_spelled_of_not_isRead direct
            (fun binding => plain n ⟨[], .here n, binding⟩) read]
          refine ⟨rfl, ?_⟩
          rw [List.filter_cons_of_neg (by simp [read])]
          exact .nil
  | case4 n leaf accept suspect ih =>
      have direct' : n.spelled.isDirectRead = false := by
        rw [isDirectRead_spelled, show n.isDirectRead = false from Bool.eq_false_iff.mpr accept,
          show n.isAliasUse = false from Bool.eq_false_iff.mpr suspect]
        rfl
      rw [Query.collect_of_enters leaf accept suspect, Query.collect_of_enters (n := n.spelled) leaf
        (Bool.eq_false_iff.mp direct') (Bool.eq_false_iff.mp n.isAliasUse_spelled)]
      refine matches_of_children ?_
      have passes : n.passes := by
        rw [Node.passes, show n.kind.isLeaf = false from Bool.eq_false_iff.mpr leaf]
        rfl
      have below : ∀ c ∈ n.children, Matches (query.collect c) (query.collect c.spelled) :=
        fun c mem => ih ⟨c, mem⟩ fun m inside =>
          plain m (Node.within_of_mem_children passes mem inside)
      refine ((List.forall₂_and_left _ _).mpr ⟨below, n.stands_children⟩).imp ?_
      rintro c c' ⟨found, rfl | ⟨named, rfl⟩⟩
      · exact found
      · -- Neither the identifier nor what replaces it gives anything.
        rw [Node.isNamed, Bool.and_eq_true] at named
        rw [collect_of_identifier named.1, collect_processEnv]
        exact ⟨rfl, .nil⟩

/-! ## Reads at the nodes that are found -/

/-- The read in the tree that is spelled out. -/
def spelled (c : Candidate) : Candidate where
  node := c.node.spelled
  key := c.key.spelled
  computed := c.computed
  span := c.span

/-- A change of members that commutes with a step commutes with all steps. -/
theorem mapM_map_of_commute {α β : Type} {f : α → Except Fault β} {g : α → α} {h : β → β}
    (commute : ∀ a, f (g a) = (f a).map h) (xs : List α) :
    (xs.map g).mapM f = (xs.mapM f).map (List.map h) := by
  induction xs with
  | nil => rfl
  | cons x rest ih =>
      rw [List.map_cons, List.mapM_cons, List.mapM_cons, ih, commute]
      cases f x with
      | error fault => rfl
      | ok b => cases rest.mapM f <;> rfl

/-- The read with a key, spelled out. -/
theorem ofKey_spelled (n key : Node) :
    ofKey n.spelled key.spelled = (ofKey n key).map spelled := by
  rw [ofKey, ofKey, n.span?_spelled, n.computed_spelled]
  cases n.span? <;> rfl

/-- The read by a member of a pattern, spelled out. -/
theorem ofMember_spelled (p : Node) :
    ofMember p.spelled = (ofMember p).map (Option.map spelled) := by
  rw [ofMember, ofMember, p.child?_spelled_of_isKept "key" (by decide), p.span?_spelled]
  cases p.child? "key" with
  | none =>
      simp only [Option.map_none]
      cases p.span? <;> rfl
  | some key =>
      simp only [Option.map_some, ofKey_spelled, Node.kind_spelled]
      cases ofKey p key with
      | error fault => rfl
      | ok c => by_cases property : p.kind = .property <;> simp [Except.map, property]

/-- The reads at a node, spelled out. -/
theorem ofNode_spelled (n : Node) : ofNode n.spelled = (ofNode n).map (List.map spelled) := by
  rw [ofNode, ofNode, n.kind_spelled]
  cases kind : n.kind with
  | memberExpression =>
      simp only [n.child?_spelled_of_isKept "property" (by decide)]
      cases n.child? "property" with
      | none => rfl
      | some key =>
          simp only [Option.map_some, Option.toList_some, List.mapM_cons, List.mapM_nil,
            ofKey_spelled]
          cases ofKey n key <;> rfl
  | variableDeclarator =>
      simp only [n.child?_spelled_of_isKept "id" (by decide)]
      cases n.child? "id" with
      | none => rfl
      | some target =>
          simp only [Option.map_some]
          by_cases pattern : target.kind = .objectPattern
          · rw [if_pos pattern, if_pos (target.kind_spelled.trans pattern),
              target.childrenOf_spelled "properties" (by decide),
              mapM_map_of_commute ofMember_spelled]
            cases (target.childrenOf "properties").mapM ofMember with
            | error fault => rfl
            | ok found => simp [Except.map, List.filterMap_map, List.map_filterMap]
          · rw [if_neg pattern, if_neg (target.kind_spelled ▸ pattern)]
            rfl
  | _ => rfl

/-- The reads at several nodes, spelled out. -/
theorem ofNodes_spelled (ns : List Node) :
    ofNodes (ns.map Node.spelled) = (ofNodes ns).map (List.map spelled) := by
  rw [ofNodes, ofNodes, mapM_map_of_commute ofNode_spelled]
  cases ns.mapM ofNode with
  | error fault => rfl
  | ok found => simp [Except.map, List.map_flatten]

theorem ofNodes_append (ns ms : List Node) :
    ofNodes (ns ++ ms) = do
      let first ← ofNodes ns
      let later ← ofNodes ms
      return first ++ later := by
  induction ns with
  | nil =>
      rw [List.nil_append]
      cases ofNodes ms <;> rfl
  | cons n rest ih =>
      rw [List.cons_append, ofNodes_cons, ofNodes_cons, ih]
      cases ofNode n with
      | error fault => rfl
      | ok here =>
          cases ofNodes rest with
          | error fault => rfl
          | ok more =>
              cases ofNodes ms with
              | error fault => rfl
              | ok others => simp [bind, Except.bind, pure, Except.pure]

/-- The order of the nodes is that of their reads, and makes no difference otherwise. -/
theorem exists_ofNodes_of_perm {ns ms : List Node} (perm : ns.Perm ms) {cs : List Candidate}
    (h : ofNodes ns = .ok cs) : ∃ ds, ofNodes ms = .ok ds ∧ ds.Perm cs := by
  induction perm generalizing cs with
  | nil => exact ⟨cs, h, .refl cs⟩
  | cons n _ ih =>
      rw [ofNodes_cons] at h
      obtain ⟨here, first, h⟩ := Except.bind_eq_ok_iff.mp h
      obtain ⟨more, later, h⟩ := Except.bind_eq_ok_iff.mp h
      cases h
      obtain ⟨ds, found, same⟩ := ih later
      refine ⟨here ++ ds, ?_, same.append_left here⟩
      rw [ofNodes_cons, first, found]
      rfl
  | swap n m rest =>
      rw [ofNodes_cons, ofNodes_cons] at h
      obtain ⟨here, first, h⟩ := Except.bind_eq_ok_iff.mp h
      obtain ⟨_, more, h⟩ := Except.bind_eq_ok_iff.mp h
      obtain ⟨next, second, more⟩ := Except.bind_eq_ok_iff.mp more
      obtain ⟨others, later, more⟩ := Except.bind_eq_ok_iff.mp more
      cases h
      cases more
      refine ⟨next ++ (here ++ others), ?_, List.perm_append_comm_assoc next here others⟩
      rw [ofNodes_cons, ofNodes_cons, first, second, later]
      rfl
  | trans _ _ ih ih' =>
      obtain ⟨ds, found, same⟩ := ih h
      obtain ⟨es, found', same'⟩ := ih' found
      exact ⟨es, found', same'.trans same⟩

/-- A node that is no read gives none. -/
theorem ofNode_of_not_isRead {n : Node} (h : isRead n = false) : ofNode n = .ok [] := by
  rw [isRead, Bool.or_eq_false_iff, Bool.not_eq_false', Node.isAliasBinding, Bool.and_eq_true,
    decide_eq_true_eq] at h
  obtain ⟨⟨kind, -⟩, target⟩ := h
  rw [ofNode, kind]
  simp only
  cases found : n.child? "id" with
  | none => rfl
  | some id =>
      rw [found, Option.any_some, decide_eq_false_iff_not] at target
      simp only [if_neg target]

theorem ofNodes_filter_isRead (ns : List Node) : ofNodes (ns.filter isRead) = ofNodes ns := by
  induction ns with
  | nil => rfl
  | cons n rest ih =>
      rw [ofNodes_cons, ← ih]
      cases read : isRead n with
      | true => rw [List.filter_cons_of_pos read, ofNodes_cons]
      | false =>
          rw [List.filter_cons_of_neg (by simp [read]), ofNode_of_not_isRead read]
          cases ofNodes (rest.filter isRead) <;> rfl

/-! ## Reads of a tree -/

section

variable {tree : Node} (bound : ∃ n, tree.Within Node.bindsEnv n)
  (plain : ∀ n, tree.Within Node.isAliasBinding n → n.isPlainBinding)

include bound in
/-- Where aliases are bound, all nodes that read through them count. -/
theorem gather_of_bound :
    gather tree = ofNodes ((query.collect tree).accepted ++
      (query.collect tree).suspects.filter isRead) := by
  have confirmed : confirmsAlias tree = true := by
    rw [← Bool.not_eq_false, confirmsAlias_eq_false_iff]
    obtain ⟨n, inside⟩ := bound
    exact fun absent => absent n inside
  rw [gather, ofNodes_append, ofNodes_filter_isRead, confirmed, Query.run_eq_collect]
  rfl

include plain in
/-- Where aliases are spelled out, only direct reads are left. -/
theorem gather_spelled : gather tree.spelled = ofNodes (query.collect tree.spelled).accepted := by
  rw [gather, Query.run_eq_collect, (collect_spelled tree plain).1]
  cases ofNodes (query.collect tree.spelled).accepted with
  | error fault => rfl
  | ok direct =>
      cases confirmsAlias tree.spelled <;> exact congrArg Except.ok (List.append_nil direct)

include bound plain

/-- Spelling out the aliases gives the same reads, spelled out, in some order. -/
theorem exists_gather_spelled {cs : List Candidate} (h : gather tree = .ok cs) :
    ∃ cs', gather tree.spelled = .ok cs' ∧ cs'.Perm (cs.map spelled) := by
  rw [gather_of_bound bound] at h
  rw [gather_spelled plain]
  refine exists_ofNodes_of_perm (collect_spelled tree plain).2.symm ?_
  rw [ofNodes_spelled, h]
  rfl

/-- Spelling out the aliases does not make the search fail. -/
theorem isOk_gather_spelled : (gather tree.spelled).isOk ↔ (gather tree).isOk := by
  constructor
  · intro ends
    obtain ⟨cs', found⟩ := Except.isOk_iff.mp ends
    rw [gather_spelled plain] at found
    obtain ⟨ds, found, -⟩ := exists_ofNodes_of_perm (collect_spelled tree plain).2 found
    rw [ofNodes_spelled] at found
    rw [gather_of_bound bound, ← Except.isOk_map (f := List.map spelled), found]
    rfl
  · intro ends
    obtain ⟨cs, found⟩ := Except.isOk_iff.mp ends
    obtain ⟨cs', found', -⟩ := exists_gather_spelled bound plain found
    rw [found']
    rfl

end

/-- A tree that takes `env` from `process` has the same reads as the tree in which `env` is spelled
out: at the same places, computed or not, and with keys that are spelled out too. The reads of the
one can be gathered if those of the other can, and if they stand at integer places then both are
found. -/
theorem find_spelled_perm {tree : Node} (bound : ∃ n, tree.Within Node.bindsEnv n)
    (plain : ∀ n, tree.Within Node.isAliasBinding n → n.isPlainBinding) :
    ((gather tree.spelled).isOk ↔ (gather tree).isOk) ∧
      (∀ cs cs', find tree = .ok cs → find tree.spelled = .ok cs' → cs'.Perm (cs.map spelled)) ∧
      ∀ gathered, gather tree = .ok gathered → (∀ c ∈ gathered, c.IsPlaced) →
        (find tree).isOk ∧ (find tree.spelled).isOk := by
  refine ⟨isOk_gather_spelled bound plain, ?_, ?_⟩
  · intro cs cs' found found'
    obtain ⟨gathered, collected, sorted⟩ := Except.bind_eq_ok_iff.mp found
    obtain ⟨gathered', collected', sorted'⟩ := Except.bind_eq_ok_iff.mp found'
    obtain ⟨others, collected'', same⟩ := exists_gather_spelled bound plain collected
    cases collected'.symm.trans collected''
    calc List.Perm cs' gathered' := perm_of_sort sorted'
      List.Perm _ (gathered.map spelled) := same
      List.Perm _ (cs.map spelled) := ((perm_of_sort sorted).map spelled).symm
  · intro gathered collected placed
    obtain ⟨gathered', collected', same⟩ := exists_gather_spelled bound plain collected
    have placed' : ∀ c ∈ gathered', c.IsPlaced := by
      intro c mem
      obtain ⟨d, inside, rfl⟩ := List.mem_map.mp (same.mem_iff.mp mem)
      exact placed d inside
    rw [find, find, collected, collected']
    change (sort gathered).isOk ∧ (sort gathered').isOk
    rw [sort_of_isPlaced placed, sort_of_isPlaced placed']
    exact ⟨rfl, rfl⟩

end Candidate

namespace Sample

/-- `var { env } = process; env.A; var { B } = env; var e = env; process.env[env.C];
env[process.env.D]`. -/
def aliasing : Node :=
  program [
    declaration (node .objectPattern [("properties", .list [property "env" (name "env")])])
      (name "process"),
    statement (member (name "env") "A"),
    declaration (node .objectPattern [("properties", .list [property "B" (name "B")])])
      (name "env"),
    declaration (name "e") (name "env"),
    statement (entry processEnv (member (name "env") "C")),
    statement (entry (name "env") (member processEnv "D"))]

end Sample

namespace Candidate

open Sample in
/-- Four reads through aliases, one of them by destructuring. -/
theorem find_spelled_perm_aliasing :
    ∃ cs cs', find aliasing = .ok cs ∧ find aliasing.spelled = .ok cs' ∧
      cs'.Perm (cs.map spelled) ∧ cs.length = 4 := by
  have bound : ∃ n, aliasing.Within Node.bindsEnv n := by
    have confirmed : confirmsAlias aliasing ≠ false := by decide +kernel
    rwa [Ne, confirmsAlias_eq_false_iff, not_forall_not] at confirmed
  have plain : ∀ n, aliasing.Within Node.isAliasBinding n → n.isPlainBinding := by
    have all : aliasing.walk.all fun n => !n.isAliasBinding || n.isPlainBinding := by
      decide +kernel
    rintro n ⟨a, reached, binding⟩
    have here := List.all_eq_true.mp all n
      (Node.mem_walk_of_reached reached (Node.mem_walkFrom_of_mem (.head _)))
    simpa [binding] using here
  obtain ⟨-, same, ends⟩ := find_spelled_perm bound plain
  have computed : (gather aliasing).toOption.any fun gathered =>
      gathered.length = 4 && gathered.all fun c => (Span.place? c.span).isSome := by
    decide +kernel
  simp only [Option.any_eq_true, Except.toOption_eq_some_iff, Bool.and_eq_true, decide_eq_true_eq,
    List.all_eq_true] at computed
  obtain ⟨gathered, collected, four, placed⟩ := computed
  obtain ⟨first, second⟩ := ends gathered collected placed
  obtain ⟨cs, found⟩ := Except.isOk_iff.mp first
  obtain ⟨cs', found'⟩ := Except.isOk_iff.mp second
  refine ⟨cs, cs', found, found', same cs cs' found found', ?_⟩
  rw [find, collected] at found
  rw [(perm_of_sort found).length_eq, four]

end Candidate

end EnvReads
