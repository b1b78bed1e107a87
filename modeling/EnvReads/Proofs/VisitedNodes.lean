import EnvReads.Concrete.Convert

/-!
# The nodes that conversion visits

Conversion labels every node of a concrete tree, but a label counts only if the rule for some node
above it looks there. `Concrete.uses` says of each rule which nodes it has converted, and
`Concrete.visited` lists the nodes whose conversion counts for a whole tree.
-/

namespace EnvReads.Concrete

open Rose

/-! ## Parts of a tree -/

/-- A tree and all trees in it. -/
def subtrees : Concrete → List Concrete
  | .node m cs => .node m cs :: cs.attach.flatMap fun c => subtrees c.1
termination_by c => sizeOf c
decreasing_by
  have := List.sizeOf_lt_of_mem c.2
  simp only [Rose.node.sizeOf_spec]
  omega

theorem subtrees_node (m : Mark) (cs : List Concrete) :
    subtrees (.node m cs) = .node m cs :: cs.flatMap subtrees := by
  rw [subtrees]
  simp

/-- A tree is a part of itself. -/
theorem mem_subtrees_self (c : Concrete) : c ∈ c.subtrees := by
  cases c with
  | node m cs =>
      rw [subtrees_node]
      exact .head _

/-- A part of a child is a part. -/
theorem mem_subtrees_of_child {c d k : Concrete} (h : d ∈ c.subtrees) (child : c ∈ k.children) :
    d ∈ k.subtrees := by
  cases k with
  | node m cs =>
      rw [subtrees_node]
      exact .tail _ (List.mem_flatMap.mpr ⟨c, child, h⟩)

/-- A part of a part is a part. -/
theorem mem_subtrees_trans {c d k : Concrete} (h : c ∈ k.subtrees) (h' : d ∈ c.subtrees) :
    d ∈ k.subtrees := by
  induction k using subtrees.induct with
  | case1 m cs ih =>
      rw [subtrees_node] at h
      rcases List.mem_cons.mp h with rfl | below
      · exact h'
      · obtain ⟨e, mem, below⟩ := List.mem_flatMap.mp below
        exact mem_subtrees_of_child (ih ⟨e, mem⟩ below) mem

/-- A part is not larger. -/
theorem sizeOf_le_of_mem_subtrees {c k : Concrete} (h : c ∈ k.subtrees) : sizeOf c ≤ sizeOf k := by
  induction k using subtrees.induct with
  | case1 m cs ih =>
      rw [subtrees_node] at h
      rcases List.mem_cons.mp h with rfl | below
      · exact Nat.le_refl _
      · obtain ⟨e, mem, below⟩ := List.mem_flatMap.mp below
        have smaller : sizeOf c ≤ sizeOf e := ih ⟨e, mem⟩ below
        have := List.sizeOf_lt_of_mem mem
        simp only [Rose.node.sizeOf_spec]
        omega

/-- The first nodes in several roles. -/
def inRoles (cs : List Concrete) (roles : List Text) : List Concrete :=
  roles.flatMap fun role => (inRole? cs role).toList

/-- The nodes of a grammar symbol. -/
def ofSymbol (cs : List Concrete) (symbol : Symbol) : List Concrete :=
  (named cs).filter (·.symbol = symbol)

/-! ## What a rule has converted -/

/-- The first node that conversion does not leave out. -/
def firstKeptOf (cs : List Concrete) : List Concrete :=
  (kept cs).head?.toList

/-- The nodes that are converted for the key of a property. -/
def keyUses : Option Concrete → List Concrete
  | some key => if key.symbol = .computedPropertyName then firstKeptOf key.children else [key]
  | none => []

/-- The nodes that are converted for a member of an object or of an object pattern. -/
def memberUses (c : Concrete) : List Concrete :=
  match c.symbol with
  | .pair | .pairPattern => keyUses (inRole? c.children "key") ++ inRoles c.children ["value"]
  | .shorthandPropertyIdentifier | .shorthandPropertyIdentifierPattern => []
  | .objectAssignmentPattern =>
    if (inRole? c.children "left").any (·.symbol.isIdentifierLike) then
      inRoles c.children ["right"]
    else
      [c]
  | _ => [c]

/-- The nodes that are converted for the arguments of a call. -/
def argumentUses (cs : List Concrete) : List Concrete :=
  (inRole? cs "arguments").elim [] fun arguments => kept arguments.children

/-- The nodes that are converted for an export. -/
def exportUses (cs : List Concrete) : List Concrete :=
  if cs.any (·.symbol = .default) then
    ((inRole? cs "value").or (inRole? cs "declaration")).toList
  else
    inRoles cs ["declaration"] ++ (ofSymbol cs .exportClause ++ inRoles cs ["source"])

/-- Which nodes a rule has converted, in terms of the children of its node. -/
inductive Selection where
  | nothing
  | named
  | kept
  | firstKept
  | ofSymbol (symbol : Symbol)
  | roles (names : List Text)
  /-- What is called, in the given role, and the arguments. -/
  | call (callee : Text)
  | substitutions
  | members
  | exported

/-- What the rule for a symbol selects. -/
def selection : Symbol → Selection
  | .comment | .hashBangLine | .optionalChain => .nothing
  | .identifier | .propertyIdentifier | .shorthandPropertyIdentifier
  | .shorthandPropertyIdentifierPattern | .statementIdentifier | .privatePropertyIdentifier
  | .this | .undefined | .string | .number | .trueLiteral | .falseLiteral | .nullLiteral
  | .regex => .nothing
  | .expressionStatement | .spreadElement | .restPattern => .firstKept
  | .lexicalDeclaration | .variableDeclaration => .ofSymbol .variableDeclarator
  | .variableDeclarator => .roles ["name", "value"]
  | .memberExpression => .roles ["object", "property"]
  | .subscriptExpression => .roles ["object", "index"]
  | .parenthesizedExpression => .kept
  | .callExpression => .call "function"
  | .newExpression => .call "constructor"
  | .assignmentExpression | .augmentedAssignmentExpression | .binaryExpression
  | .assignmentPattern => .roles ["left", "right"]
  | .unaryExpression => .roles ["argument"]
  | .ternaryExpression => .roles ["condition", "consequence", "alternative"]
  | .templateString => .substitutions
  | .object | .objectPattern => .members
  | .importStatement => .roles ["source"]
  | .exportStatement => .exported
  | _ => .named

/-- The selected nodes. -/
def Selection.among (cs : List Concrete) : Selection → List Concrete
  | nothing => []
  | named => Rose.named cs
  | kept => Rose.kept cs
  | firstKept => firstKeptOf cs
  | ofSymbol symbol => Concrete.ofSymbol cs symbol
  | roles names => inRoles cs names
  | call callee => inRoles cs [callee] ++ argumentUses cs
  | substitutions =>
    (Concrete.ofSymbol cs .templateSubstitution).flatMap fun c => firstKeptOf c.children
  | members => (Rose.kept cs).flatMap memberUses
  | exported => exportUses cs

/-- The nodes that the rule for a node has converted. -/
def uses (c : Concrete) : List Concrete :=
  (selection c.symbol).among c.children

/-! ## Uses lie below -/

/-- Every tree of the second list is a part of one of the first. -/
def Inside (cs ds : List Concrete) : Prop :=
  ∀ d ∈ ds, ∃ c ∈ cs, d ∈ c.subtrees

section

variable {cs ds ds' : List Concrete}

/-- Some of the trees lie in the trees. -/
theorem inside_of_subset (h : ∀ d ∈ ds, d ∈ cs) : Inside cs ds :=
  fun d mem => ⟨d, h d mem, d.mem_subtrees_self⟩

theorem Inside.append (h : Inside cs ds) (h' : Inside cs ds') : Inside cs (ds ++ ds') :=
  List.forall_mem_append.mpr ⟨h, h'⟩

/-- What lies below the members of a list lies in the list. -/
theorem Inside.of_children {c : Concrete} (mem : c ∈ cs) (h : Inside c.children ds) :
    Inside cs ds := by
  intro d below
  obtain ⟨k, child, inside⟩ := h d below
  exact ⟨c, mem, mem_subtrees_of_child inside child⟩

/-- What lies in each of some trees lies in the trees. -/
theorem Inside.flatMap {f : Concrete → List Concrete} (subset : ∀ d ∈ ds, d ∈ cs)
    (h : ∀ c ∈ cs, Inside cs (f c)) : Inside cs (ds.flatMap f) := by
  intro d mem
  obtain ⟨c, first, mem⟩ := List.mem_flatMap.mp mem
  exact h c (subset c first) d mem

theorem mem_of_mem_named {c : Concrete} (h : c ∈ named cs) : c ∈ cs :=
  (List.mem_filter.mp h).1

theorem mem_of_mem_kept {c : Concrete} (h : c ∈ kept cs) : c ∈ cs :=
  mem_of_mem_named ((List.mem_filter.mp h).1)

theorem mem_of_mem_ofSymbol {c : Concrete} {symbol : Symbol} (h : c ∈ ofSymbol cs symbol) :
    c ∈ cs :=
  mem_of_mem_named ((List.mem_filter.mp h).1)

theorem mem_of_inRole? {c : Concrete} {role : Text} (h : inRole? cs role = some c) : c ∈ cs :=
  List.mem_of_find?_eq_some h

/-- The first node that is kept lies in the nodes. -/
theorem inside_firstKeptOf : Inside cs (firstKeptOf cs) :=
  inside_of_subset fun _ mem => mem_of_mem_kept (List.mem_of_mem_head? (Option.mem_toList.mp mem))

/-- So do the nodes in some roles. -/
theorem inside_inRoles (roles : List Text) : Inside cs (inRoles cs roles) := by
  refine inside_of_subset fun d mem => ?_
  obtain ⟨role, -, found⟩ := List.mem_flatMap.mp mem
  exact mem_of_inRole? (Option.mem_toList.mp found)

/-- So does what is converted for a key. -/
theorem inside_keyUses (role : Text) : Inside cs (keyUses (inRole? cs role)) := by
  cases found : inRole? cs role with
  | none => exact inside_of_subset (by simp [keyUses])
  | some key =>
      rw [keyUses]
      split
      · exact .of_children (mem_of_inRole? found) inside_firstKeptOf
      · exact inside_of_subset (by simpa using mem_of_inRole? found)

/-- So does what is converted for a member. -/
theorem inside_memberUses {c : Concrete} (mem : c ∈ cs) : Inside cs (memberUses c) := by
  have self : Inside cs [c] := inside_of_subset (by simpa using mem)
  rw [memberUses]
  split
  · exact .of_children mem ((inside_keyUses "key").append (inside_inRoles _))
  · exact .of_children mem ((inside_keyUses "key").append (inside_inRoles _))
  · exact inside_of_subset (by simp)
  · exact inside_of_subset (by simp)
  · split
    · exact .of_children mem (inside_inRoles _)
    · exact self
  · exact self

/-- So does what is converted for arguments. -/
theorem inside_argumentUses : Inside cs (argumentUses cs) := by
  rw [argumentUses]
  cases found : inRole? cs "arguments" with
  | none => exact inside_of_subset (by simp)
  | some c =>
      exact .of_children (mem_of_inRole? found) (inside_of_subset fun _ => mem_of_mem_kept)

/-- So does what is converted for an export. -/
theorem inside_exportUses : Inside cs (exportUses cs) := by
  rw [exportUses]
  split
  · refine inside_of_subset fun d mem => ?_
    rcases Option.or_eq_some_iff.mp (Option.mem_toList.mp mem) with found | ⟨-, found⟩
    · exact mem_of_inRole? found
    · exact mem_of_inRole? found
  · exact (inside_inRoles _).append
      ((inside_of_subset fun _ => mem_of_mem_ofSymbol).append (inside_inRoles _))

end

/-- So does all that a rule can select. -/
theorem Selection.inside_among (cs : List Concrete) (selected : Selection) :
    Inside cs (selected.among cs) := by
  cases selected with
  | nothing => exact inside_of_subset (by simp [among])
  | named => exact inside_of_subset fun _ => mem_of_mem_named
  | kept => exact inside_of_subset fun _ => mem_of_mem_kept
  | firstKept => exact inside_firstKeptOf
  | ofSymbol symbol => exact inside_of_subset fun _ => mem_of_mem_ofSymbol
  | roles names => exact inside_inRoles names
  | call callee => exact (inside_inRoles [callee]).append inside_argumentUses
  | substitutions =>
      exact .flatMap (fun _ => mem_of_mem_ofSymbol) fun c mem =>
        .of_children mem inside_firstKeptOf
  | members => exact .flatMap (fun _ => mem_of_mem_kept) fun c mem => inside_memberUses mem
  | exported => exact inside_exportUses

/-- What a rule converts is a part of its node. -/
theorem mem_subtrees_of_mem_uses {c d : Concrete} (h : d ∈ c.uses) : d ∈ c.subtrees := by
  obtain ⟨k, child, below⟩ := Selection.inside_among c.children _ d h
  exact mem_subtrees_of_child below child

/-- What a rule converts is smaller than its node. -/
theorem sizeOf_lt_of_mem_uses {c d : Concrete} (h : d ∈ c.uses) : sizeOf d < sizeOf c := by
  obtain ⟨k, child, below⟩ := Selection.inside_among c.children _ d h
  have smaller := sizeOf_le_of_mem_subtrees below
  cases c with
  | node m cs =>
      have : sizeOf k < sizeOf cs := List.sizeOf_lt_of_mem child
      simp only [Rose.node.sizeOf_spec]
      omega

/-- The nodes whose conversion counts for that of a tree. -/
def visited (c : Concrete) : List Concrete :=
  c :: c.uses.attach.flatMap fun d => visited d.1
termination_by sizeOf c
decreasing_by exact sizeOf_lt_of_mem_uses d.2

/-- A node is visited as the tree itself or below what its rule converts. -/
theorem mem_visited_iff {c d : Concrete} :
    d ∈ c.visited ↔ d = c ∨ ∃ k ∈ c.uses, d ∈ k.visited := by
  rw [visited]
  simp

end EnvReads.Concrete
