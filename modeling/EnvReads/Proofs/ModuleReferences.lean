import EnvReads.Proofs.NameSoundness
import EnvReads.Proofs.OriginTrace

/-!
# Modules that a file refers to

A file refers to a module if one of the nodes of its tree, a `require` call or an import, names it.
The modules that are looked into for the declarations in a file are among these
(`SourceUnit.refersTo_of_declarationOrigin?`).
-/

namespace EnvReads

namespace Node

/-! ## Nodes below others -/

section

variable {stack : List Node} {tree n c : Node} {role : Text}

theorem mem_walkFrom_of_mem (h : n ∈ stack) : n ∈ walkFrom stack := by
  fun_induction walkFrom stack with
  | case1 => exact h
  | case2 first rest ih =>
      cases h with
      | head => exact .head _
      | tail _ h => exact .tail _ (ih (List.mem_append_right _ h))

/-- A walk comes to the children of what it comes to. -/
theorem mem_walkFrom_of_mem_children (h : n ∈ walkFrom stack) (child : c ∈ n.children) :
    c ∈ walkFrom stack := by
  fun_induction walkFrom stack with
  | case1 => cases h
  | case2 first rest ih =>
      cases h with
      | head => exact .tail _ (mem_walkFrom_of_mem (List.mem_append_left _ child))
      | tail _ h => exact .tail _ (ih h)

/-- A walk comes to all that can be reached. -/
theorem mem_walk_of_reached {enters : Node → Bool} {a : Address} (h : tree.Reached enters a n)
    (mem : tree ∈ walkFrom stack) : n ∈ walkFrom stack := by
  induction h with
  | here => exact mem
  | step _ child _ ih => exact ih (mem_walkFrom_of_mem_children mem (List.mem_of_getElem? child))

/-- Children in a role are children. -/
theorem mem_children_of_mem_childrenOf (h : c ∈ n.childrenOf role) (field : ¬isPosition role) :
    c ∈ n.children := by
  unfold childrenOf at h
  cases found : n.field? role with
  | none => simp [found] at h
  | some v =>
      simp only [found, Option.elim_some] at h
      refine List.mem_flatMap.mpr ⟨(role, v), ?_, ?_⟩
      · obtain ⟨before, after, split, -⟩ := List.lookup_eq_some_iff.mp found
        rw [split]
        exact List.mem_append_right before (.head after)
      · rwa [childrenOfField, if_neg field]

theorem mem_childrenOf_of_child? (h : n.child? role = some c) : c ∈ n.childrenOf role := by
  obtain ⟨v, found, node⟩ := Option.bind_eq_some_iff.mp h
  rw [childrenOf, found]
  cases v <;> simp_all [nodesIn, ofValue?]

/-- A walk comes to the children in a role. -/
theorem mem_walk_of_mem_childrenOf (mem : n ∈ tree.walk) (h : c ∈ n.childrenOf role)
    (field : ¬isPosition role) : c ∈ tree.walk :=
  mem_walkFrom_of_mem_children mem (mem_children_of_mem_childrenOf h field)

/-- A walk comes to the child in a role. -/
theorem mem_walk_of_child? (mem : n ∈ tree.walk) (h : n.child? role = some c)
    (field : ¬isPosition role) : c ∈ tree.walk :=
  mem_walk_of_mem_childrenOf mem (mem_childrenOf_of_child? h) field

/-- A walk comes to the values of properties. -/
theorem mem_walk_of_propertyValue? {value : Node} {key : Value} (mem : n ∈ tree.walk)
    (h : n.propertyValue? key = .ok (some value)) : value ∈ tree.walk := by
  obtain ⟨keyed, filtered, last⟩ := Except.map_eq_ok_iff.mp h
  obtain ⟨p, last, child⟩ := Option.bind_eq_some_iff.mp last
  have member := Fault.mem_of_mem_filter filtered (List.mem_of_getLast? last)
  have property := (List.mem_filter.mp member).1
  have inside := mem_walk_of_mem_childrenOf mem property (by decide)
  exact mem_walk_of_child? inside child (by decide)

end

/-- Declarations stand in the tree. -/
theorem mem_walk_of_mem_declarationsOf {tree d : Node} {p : StaticPath} {found : List Node}
    (h : tree.declarationsOf p = .ok found) (mem : d ∈ found) : d ∈ tree.walk := by
  obtain ⟨a, reached, -⟩ := (mem_declarationsOf_iff h).mp mem
  exact mem_walk_of_reached reached (mem_walkFrom_of_mem (.head []))

end Node

/-! ## Modules that a file refers to -/

/-- A `require` call or an import in the file names the module. -/
def SourceUnit.RefersTo (files : FileSystem) (unit : SourceUnit) (target : Path) : Prop :=
  ∃ n ∈ unit.tree.walk, ∃ specifier, n.broughtModule? = .ok (some specifier) ∧
    Module.lookup files.view specifier unit.path = .ok (some target)

namespace Origin

/-- If the value comes from a module, some node of the tree brings that module in. -/
def OccursIn (tree : Node) : Origin → Prop
  | imported (some specifier) _ _ => ∃ n ∈ tree.walk, n.broughtModule? = .ok (some specifier)
  | _ => True

/-- The module that is looked into for an origin, if modules are followed. -/
def entered? (files : FileSystem) (path : Path) : Origin → Option Path
  | imported (some specifier) (_ :: _) _ => (Module.lookup files.view specifier path).toOption.join
  | _ => none

/-- A module that an origin in a file leads into is one that the file refers to. -/
theorem refersTo_of_entered? {files : FileSystem} {unit : SourceUnit} {o : Origin} {target : Path}
    (occurs : o.OccursIn unit.tree) (h : o.entered? files unit.path = some target) :
    unit.RefersTo files target := by
  cases o with
  | nothing | literal _ _ | unknown _ => cases h
  | imported specifier keys place =>
      cases specifier with
      | none => cases h
      | some specifier =>
          cases keys with
          | nil => cases h
          | cons key keys =>
              obtain ⟨n, mem, brought⟩ := occurs
              refine ⟨n, mem, specifier, brought, ?_⟩
              exact Except.toOption_eq_some_iff.mp (Option.join_eq_some_iff.mp h)

end Origin

namespace Node

variable {tree n : Node} {o : Origin}

/-- A module that is required is brought in. -/
theorem broughtModule?_of_requiredModule? {specifier : Text}
    (h : n.requiredModule? = .ok (some specifier)) : n.broughtModule? = .ok (some specifier) := by
  rw [broughtModule?, h]
  rfl

/-- A module that is imported is brought in. -/
theorem broughtModule?_of_importedModule? {specifier : Text}
    (h : n.importedModule? = some specifier) : n.broughtModule? = .ok (some specifier) := by
  have kind : n.kind = .importDeclaration := by
    rw [importedModule?] at h
    split at h
    · next kind => exact kind
    · cases h
  have required : n.requiredModule? = .ok none := by simp [requiredModule?, kind]
  rw [broughtModule?, required, h]
  rfl

/-- Origins that are traced from a node in a tree occur in the tree. -/
theorem occursIn_of_traces {keys : List Value} (h : n.Traces keys o) (mem : n ∈ tree.walk) :
    o.OccursIn tree := by
  induction h with
  | void | incomplete | literal | unknown => trivial
  | assignment _ child _ ih => exact ih (mem_walk_of_child? mem child (by decide))
  | required found => exact ⟨_, mem, broughtModule?_of_requiredModule? found⟩
  | requiredMember child found =>
      refine ⟨_, mem_walk_of_child? mem child (by decide), ?_⟩
      exact broughtModule?_of_requiredModule? found
  | property _ found _ ih => exact ih (mem_walk_of_propertyValue? mem found)

/-- So does the origin of such a node. -/
theorem occursIn_of_origin {keys : List Value} (h : n.origin keys = .ok o) (mem : n ∈ tree.walk) :
    o.OccursIn tree :=
  occursIn_of_traces (traces_of_origin h) mem

/-- Where the origin of a path in a declaration is found: there is no value, or it is the origin of
an expression in the declaration, or the declaration imports it. -/
inductive Yields (n : Node) : Origin → Prop
  | nothing : Yields n .nothing
  | expression {value : Node} {role : Text} {keys : List Value} {o : Origin} :
      n.child? role = some value → ¬isPosition role → value.origin keys = .ok o → Yields n o
  | imported {keys : List Value} : Yields n (.imported n.importedModule? keys n)

theorem yields_of_declaratorOrigin? {p : StaticPath} (h : n.declaratorOrigin? p = .ok (some o)) :
    n.Yields o := by
  rw [declaratorOrigin?] at h
  split at h
  · cases h
    exact .nothing
  · next init child =>
      split at h
      · cases h
      · split at h
        · obtain ⟨o', found, same⟩ := Except.map_eq_ok_iff.mp h
          cases same
          exact .expression child (by decide) found
        · split at h
          · obtain ⟨key, -, h⟩ := Except.bind_eq_ok_iff.mp h
            cases key with
            | none => cases h
            | some key =>
                obtain ⟨o', found, same⟩ := Except.map_eq_ok_iff.mp h
                cases same
                exact .expression child (by decide) found
          · cases h

theorem yields_of_declarationOrigin? {p : StaticPath}
    (h : n.declarationOrigin? p = .ok (some o)) : n.Yields o := by
  rw [declarationOrigin?] at h
  split at h
  · exact yields_of_declaratorOrigin? h
  · obtain ⟨left, -, h⟩ := Except.bind_eq_ok_iff.mp h
    cases left with
    | none => cases h
    | some left =>
        obtain ⟨o', found, same⟩ := Except.map_eq_ok_iff.mp h
        cases same
        cases child : n.child? "right" with
        | none =>
            rw [child] at found
            cases found
            exact .nothing
        | some right =>
            rw [child] at found
            exact .expression child (by decide) found
  · obtain ⟨specifier, -, same⟩ := Option.map_eq_some_iff.mp (Except.ok.inj h)
    cases same
    exact .imported
  · cases h

/-- The origin of a declaration in a tree occurs in the tree. -/
theorem occursIn_of_declarationOrigin? {p : StaticPath}
    (h : n.declarationOrigin? p = .ok (some o)) (mem : n ∈ tree.walk) : o.OccursIn tree := by
  cases yields_of_declarationOrigin? h with
  | nothing => trivial
  | expression child field found =>
      exact occursIn_of_origin found (mem_walk_of_child? mem child field)
  | imported =>
      cases imported : n.importedModule? with
      | none => trivial
      | some specifier => exact ⟨n, mem, broughtModule?_of_importedModule? imported⟩

end Node

/-- A file refers to the modules that are looked into for its declarations. -/
theorem SourceUnit.refersTo_of_declarationOrigin? {files : FileSystem} {unit : SourceUnit}
    {p : StaticPath} {d : Node} {o : Origin} {target : Path} (mem : d ∈ unit.tree.walk)
    (origin : d.declarationOrigin? p = .ok (some o))
    (entered : o.entered? files unit.path = some target) : unit.RefersTo files target :=
  Origin.refersTo_of_entered? (Node.occursIn_of_declarationOrigin? origin mem) entered

end EnvReads
