import EnvReads.Proofs.ResolutionQuestions

/-!
# Trees that keep to the rules

In a tree that keeps to the rules (`Node.IsRegular`) every question of resolution has an answer, so
that declarations, their origins and exports are all found. If the modules of a session keep to them
too (`Session.IsRegular`), then resolution fails only where a module cannot be looked up or the tree
cannot be dumped (`Resolver.provides_iff_lookups`).
-/

namespace EnvReads

/-- The node at which an origin was found. -/
def Origin.place? : Origin → Option Node
  | nothing => none
  | literal _ place | imported _ _ place | unknown place => some place

/-- The site of an origin is asked for at the place where the origin was found. -/
theorem Origin.place?_of_siteAsks {files : FileSystem} {path : Path} {o : Origin} {q : Question}
    (h : o.SiteAsks files path q) : ∃ place, o.place? = some place ∧ q = ⟨.place, place⟩ := by
  cases h with
  | literal => exact ⟨_, rfl, rfl⟩
  | unresolved unresolved => cases unresolved <;> exact ⟨_, rfl, rfl⟩

namespace Node

/-! ## What stands in a tree -/

section

variable {tree n place : Node} {keys : List Value} {o : Origin}

/-- The values of an export stand in the tree. -/
theorem mem_walk_of_mem_exports {q : ExportPath} {values : List (Option Node × List Value)}
    {value : Node} (h : tree.exports q = .ok values) (mem : (some value, keys) ∈ values) :
    value ∈ tree.walk := by
  obtain ⟨found, exported, rfl⟩ := Except.map_eq_ok_iff.mp h
  obtain ⟨here, given, mem⟩ := List.mem_flatten.mp mem
  obtain ⟨n, found, exported⟩ := (Except.mem_of_mapM exported).mp given
  have inside := mem_walk_of_mem_search found
  rw [exportedAt] at exported
  split at exported
  · obtain ⟨left, -, exported⟩ := Except.bind_eq_ok_iff.mp exported
    split at exported
    · next slot _ =>
        cases exported
        split at mem
        · obtain ⟨child, -⟩ := Prod.mk.inj (List.mem_singleton.mp mem)
          exact mem_walk_of_child? inside child.symm (by decide)
        · cases mem
    · cases exported
      cases mem
  · cases exported
    rw [declaredExport] at mem
    split at mem
    · next declaration child =>
        split at mem
        · obtain ⟨d, declared, same⟩ := List.mem_map.mp mem
          obtain ⟨init, -⟩ := Prod.mk.inj same
          have outer := mem_walk_of_child? inside child (by decide)
          have inner := mem_walk_of_mem_childrenOf outer (List.mem_filter.mp declared).1 (by decide)
          exact mem_walk_of_child? inner init (by decide)
        · cases mem
    · cases mem
  · cases exported
    split at mem
    · obtain ⟨child, -⟩ := Prod.mk.inj (List.mem_singleton.mp mem)
      exact mem_walk_of_child? inside child.symm (by decide)
    · cases mem
  · cases exported
    cases mem

/-- What is traced from a node in a tree was found in the tree. -/
theorem mem_walk_of_traces (h : n.Traces keys o) (mem : n ∈ tree.walk)
    (found : o.place? = some place) : place ∈ tree.walk := by
  induction h with
  | void | incomplete => cases found
  | literal | unknown | required | requiredMember =>
      cases found
      exact mem
  | assignment _ child _ ih => exact ih (mem_walk_of_child? mem child (by decide)) found
  | property _ value _ ih => exact ih (mem_walk_of_propertyValue? mem value) found

/-- So was the origin of an optional value. -/
theorem mem_walk_of_originOf {value : Option Node}
    (mem : ∀ n, value = some n → n ∈ tree.walk) (h : originOf value keys = .ok o)
    (found : o.place? = some place) : place ∈ tree.walk := by
  cases value with
  | none =>
      cases h
      cases found
  | some n => exact mem_walk_of_traces (traces_of_origin h) (mem n rfl) found

/-- So was the origin of a declaration. -/
theorem mem_walk_of_declarationOrigin? {p : StaticPath} (mem : n ∈ tree.walk)
    (h : n.declarationOrigin? p = .ok (some o)) (found : o.place? = some place) :
    place ∈ tree.walk := by
  cases yields_of_declarationOrigin? h with
  | nothing => cases found
  | expression child field origin =>
      exact mem_walk_of_traces (traces_of_origin origin) (mem_walk_of_child? mem child field) found
  | imported =>
      cases found
      exact mem

end

/-! ## Rules -/

/-- A node whose fields are as the grammar has them, as far as they are asked for. -/
structure KeepsRules (n : Node) : Prop where
  /-- A literal that can be a key can be written. -/
  key : n.kind = .literal → Question.HasAnswer ⟨.key, n⟩
  /-- The fixed parts of a template have texts. -/
  elements : n.kind = .templateLiteral →
    ∀ e ∈ n.childrenOf "quasis", Question.HasAnswer ⟨.element, e⟩
  /-- The arguments of a call can be counted. -/
  arguments : n.kind = .callExpression → Question.HasAnswer ⟨.arguments, n⟩
  /-- The node can be shown with its place. -/
  label : Question.HasAnswer ⟨.label, n⟩

/-- A tree in which every identifier has a name and every node keeps to the rules. -/
structure IsRegular (tree : Node) : Prop where
  names : tree.NamesAreTexts
  rules : ∀ n ∈ tree.walk, n.KeepsRules

namespace IsRegular

variable {tree n d : Node} {p : StaticPath} {keys : List Value} {q : Question} {role : Text}

/-- What is asked for a key has an answer. -/
theorem answers_key (h : tree.IsRegular) (mem : n ∈ tree.walk) (field : ¬isPosition role)
    (asks : n.KeyAsks role q) : q.HasAnswer := by
  cases asks with
  | literal child literal => exact (h.rules _ (mem_walk_of_child? mem child field)).key literal

/-- What is asked for a path has an answer. -/
theorem answers_path (h : tree.IsRegular) (mem : n ∈ tree.walk) (asks : n.PathAsks q) :
    q.HasAnswer := by
  induction asks with
  | object _ child _ ih => exact ih (mem_walk_of_child? mem child (by decide))
  | key _ _ _ asks => exact h.answers_key mem (by decide) asks

/-- What is asked for a required module has an answer. -/
theorem answers_module (h : tree.IsRegular) (mem : n ∈ tree.walk) (asks : n.ModuleAsks q) :
    q.HasAnswer := by
  cases asks with
  | call call => exact (h.rules n mem).arguments (kind_of_isRequireCall call)
  | object _ child call =>
      have inside := mem_walk_of_child? mem child (by decide)
      exact (h.rules _ inside).arguments (kind_of_isRequireCall call)
  | key _ _ _ asks => exact h.answers_key mem (by decide) asks

/-- All that is asked for the origin of a value in the tree has an answer. -/
theorem answers_origin (h : tree.IsRegular) (mem : n ∈ tree.walk) (asks : n.OriginAsks keys q) :
    q.HasAnswer := by
  induction asks with
  | right _ child _ ih => exact ih (mem_walk_of_child? mem child (by decide))
  | literal asks =>
      cases asks with
      | element template _ sole => exact (h.rules _ mem).elements template _ (by rw [sole]; simp)
  | module asks => exact h.answers_module mem asks
  | property _ asks =>
      cases asks with
      | key property asks =>
          exact h.answers_key (mem_walk_of_mem_properties mem property) (by decide) asks
  | value _ found _ ih => exact ih (mem_walk_of_propertyValue? mem found)

/-- What is asked for an assignment has an answer. -/
theorem answers_assignment (h : tree.IsRegular) (mem : n ∈ tree.walk)
    (asks : n.AssignmentAsks q) : q.HasAnswer := by
  cases asks with
  | left _ child asks => exact h.answers_path (mem_walk_of_child? mem child (by decide)) asks

/-- What a search for declarations asks has an answer. -/
theorem answers_search (h : tree.IsRegular) (asks : tree.SearchAsks p q) : q.HasAnswer := by
  cases asks with
  | assignment found asks => exact h.answers_assignment (mem_walk_of_mem_search found) asks

/-- What is asked of a declaration has an answer. -/
theorem answers_declaration (h : tree.IsRegular) (mem : d ∈ tree.walk)
    (asks : d.DeclarationAsks p q) : q.HasAnswer := by
  cases asks with
  | named _ init _ _ asks | pattern _ init _ _ _ asks =>
      exact h.answers_origin (mem_walk_of_child? mem init (by decide)) asks
  | key _ _ target _ found asks =>
      have pattern := mem_walk_of_child? mem target (by decide)
      have property := mem_walk_of_mem_properties pattern (List.mem_of_find?_eq_some found)
      exact h.answers_key property (by decide) asks
  | assignment _ _ right asks =>
      exact h.answers_origin (mem_walk_of_child? mem right (by decide)) asks

/-- Declarations are always found. -/
theorem isOk_declarationsOf (h : tree.IsRegular) (root : p.root.isSimple) :
    (tree.declarationsOf p).isOk :=
  (isOk_declarationsOf_iff h.names root).mpr fun _ => h.answers_search

/-- The origin of a path is found in each of its declarations. -/
theorem isOk_declarationOrigin? {ds : List Node} (h : tree.IsRegular)
    (declared : tree.declarationsOf p = .ok ds) (mem : d ∈ ds) : (d.declarationOrigin? p).isOk := by
  have declares := (((Fault.mem_filter_iff declared).2 d).mp mem).2
  refine (isOk_declarationOrigin?_iff declares).mpr fun q asks => ?_
  exact h.answers_declaration (mem_walk_of_mem_declarationsOf declared mem) asks

end IsRegular

end Node

/-- The modules that the session gives are trees that keep to the rules. -/
structure Session.IsRegular (s : Session) : Prop where
  nodes : ∀ path, s.answer path ≠ .error .notANode
  trees : ∀ path unit, s.answer path = .ok (some unit) → unit.tree.IsRegular

namespace SourceUnit

variable {unit : SourceUnit} {files : FileSystem} {key : Node} {e : ExportPath} {q : Question}

/-- What is asked for an export has an answer. -/
theorem answers_exports (h : unit.tree.IsRegular) (asks : unit.ExportAsks files e q) :
    q.HasAnswer := by
  cases asks with
  | search asks =>
      cases asks with
      | assignment found asks => exact h.answers_assignment (Node.mem_walk_of_mem_search found) asks
  | value exported mem asks =>
      exact h.answers_origin (Node.mem_walk_of_mem_exports exported mem) asks
  | site exports asks =>
      obtain ⟨values, exported, v, mem, origin⟩ := exports
      obtain ⟨place, found, rfl⟩ := Origin.place?_of_siteAsks asks
      refine (h.rules place (Node.mem_walk_of_originOf (fun n value => ?_) origin found)).label.1
      obtain ⟨first, keys⟩ := v
      cases value
      exact Node.mem_walk_of_mem_exports exported mem

/-- What is asked for a key of the unit has an answer. -/
theorem answers_key (h : unit.tree.IsRegular) (mem : key ∈ unit.tree.walk)
    (asks : unit.KeyAsks files key q) : q.HasAnswer := by
  have inside {p : StaticPath} {d : Node} (declares : unit.Declares key p d) :
      d ∈ unit.tree.walk := by
    obtain ⟨-, ds, declared, mem⟩ := declares
    exact Node.mem_walk_of_mem_declarationsOf declared mem
  cases asks with
  | path asks => exact h.answers_path mem asks
  | search _ asks => exact h.answers_search asks
  | declaration declares asks => exact h.answers_declaration (inside declares) asks
  | unsupported declares => exact (h.rules _ (inside declares)).label
  | site origin asks =>
      obtain ⟨p, d, declares, origin⟩ := origin
      obtain ⟨place, found, rfl⟩ := Origin.place?_of_siteAsks asks
      exact (h.rules place
        (Node.mem_walk_of_declarationOrigin? (inside declares) origin found)).label.1

end SourceUnit

/-- In regular trees only the lookup of modules can go wrong. -/
theorem Resolver.provides_iff_lookups {r : Resolver} {unit : SourceUnit} {key : Node} {s : Session}
    (h : unit.tree.IsRegular) (modules : r.followModules → s.IsRegular)
    (mem : key ∈ unit.tree.walk) :
    r.Provides unit key s ↔ ∀ specifier importer, r.LooksUp unit key s specifier importer →
      (Module.lookup s.files.view specifier importer).isOk := by
  refine ⟨fun provides => provides.lookups, fun lookups => ⟨fun q asks => ?_, ?_, lookups⟩⟩
  · cases asks with
    | file asks => exact SourceUnit.answers_key h mem asks
    | module enters answered asks =>
        exact SourceUnit.answers_exports ((modules enters.1).trees _ _ answered) asks
  · intro target e enters
    exact (modules enters.1).nodes target

end EnvReads
