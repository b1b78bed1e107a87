import EnvReads.Proofs.NestedExports
import EnvReads.Proofs.NodeQuestions

/-!
# What declarations and exports are asked

The questions that are put to a tree to find the declarations of a path (`Node.SearchAsks`), the
origin of the path in one of them (`Node.DeclarationAsks`) and the values of an export
(`Node.ExportAsks`), and that each of these is found exactly if all of its questions have an answer.
-/

namespace EnvReads

namespace Node

variable {tree n : Node} {p : StaticPath} {q : Question}

/-! ## Declarations -/

/-- What is asked for the path that an assignment sets. -/
inductive AssignmentAsks (n : Node) : Question → Prop
  | left {left : Node} {q : Question} : n.isAssignment → n.child? "left" = some left →
      PathAsks left q → AssignmentAsks n q

/-- The path of the left side is found if what it asks has answers. -/
theorem isOk_leftPath?_iff : n.leftPath?.isOk ↔
    ∀ left, n.child? "left" = some left → ∀ q, PathAsks left q → q.HasAnswer := by
  rw [leftPath?]
  cases n.child? "left" with
  | none => simp
  | some left => simp [isOk_staticPath?_iff]

/-- The path that an assignment sets is found if what it asks has answers. -/
theorem isOk_assignedPath?_iff :
    n.assignedPath?.isOk ↔ ∀ q, AssignmentAsks n q → q.HasAnswer := by
  rw [assignedPath?]
  split
  · next assign =>
      rw [isOk_leftPath?_iff]
      constructor
      · rintro h q ⟨-, child, asks⟩
        exact h _ child q asks
      · intro h left child q asks
        exact h q (.left assign child asks)
  · next other =>
      refine iff_of_true rfl fun q asks => ?_
      cases asks with
      | left assign => exact absurd assign other

/-- The variable that a property binds is a text, or null if there is none. -/
theorem isSimple_propertyBinding (named : tree.NamesAreTexts) (mem : n ∈ tree.walk) :
    n.propertyBinding.isSimple := by
  have simple {m : Node} (mem : m ∈ tree.walk) :
      (if m.isIdentifier then m.name else .null).isSimple := by
    split
    · next identifier =>
        obtain ⟨t, name⟩ := named.exists_name mem identifier
        rw [name]
        rfl
    · rfl
  rw [propertyBinding]
  cases child : n.child? "value" with
  | none => rfl
  | some value =>
      have inside := mem_walk_of_child? mem child (by decide)
      rw [Option.elim_some, boundName]
      split
      · cases left : value.child? "left" with
        | none => rfl
        | some target => exact simple (mem_walk_of_child? inside left (by decide))
      · exact simple inside

theorem mem_walk_of_mem_properties {p : Node} (mem : n ∈ tree.walk) (h : p ∈ n.properties) :
    p ∈ tree.walk :=
  mem_walk_of_mem_childrenOf mem (List.mem_filter.mp h).1 (by decide)

/-- The names that a declaration binds are found where names are texts. -/
theorem isOk_declaredNames (named : tree.NamesAreTexts) (mem : n ∈ tree.walk) :
    n.declaredNames.isOk := by
  have simple : n.boundNames.all Value.isSimple := by
    rw [boundNames]
    cases child : n.child? "id" with
    | none => rfl
    | some target =>
        have inside := mem_walk_of_child? mem child (by decide)
        dsimp only
        split
        · next identifier =>
            obtain ⟨t, name⟩ := named.exists_name inside identifier
            rw [name]
            rfl
        · split
          · refine List.all_eq_true.mpr fun v bound => ?_
            obtain ⟨p, property, rfl⟩ := List.mem_map.mp (List.mem_filter.mp bound).1
            exact isSimple_propertyBinding named (mem_walk_of_mem_properties inside property)
          · rfl
  rw [declaredNames, if_pos simple]
  rfl

theorem kind_of_assignmentAsks (h : AssignmentAsks n q) : n.kind = .assignmentExpression := by
  cases h with
  | left assign => exact kind_of_isAssignment assign

/-- Whether a node declares a path is known if what is asked of an assignment has answers. -/
theorem isOk_declares_iff (named : tree.NamesAreTexts) (mem : n ∈ tree.walk)
    (root : p.root.isSimple) :
    (n.declares p).isOk ↔ ∀ q, AssignmentAsks n q → q.HasAnswer := by
  have others (other : n.kind ≠ .assignmentExpression) (q : Question) (asks : AssignmentAsks n q) :
      q.HasAnswer := absurd (kind_of_assignmentAsks asks) other
  rw [declares]
  split
  · next kind =>
      refine iff_of_true ?_ (others (by simp [kind]))
      rw [bindsName]
      refine Except.isOk_bind_of_forall (isOk_declaredNames named mem) fun names _ => ?_
      rw [if_pos root]
      rfl
  · rw [Except.isOk_map, isOk_assignedPath?_iff]
  · next kind => exact iff_of_true rfl (others (by simp [kind]))
  · next _ other _ => exact iff_of_true rfl (others fun kind => other kind)

/-- What is asked to find the declarations of a path: the search stops where a node declares it or
where a question has no answer. -/
inductive SearchAsks (tree : Node) (p : StaticPath) : Question → Prop
  | assignment {n : Node} {q : Question} : n ∈ tree.search (isFound (declares p)) →
      AssignmentAsks n q → SearchAsks tree p q

/-- What a search finds stands in the tree. -/
theorem mem_walk_of_mem_run {s : Query}
    (h : n ∈ (s.run tree).accepted ∨ n ∈ (s.run tree).suspects) : n ∈ tree.walk := by
  rw [Query.run_eq_tour] at h
  have visited : ∃ a, ⟨a, n⟩ ∈ s.tour [⟨[], tree⟩] := by
    rcases h with h | h
    · obtain ⟨l, listed, rfl⟩ := List.mem_map.mp h
      exact ⟨l.address, (List.mem_filter.mp listed).1⟩
    · obtain ⟨l, listed, rfl⟩ := List.mem_map.mp h
      exact ⟨l.address, (List.mem_filter.mp listed).1⟩
  obtain ⟨a, visited⟩ := visited
  exact mem_walk_of_reached (Query.mem_tour_root_iff.mp visited) (mem_walkFrom_of_mem (.head []))

theorem mem_walk_of_mem_search {test : Node → Bool} (h : n ∈ tree.search test) : n ∈ tree.walk :=
  mem_walk_of_mem_run (.inl h)

/-- The declarations of a path are found if what is asked of the tree has answers. -/
theorem isOk_declarationsOf_iff (named : tree.NamesAreTexts) (root : p.root.isSimple) :
    (tree.declarationsOf p).isOk ↔ ∀ q, SearchAsks tree p q → q.HasAnswer := by
  rw [declarationsOf, searchTrying, Fault.isOk_filter_iff]
  constructor
  · rintro h q ⟨found, asks⟩
    exact (isOk_declares_iff named (mem_walk_of_mem_search found) root).mp (h _ found) q asks
  · intro h n found
    exact (isOk_declares_iff named (mem_walk_of_mem_search found) root).mpr fun q asks =>
      h q (.assignment found asks)

/-- What is asked for the origin of a path in one of its declarations. -/
inductive DeclarationAsks (d : Node) (p : StaticPath) : Question → Prop
  | named {init target : Node} {q : Question} : d.kind = .variableDeclarator →
      d.child? "init" = some init → d.child? "id" = some target → target.isIdentifier →
      OriginAsks init p.keys q → DeclarationAsks d p q
  | key {init target property : Node} {q : Question} : d.kind = .variableDeclarator →
      d.child? "init" = some init → d.child? "id" = some target →
      target.kind = .objectPattern →
      target.properties.find? (·.propertyBinding == p.root) = some property →
      KeyAsks property "key" q → DeclarationAsks d p q
  | pattern {init target : Node} {key : Value} {q : Question} : d.kind = .variableDeclarator →
      d.child? "init" = some init → d.child? "id" = some target →
      target.kind = .objectPattern → target.patternKey? p.root = .ok (some key) →
      OriginAsks init (key :: p.keys) q → DeclarationAsks d p q
  | assignment {right : Node} {left : StaticPath} {q : Question} :
      d.kind = .assignmentExpression → d.leftPath? = .ok (some left) →
      d.child? "right" = some right → OriginAsks right (p.keys.drop left.keys.length) q →
      DeclarationAsks d p q

/-- The key of a name in a pattern is found if what is asked of its property has answers. -/
theorem isOk_patternKey?_iff {bound : Value} : (n.patternKey? bound).isOk ↔
    ∀ property, n.properties.find? (·.propertyBinding == bound) = some property →
      ∀ q, KeyAsks property "key" q → q.HasAnswer := by
  rw [patternKey?]
  cases n.properties.find? (·.propertyBinding == bound) with
  | none => simp
  | some property => simp [isOk_memberKey?_iff]

/-- A variable declaration is asked something if it has an initial value for a name or a pattern. -/
theorem exists_target_of_declarationAsks {d : Node} {q : Question}
    (declarator : d.kind = .variableDeclarator) (h : DeclarationAsks d p q) :
    ∃ init target, d.child? "init" = some init ∧ d.child? "id" = some target ∧
      (target.isIdentifier ∨ target.kind = .objectPattern) := by
  cases h with
  | named _ init id identifier => exact ⟨_, _, init, id, .inl identifier⟩
  | key _ init id object | pattern _ init id object => exact ⟨_, _, init, id, .inr object⟩
  | assignment kind => cases declarator.symm.trans kind

section

variable {d init target : Node} (declarator : d.kind = .variableDeclarator)
  (value : d.child? "init" = some init) (child : d.child? "id" = some target)

include declarator value child

/-- For a name, only the initial value is asked. -/
theorem declarationAsks_iff_of_isIdentifier (identifier : target.isIdentifier) {q : Question} :
    DeclarationAsks d p q ↔ OriginAsks init p.keys q := by
  have plain : target.kind = .identifier := of_decide_eq_true identifier
  constructor
  · intro asks
    cases asks with
    | named _ init' _ _ asks =>
        cases value.symm.trans init'
        exact asks
    | key _ _ id object | pattern _ _ id object =>
        cases child.symm.trans id
        cases plain.symm.trans object
    | assignment kind => cases declarator.symm.trans kind
  · exact .named declarator value child identifier

/-- For a pattern, the property with the name is asked for its key, and then the initial value. -/
theorem forall_declarationAsks_iff_of_objectPattern (object : target.kind = .objectPattern) :
    (∀ q, DeclarationAsks d p q → q.HasAnswer) ↔
      (∀ property, target.properties.find? (·.propertyBinding == p.root) = some property →
        ∀ q, KeyAsks property "key" q → q.HasAnswer) ∧
      ∀ key, target.patternKey? p.root = .ok (some key) →
        ∀ q, OriginAsks init (key :: p.keys) q → q.HasAnswer := by
  constructor
  · intro h
    exact ⟨fun property found q asks => h q (.key declarator value child object found asks),
      fun key keyed q asks => h q (.pattern declarator value child object keyed asks)⟩
  · rintro ⟨keys, values⟩ q asks
    cases asks with
    | named _ _ id identifier =>
        cases child.symm.trans id
        cases object.symm.trans (of_decide_eq_true identifier)
    | key _ _ id _ found asks =>
        cases child.symm.trans id
        exact keys _ found q asks
    | pattern _ init' id _ keyed asks =>
        cases value.symm.trans init'
        cases child.symm.trans id
        exact values _ keyed q asks
    | assignment kind => cases declarator.symm.trans kind

end

/-- What is asked of a variable declaration is asked of its initial value and of its pattern. -/
theorem isOk_declaratorOrigin?_iff {d : Node} (declarator : d.kind = .variableDeclarator) :
    (d.declaratorOrigin? p).isOk ↔ ∀ q, DeclarationAsks d p q → q.HasAnswer := by
  rw [declaratorOrigin?]
  cases value : d.child? "init" with
  | none =>
      refine iff_of_true rfl fun q asks => ?_
      obtain ⟨_, _, value', -⟩ := exists_target_of_declarationAsks declarator asks
      cases value.symm.trans value'
  | some init =>
      cases child : d.child? "id" with
      | none =>
          refine iff_of_true rfl fun q asks => ?_
          obtain ⟨_, _, -, child', -⟩ := exists_target_of_declarationAsks declarator asks
          cases child.symm.trans child'
      | some target =>
          dsimp only
          split
          · next identifier =>
              rw [Except.isOk_map, isOk_origin_iff]
              simp only [declarationAsks_iff_of_isIdentifier declarator value child identifier]
          · next plain =>
              split
              · next object =>
                  rw [Except.isOk_bind_iff,
                    forall_declarationAsks_iff_of_objectPattern declarator value child object,
                    ← isOk_patternKey?_iff, Except.isOk_iff]
                  constructor
                  · rintro ⟨key, keyed, h⟩
                    refine ⟨⟨key, keyed⟩, fun key' keyed' => ?_⟩
                    cases keyed.symm.trans keyed'
                    rw [Except.isOk_map] at h
                    exact isOk_origin_iff.mp h
                  · rintro ⟨⟨key, keyed⟩, h⟩
                    refine ⟨key, keyed, ?_⟩
                    cases key with
                    | none => rfl
                    | some key =>
                        rw [Except.isOk_map]
                        exact isOk_origin_iff.mpr (h key keyed)
              · next other =>
                  refine iff_of_true rfl fun q asks => ?_
                  obtain ⟨_, _, -, child', identifier | object⟩ :=
                    exists_target_of_declarationAsks declarator asks
                  · cases child.symm.trans child'
                    exact absurd identifier plain
                  · cases child.symm.trans child'
                    exact absurd object other

/-- What an assignment sets, if it sets the path or a part of it. -/
theorem exists_leftPath?_of_declares {d : Node} (kind : d.kind = .assignmentExpression)
    (h : d.declares p = .ok true) : ∃ left, d.leftPath? = .ok (some left) := by
  rw [declares, kind] at h
  obtain ⟨left, assigned, initial⟩ := Except.map_eq_ok_iff.mp h
  cases left with
  | none => cases initial
  | some left =>
      rw [assignedPath?] at assigned
      split at assigned
      · exact ⟨left, assigned⟩
      · cases assigned

/-- The origin of a path in a declaration of it is found exactly if all that is asked on the way has
an answer. -/
theorem isOk_declarationOrigin?_iff {d : Node} (h : d.declares p = .ok true) :
    (d.declarationOrigin? p).isOk ↔ ∀ q, DeclarationAsks d p q → q.HasAnswer := by
  have others (declares : d.kind ≠ .variableDeclarator) (assign : d.kind ≠ .assignmentExpression)
      (q : Question) (asks : DeclarationAsks d p q) : q.HasAnswer := by
    cases asks with
    | named kind | key kind | pattern kind => exact absurd kind declares
    | assignment kind => exact absurd kind assign
  rw [declarationOrigin?]
  split
  · next kind => exact isOk_declaratorOrigin?_iff kind
  · next kind =>
      obtain ⟨left, assigned⟩ := exists_leftPath?_of_declares kind h
      rw [assigned]
      change ((originOf _ _).map some).isOk ↔ _
      rw [Except.isOk_map, isOk_originOf_iff]
      constructor
      · intro h q asks
        cases asks with
        | named other | key other | pattern other => cases kind.symm.trans other
        | assignment _ assigned' child asks =>
            cases assigned.symm.trans assigned'
            exact h _ child q asks
      · intro h right child q asks
        exact h q (.assignment kind assigned child asks)
  · next kind => exact iff_of_true rfl (others (by simp [kind]) (by simp [kind]))
  · next declares assign _ => exact iff_of_true rfl (others declares assign)

/-! ## Exports -/

/-- What is asked for the values of an export. -/
inductive ExportAsks (tree : Node) : Question → Prop
  | assignment {n : Node} {q : Question} : n ∈ tree.search isExport → AssignmentAsks n q →
      ExportAsks tree q

/-- The values of an export are found if what is asked of the tree has answers. -/
theorem isOk_exports_iff {e : ExportPath} :
    (tree.exports e).isOk ↔ ∀ q, ExportAsks tree q → q.HasAnswer := by
  rw [exports, Except.isOk_map, Except.isOk_mapM_iff]
  simp only [isOk_exportedAt_iff, isOk_assignedPath?_iff]
  constructor
  · rintro h q ⟨found, asks⟩
    exact h _ found q asks
  · intro h n found q asks
    exact h q (.assignment found asks)

end Node

end EnvReads
