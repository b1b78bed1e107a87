import EnvReads.Proofs.LaidOutTrees
import EnvReads.Proofs.RegularTrees
import EnvReads.Proofs.ResolutionFaults
import Mathlib.Data.List.Flatten

/-!
# The forms of declarations

Which nodes declare a path and how a declaring node is read are told by two case distinctions. They
fit: each declaration that is found has one of the forms that can be read (`Node.Supplies`). Only a
variable that is taken out of an object under a key that is not fixed has no origin
(`Node.isUnsupported`), and resolution gives one warning for each such declaration, in the order of
the tree.
-/

namespace EnvReads

namespace Node

variable {p : StaticPath} {d : Node}

/-! ## Forms -/

/-- The declaration takes a variable out of an object: the first property that binds it. -/
structure Destructures (root : Value) (d init property : Node) : Prop where
  declarator : d.kind = .variableDeclarator
  init : d.child? "init" = some init
  binds : ∃ target, d.child? "id" = some target ∧ target.kind = .objectPattern ∧
    target.properties.find? (·.propertyBinding == root) = some property

/-- A declaration that takes the variable of the path out of an object under a key that is not
fixed. -/
def isUnsupported (p : StaticPath) (d : Node) : Bool :=
  d.kind = .variableDeclarator && (d.child? "init").isSome &&
    (d.child? "id").any fun target => target.kind = .objectPattern &&
      (target.properties.find? (·.propertyBinding == p.root)).any fun property =>
        (property.memberKey? "key").toOption.any Option.isNone

/-- How a declaration of a path is read: what its form makes of it. -/
inductive Supplies (p : StaticPath) (d : Node) : Except Fault (Option Origin) → Prop
  | declared : d.kind = .variableDeclarator → d.child? "init" = none →
      Supplies p d (.ok (some .nothing))
  | named {target init : Node} : d.kind = .variableDeclarator → d.child? "init" = some init →
      d.child? "id" = some target → target.isIdentifier → target.name = p.root →
      Supplies p d ((init.origin p.keys).map some)
  | property {init property : Node} {key : Value} : d.Destructures p.root init property →
      property.memberKey? "key" = .ok (some key) →
      Supplies p d ((init.origin (key :: p.keys)).map some)
  | unsupported {init property : Node} : d.Destructures p.root init property →
      property.memberKey? "key" = .ok none → Supplies p d (.ok none)
  | unwritable {init property : Node} {fault : Fault} : d.Destructures p.root init property →
      property.memberKey? "key" = .error fault → Supplies p d (.error fault)
  | assigned {left : StaticPath} : d.isAssignment → d.assignedPath? = .ok (some left) →
      left.isInitialOf p →
      Supplies p d ((originOf (d.child? "right") (p.keys.drop left.keys.length)).map some)
  | imported {specifier : Node} : d.kind = .importDeclaration →
      (d.childrenOf "specifiers").find? (·.localName == p.root) = some specifier →
      Supplies p d (.ok (some (.imported d.importedModule? (specifier.exportedPath p.keys) d)))

/-- A declaration is unsupported if it takes an object apart and has no fixed key for the root of
the path. -/
theorem isUnsupported_iff : d.isUnsupported p ↔ ∃ init property,
    d.Destructures p.root init property ∧ property.memberKey? "key" = .ok none := by
  simp only [isUnsupported, Bool.and_eq_true, decide_eq_true_eq, Option.isSome_iff_exists,
    Option.any_eq_true, Except.toOption_eq_some_iff, Option.isNone_iff_eq_none,
    exists_eq_right]
  constructor
  · rintro ⟨⟨kind, init, value⟩, target, child, pattern, property, first, keyless⟩
    exact ⟨init, property, ⟨kind, value, target, child, pattern, first⟩, keyless⟩
  · rintro ⟨init, property, ⟨kind, value, target, child, pattern, first⟩, keyless⟩
    exact ⟨⟨kind, init, value⟩, target, child, pattern, property, first, keyless⟩

/-- The property that binds the root is the first that does. -/
theorem Destructures.property_inj {root : Value} {init init' property property' : Node}
    (h : d.Destructures root init property) (h' : d.Destructures root init' property') :
    property = property' := by
  obtain ⟨target, child, -, first⟩ := h.binds
  obtain ⟨target', child', -, first'⟩ := h'.binds
  cases child.symm.trans child'
  exact Option.some.inj (first.symm.trans first')

/-- A declaration has no origin exactly if its form is not supported. -/
theorem Supplies.eq_none_iff {outcome : Except Fault (Option Origin)} (h : d.Supplies p outcome) :
    outcome = .ok none ↔ d.isUnsupported p := by
  rw [isUnsupported_iff]
  have given {x : Except Fault Origin} : x.map some ≠ .ok none := by cases x <;> simp [Except.map]
  cases h with
  | declared _ empty =>
      refine iff_of_false (by simp) ?_
      rintro ⟨init, property, form, -⟩
      cases empty.symm.trans form.init
  | named _ _ child identifier _ =>
      refine iff_of_false given ?_
      rintro ⟨init, property, form, -⟩
      obtain ⟨target, child', pattern, -⟩ := form.binds
      cases child.symm.trans child'
      cases (of_decide_eq_true identifier).symm.trans pattern
  | property form keyed =>
      refine iff_of_false given ?_
      rintro ⟨init, property, form', keyless⟩
      cases form.property_inj form'
      cases keyed.symm.trans keyless
  | unsupported form keyless => exact iff_of_true rfl ⟨_, _, form, keyless⟩
  | unwritable form fails =>
      refine iff_of_false (by simp) ?_
      rintro ⟨init, property, form', keyless⟩
      cases form.property_inj form'
      cases fails.symm.trans keyless
  | assigned assignment _ _ =>
      refine iff_of_false given ?_
      rintro ⟨init, property, form, -⟩
      have kind := of_decide_eq_true (Bool.and_eq_true_iff.mp assignment).1
      cases kind.symm.trans form.declarator
  | imported kind _ =>
      refine iff_of_false (by simp) ?_
      rintro ⟨init, property, form, -⟩
      cases kind.symm.trans form.declarator

section

variable {t : Text} (root : p.root = .text t)

include root

theorem exists_first_of_mem {properties : List Node} {v : Value}
    (mem : v ∈ (properties.map propertyBinding).filter Value.isTruthy) (same : v = .text t) :
    ∃ first, properties.find? (·.propertyBinding == p.root) = some first := by
  obtain ⟨property, listed, rfl⟩ := List.mem_map.mp (List.mem_filter.mp mem).1
  refine Option.isSome_iff_exists.mp (List.find?_isSome.mpr ⟨property, listed, ?_⟩)
  rw [root, Value.beq_text_eq, same]
  simp [Value.text?]

/-- A declarator that binds the root supplies an origin in one of the forms. -/
theorem supplies_of_bindsName (kind : d.kind = .variableDeclarator)
    (h : d.bindsName p.root = .ok true) : d.Supplies p (d.declaratorOrigin? p) := by
  have bound : d.boundNames.contains p.root := by
    obtain ⟨names, read, h⟩ := Except.bind_eq_ok_iff.mp h
    rw [declaredNames] at read
    split at read
    · cases read
      rw [root] at h ⊢
      exact Except.pure_eq_ok_iff.mp h
    · cases read
  obtain ⟨v, mem, same⟩ := List.contains_iff_exists_mem_beq.mp bound
  rw [root, Value.text_beq_eq, decide_eq_true_eq] at same
  have same := Value.eq_text_of_text? same
  rw [declaratorOrigin?]
  cases value : d.child? "init" with
  | none => exact .declared kind value
  | some init =>
      rw [boundNames] at mem
      cases child : d.child? "id" with
      | none => simp [child] at mem
      | some target =>
          simp only [child] at mem
          dsimp only
          split at mem
          · next identifier =>
              rw [if_pos identifier]
              cases List.mem_singleton.mp mem
              exact .named kind value child identifier (same.trans root.symm)
          · next other =>
              rw [if_neg other]
              split at mem
              · next pattern =>
                  rw [if_pos pattern]
                  obtain ⟨first, found⟩ := exists_first_of_mem root mem same
                  have form : d.Destructures p.root init first :=
                    ⟨kind, value, target, child, pattern, found⟩
                  rw [patternKey?, found, Option.elim_some]
                  cases keyed : first.memberKey? "key" with
                  | error fault => exact .unwritable form keyed
                  | ok key =>
                      cases key with
                      | none => exact .unsupported form keyed
                      | some key => exact .property form keyed
              · cases mem

/-- What declares a path can be read. -/
theorem supplies_of_declares (h : d.declares p = .ok true) :
    d.Supplies p (d.declarationOrigin? p) := by
  rw [declares] at h
  rw [declarationOrigin?]
  split at h
  · next kind => exact supplies_of_bindsName root kind h
  · next kind =>
      obtain ⟨left, read, initial⟩ := Except.map_eq_ok_iff.mp h
      obtain ⟨left, rfl, initial⟩ := (Option.any_eq_true _ _).mp initial
      have assignment : d.isAssignment := by
        rw [assignedPath?] at read
        split at read
        · assumption
        · cases read
      have left : d.leftPath? = .ok (some left) := by rwa [assignedPath?, if_pos assignment] at read
      rw [left]
      exact .assigned assignment read initial
  · next kind =>
      obtain ⟨specifier, mem, same⟩ := List.any_eq_true.mp (Except.ok.inj h)
      obtain ⟨first, found⟩ : ∃ first,
          (d.childrenOf "specifiers").find? (·.localName == p.root) = some first :=
        Option.isSome_iff_exists.mp (List.find?_isSome.mpr ⟨specifier, mem, same⟩)
      rw [importOrigin?, found]
      exact .imported kind found
  · cases h

end

/-! ## Order -/

theorem collect_sublist_walk (q : Query) (n : Node) : (q.collect n).accepted.Sublist n.walk := by
  induction n using Query.collect.induct q with
  | case1 n leaf =>
      rw [Query.collect, if_pos leaf]
      exact List.nil_sublist _
  | case2 n leaf accept =>
      rw [Query.collect, if_neg leaf, if_pos accept, walk_eq]
      exact .cons_cons n (List.nil_sublist _)
  | case3 n leaf accept suspect =>
      rw [Query.collect, if_neg leaf, if_neg accept, if_pos suspect]
      exact List.nil_sublist _
  | case4 n leaf accept suspect ih =>
      rw [Query.collect_of_enters leaf accept suspect, walk_eq]
      exact .cons n (List.Sublist.flatMap_right _ fun c child => ih ⟨c, child⟩)

/-- Declarations come in the order of the tree. -/
theorem declarationsOf_sublist_walk {tree : Node} {ds : List Node}
    (h : tree.declarationsOf p = .ok ds) : ds.Sublist tree.walk := by
  refine (Fault.filter_sublist h).trans ?_
  rw [search, Query.run_eq_collect]
  exact collect_sublist_walk _ tree

/-- Every declaration that is found supplies an origin in one of the forms. -/
theorem supplies_of_mem_declarationsOf {tree : Node} {ds : List Node} {t : Text}
    (root : p.root = .text t) (h : tree.declarationsOf p = .ok ds) (mem : d ∈ ds) :
    d.Supplies p (d.declarationOrigin? p) :=
  supplies_of_declares root (((Fault.mem_filter_iff h).2 d).mp mem).2

/-- The root of a path in a tree whose names are texts is a text. -/
theorem exists_root_of_staticPath? {tree key : Node} (named : tree.NamesAreTexts)
    (inside : key ∈ tree.walk) (path : key.staticPath? = .ok (some p)) : ∃ t, p.root = .text t := by
  obtain ⟨segments, -, texts, -⟩ := exists_of_staticPath? named inside path none
  cases segments with
  | nil => cases texts
  | cons t rest => exact ⟨t, (List.cons.inj texts).1⟩

end Node

namespace Resolver

variable {r : Resolver} {unit : SourceUnit} {p : StaticPath} {s : Session}

/-- There is a warning for each unsupported declaration, in order. -/
theorem warnings_of_evidence {ds : List Node} {e : Evidence}
    (forms : ∀ d ∈ ds, d.declarationOrigin? p = .ok none ↔ d.isUnsupported p)
    (h : (r.evidence Run.loadModule unit p ds).result s = .ok e) :
    (ds.filter (·.isUnsupported p)).mapM (unsupported · p) = .ok e.warnings := by
  induction ds generalizing s e with
  | nil =>
      cases h
      rfl
  | cons d rest ih =>
      obtain ⟨first, later⟩ := List.forall_mem_cons.mp forms
      obtain ⟨here, given, h⟩ := Run.result_bind_eq_ok_iff.mp h
      obtain ⟨more, evidence, h⟩ := Run.result_bind_eq_ok_iff.mp h
      cases h
      obtain ⟨found, origin, given⟩ := Run.result_raise_bind_eq_ok_iff.mp given
      cases found with
      | none =>
          obtain ⟨warning, told, given⟩ := Run.result_raise_bind_eq_ok_iff.mp given
          cases given
          rw [List.filter_cons_of_pos (first.mp origin), List.mapM_cons, told, ih later evidence]
          rfl
      | some o =>
          obtain ⟨sites, -, given⟩ := Run.result_bind_eq_ok_iff.mp given
          cases given
          have supported : ¬d.isUnsupported p := by
            rw [← first, origin]
            simp
          rw [List.filter_cons_of_neg supported, ih later evidence]
          rfl

/-- Search and reading of declarations fit together. What is found has a form that can be read, and
only a variable taken out of an object under a key that is not fixed has no origin. Resolution warns
of each such declaration once, in the order of the tree, and of nothing else. In a regular tree
declarations are always found and read, so that resolution only fails where a module cannot be
looked up or the tree cannot be dumped. -/
theorem resolve_warns_unsupported {key : Node} (named : unit.tree.NamesAreTexts)
    (inside : key ∈ unit.tree.walk) (path : key.staticPath? = .ok (some p)) :
    (∀ ds, unit.tree.declarationsOf p = .ok ds → ds.Sublist unit.tree.walk ∧
      (∀ d ∈ ds, d.Supplies p (d.declarationOrigin? p) ∧
        (d.declarationOrigin? p = .ok none ↔ d.isUnsupported p)) ∧
      ∀ (r : Resolver) (s : Session) e t, r.resolve unit key s = .ok e t →
        (ds.filter (·.isUnsupported p)).mapM (unsupported · p) = .ok e.warnings) ∧
    (unit.tree.IsRegular → ∃ ds, unit.tree.declarationsOf p = .ok ds ∧
      (∀ d ∈ ds, (d.declarationOrigin? p).isOk) ∧
      ∀ (r : Resolver) (s : Session), (r.followModules → s.IsRegular) →
        ((∃ e t, r.resolve unit key s = .ok e t) ↔ r.CanDump unit key s ∧
          ∀ specifier importer, r.LooksUp unit key s specifier importer →
            (Module.lookup s.files.view specifier importer).isOk)) := by
  obtain ⟨t, root⟩ := Node.exists_root_of_staticPath? named inside path
  constructor
  · intro ds declared
    have forms (d : Node) (mem : d ∈ ds) := Node.supplies_of_mem_declarationsOf root declared mem
    refine ⟨Node.declarationsOf_sublist_walk declared,
      fun d mem => ⟨forms d mem, (forms d mem).eq_none_iff⟩, fun r s e t resolved => ?_⟩
    obtain ⟨ds', declared', evidence⟩ := evidence_of_resolve path (Run.eq_ok_iff.mp resolved).1
    cases declared.symm.trans declared'
    exact warnings_of_evidence (fun d mem => (forms d mem).eq_none_iff) evidence
  · intro regular
    have simple : p.root.isSimple := by
      rw [root]
      rfl
    obtain ⟨ds, declared⟩ := Except.isOk_iff.mp (regular.isOk_declarationsOf simple)
    refine ⟨ds, declared, fun d mem => regular.isOk_declarationOrigin? declared mem,
      fun r s modules => ?_⟩
    rw [Run.exists_eq_ok_iff_isOk, isOk_resolve_iff named inside,
      provides_iff_lookups regular modules inside]

end Resolver

namespace Sample

/-- `[key]: KEY` in a pattern. -/
def keyedBy (key : Text) : Value :=
  node .property [("key", name key), ("computed", .bool true), ("value", name "KEY")]

/-- `const { … } = settings`. -/
def unpacked (properties : List Value) : Value :=
  declaration (node .objectPattern [("properties", .list properties)]) (name "settings")

/-- `const { [a]: KEY } = settings; const { b: KEY, [c]: KEY } = settings; KEY = "D";
const { [e]: KEY, f: KEY } = settings; process.env[KEY]`. -/
def unpacking : SourceUnit where
  path := "/main.js"
  source := []
  tree := program [unpacked [keyedBy "a"], unpacked [property "b" (name "KEY"), keyedBy "c"],
    statement (assignment (name "KEY") (text "D")),
    unpacked [keyedBy "e", property "f" (name "KEY")],
    statement (entry processEnv (name "KEY"))]

end Sample

open Sample in
/-- The first and the last of the four declarations of `KEY` are not supported. -/
theorem Resolver.resolve_warns_unsupported_unpacking : ∃ key p ds e t,
    unpacking.tree.NamesAreTexts ∧ key ∈ unpacking.tree.walk ∧
    key.staticPath? = .ok (some p) ∧ unpacking.tree.declarationsOf p = .ok ds ∧
    ds.map (·.isUnsupported p) = [true, false, false, true] ∧
    resolve {} unpacking key (packaged []).session = .ok e t ∧
    (ds.filter (·.isUnsupported p)).mapM (unsupported · p) = .ok e.warnings := by
  have named : unpacking.tree.NamesAreTexts := by decide +kernel
  have computed : (Candidate.find unpacking.tree).toOption.any fun cs => cs.any fun c =>
      c.key.staticPath?.toOption.join.any fun p =>
        ((unpacking.tree.declarationsOf p).toOption.any fun ds =>
          ds.map (·.isUnsupported p) = [true, false, false, true]) &&
        ((resolve {} unpacking c.key).run' (packaged []).session).isSome := by
    decide +kernel
  simp only [Option.any_eq_true, List.any_eq_true, Bool.and_eq_true, decide_eq_true_eq,
    Except.toOption_eq_some_iff, Option.join_eq_some_iff] at computed
  obtain ⟨cs, found, c, mem, p, path, ⟨ds, declared, forms⟩, returns⟩ := computed
  obtain ⟨e, t, resolved⟩ := exists_ok_of_isSome returns
  have inside := Candidate.key_mem_walk_of_find found mem
  have warned := (resolve_warns_unsupported named inside path).1 ds declared
  exact ⟨c.key, p, ds, e, t, named, inside, path, declared, forms, resolved,
    warned.2.2 {} _ e t resolved⟩

end EnvReads
