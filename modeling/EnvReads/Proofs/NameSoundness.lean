import EnvReads.Proofs.Outcome
import EnvReads.Proofs.Reading
import EnvReads.Proofs.Sample
import EnvReads.Proofs.SearchOrder

/-!
# Names from declarations

A computed key gets a name when the chain of its declarations gives one. This file says which
declarations stand behind such a name. The chain is put together from the outermost declarations of
the path (`Node.Outermost`), and all of these support the name. A declaration nested in another one
is never looked at: the name is sound for the whole tree exactly if the nested declarations happen
to support it too.
-/

namespace EnvReads

/-! ## What a chain says -/

namespace Site

/-- The site does not speak against the name. -/
def Supports (name : Text) (site : Site) : Prop :=
  match site.kind with
  | .moduleReference => True
  | .literal v => v.literalText = name
  | .unresolved => False

instance (name : Text) (site : Site) : Decidable (site.Supports name) :=
  match site with
  | ⟨.moduleReference, _, _⟩ => .isTrue trivial
  | ⟨.literal v, _, _⟩ => inferInstanceAs (Decidable (v.literalText = name))
  | ⟨.unresolved, _, _⟩ => .isFalse id

/-- The site is a literal with the name. -/
def Gives (name : Text) (site : Site) : Prop :=
  ∃ v, site.kind = .literal v ∧ v.literalText = name

end Site

theorem Value.eq_of_writable {v w : Value} (h : v.writable = .ok w) : w = v := by
  rw [writable] at h
  split at h
  · exact (Except.ok.inj h).symm
  · cases h

/-- The names of a chain are those of its literals, and then no site of it is unresolved. -/
theorem mem_literalNames?_iff {chain : List Site} {names : List Text}
    (h : literalNames? chain = .ok (some names)) :
    (∀ site ∈ chain, site.kind ≠ .unresolved) ∧
      ∀ name, name ∈ names ↔ ∃ site ∈ chain, site.Gives name := by
  induction chain generalizing names with
  | nil =>
      cases h
      simp
  | cons site rest ih =>
      rw [literalNames?] at h
      split at h
      · cases h
      · next kind =>
          obtain ⟨resolved, given⟩ := ih h
          refine ⟨List.forall_mem_cons.mpr ⟨by simp [kind], resolved⟩, fun name => ?_⟩
          simp [given, Site.Gives, kind]
      · next v kind =>
          split at h
          · obtain ⟨w, written, h⟩ := Except.bind_eq_ok_iff.mp h
            obtain ⟨more, later, h⟩ := Except.bind_eq_ok_iff.mp h
            obtain ⟨names', rfl, rfl⟩ := Option.map_eq_some_iff.mp (Except.pure_eq_ok_iff.mp h)
            obtain ⟨resolved, given⟩ := ih later
            refine ⟨List.forall_mem_cons.mpr ⟨by simp [kind], resolved⟩, fun name => ?_⟩
            simp [given, Site.Gives, kind, Value.eq_of_writable written, eq_comm]
          · cases h

/-- A chain that gives one name supports it throughout, and one of its literals has it. -/
theorem supports_of_resolvedName? {chain : List Site} {name : Text}
    (h : resolvedName? chain = .ok (some name)) :
    (∀ site ∈ chain, site.Supports name) ∧ ∃ site ∈ chain, site.Gives name := by
  obtain ⟨names, found, h⟩ := Except.bind_eq_ok_iff.mp h
  split at h
  · next only single =>
      cases h
      obtain ⟨names, rfl, once⟩ := Option.map_eq_some_iff.mp single
      obtain ⟨resolved, given⟩ := mem_literalNames?_iff found
      have same : ∀ other, other ∈ names ↔ other = name := by
        intro other
        rw [← List.mem_eraseDups, once, List.mem_singleton]
      refine ⟨fun site mem => ?_, (given name).mp ((same name).mpr rfl)⟩
      rw [Site.Supports]
      cases kind : site.kind with
      | moduleReference => trivial
      | literal v => exact (same _).mp ((given _).mpr ⟨site, mem, v, kind, rfl⟩)
      | unresolved => exact resolved site mem kind
  · cases h

/-! ## What declarations contribute -/

namespace Node

/-- A node that gives the path, or an initial part of it, a value. -/
def isDeclaration (p : StaticPath) (n : Node) : Bool :=
  n.holds (declares p)

theorem passes_of_isFound {p : StaticPath} {n : Node} (h : n.isFound (declares p)) : n.passes := by
  rw [isFound, declares] at h
  rw [passes]
  cases kind : n.kind <;> simp [kind, Kind.isLeaf] at h ⊢

/-- The declarations that are found are the outermost ones. -/
theorem mem_declarationsOf_iff {tree d : Node} {p : StaticPath} {found : List Node}
    (h : tree.declarationsOf p = .ok found) : d ∈ found ↔ tree.Outermost (isDeclaration p) d :=
  mem_searchTrying_iff (fun _ => passes_of_isFound) h

end Node

namespace Resolver

variable (r : Resolver) (unit : SourceUnit) (p : StaticPath)

/-- What a declaration contributes in a session. -/
def contribution (s : Session) (d : Node) : Except Fault Evidence :=
  (r.declarationEvidence Run.loadModule unit p d).result s

/-- A declaration that contributes nothing against the name. -/
def Agrees (s : Session) (name : Text) (d : Node) : Prop :=
  ∃ e, r.contribution unit p s d = .ok e ∧ ∀ site ∈ e.sites, site.Supports name

/-- A declaration that contributes a literal with the name. -/
def Declares (s : Session) (name : Text) (d : Node) : Prop :=
  ∃ e, r.contribution unit p s d = .ok e ∧ ∃ site ∈ e.sites, site.Gives name

instance (s : Session) (name : Text) (d : Node) : Decidable (r.Agrees unit p s name d) :=
  match h : r.contribution unit p s d with
  | .error _ => .isFalse fun agrees => by simp [Agrees, h] at agrees
  | .ok e => decidable_of_iff (∀ site ∈ e.sites, site.Supports name) (by simp [Agrees, h])

/-- The session in which the read `i` of a file is resolved: the one that the reads before it
leave. -/
def sessionAt (candidates : List Candidate) (s : Session) (i : Nat) : Session :=
  Run.after ((candidates.take i).mapM (r.record unit)) s

variable {r unit p}

/-- Declarations only read, so each contributes what it contributes by itself. -/
theorem mem_sites_of_evidence {s : Session} {ds : List Node} {e : Evidence}
    (h : (r.evidence Run.loadModule unit p ds).result s = .ok e) :
    (∀ d ∈ ds, ∃ e', r.contribution unit p s d = .ok e') ∧
      ∀ site, site ∈ e.sites ↔
        ∃ d ∈ ds, ∃ e', r.contribution unit p s d = .ok e' ∧ site ∈ e'.sites := by
  induction ds generalizing e with
  | nil =>
      cases h
      simp
  | cons d rest ih =>
      obtain ⟨here, first, h⟩ := Run.result_bind_eq_ok_iff.mp h
      obtain ⟨more, later, h⟩ := Run.result_bind_eq_ok_iff.mp h
      have alike := (r.reads_declarationEvidence unit p d).alike s
      rw [(r.reads_evidence unit p rest).result_eq alike] at later
      obtain ⟨contributed, member⟩ := ih later
      have first : r.contribution unit p s d = .ok here := first
      cases h
      refine ⟨List.forall_mem_cons.mpr ⟨⟨here, first⟩, contributed⟩, fun site => ?_⟩
      simp [first, member]

/-- Resolution of a static path gives the evidence of the declarations that are found for it. -/
theorem evidence_of_resolve {s : Session} {key : Node} {e : Evidence}
    (path : key.staticPath? = .ok (some p)) (h : (r.resolve unit key).result s = .ok e) :
    ∃ ds, unit.tree.declarationsOf p = .ok ds ∧
      (r.evidence Run.loadModule unit p ds).result s = .ok e := by
  obtain ⟨found, read, h⟩ := Run.result_raise_bind_eq_ok_iff.mp h
  cases path.symm.trans read
  obtain ⟨ds, declared, h⟩ := Run.result_raise_bind_eq_ok_iff.mp h
  refine ⟨ds, declared, ?_⟩
  cases ds with
  | cons d rest => exact h
  | nil =>
      -- The tree may be dumped now, but there is no evidence.
      obtain ⟨-, -, h⟩ := Run.result_bind_eq_ok_iff.mp h
      cases dir : r.debugDir with
      | none =>
          rw [dir] at h
          exact h
      | some dir' =>
          rw [dir] at h
          obtain ⟨-, -, h⟩ := Run.result_bind_eq_ok_iff.mp h
          exact h

/-- A name that a static path gets is the one name of the evidence. -/
theorem name_of_record {s : Session} {c : Candidate} {rec : Record} {v : Value}
    (computed : c.needsResolution) (path : c.key.staticPath? = .ok (some p))
    (h : (r.record unit c).result s = .ok rec) (named : rec.identity = .name v) :
    ∃ ds e name, unit.tree.declarationsOf p = .ok ds ∧
      (r.evidence Run.loadModule unit p ds).result s = .ok e ∧
      resolvedName? e.sites = .ok (some name) ∧ v = .text name := by
  rw [record, if_pos computed] at h
  obtain ⟨e, resolved, h⟩ := Run.result_bind_eq_ok_iff.mp h
  obtain ⟨ds, declared, evidence⟩ := evidence_of_resolve path resolved
  rw [Run.result_raise] at h
  obtain ⟨identity, identified, h⟩ := Except.bind_eq_ok_iff.mp h
  cases h
  have literal : ¬c.hasLiteralKey := by simpa [Candidate.needsResolution] using computed
  rw [Candidate.identify, if_neg literal] at identified
  obtain ⟨name, found, identified⟩ := Except.bind_eq_ok_iff.mp identified
  cases name with
  | some name =>
      cases identified
      cases named
      exact ⟨ds, e, name, declared, evidence, found, rfl⟩
  | none =>
      obtain ⟨shown, -, identified⟩ := Except.bind_eq_ok_iff.mp identified
      have computed : ∀ w, Identity.ofParts .null shown ≠ .ok (.name w) := by
        intro w same
        simp only [Identity.ofParts] at same
        split at same <;> simp_all [Value.present?]
      exact absurd (named ▸ identified) (computed v)

end Resolver

namespace Sample

/-- `var cfg = { KEY: "A", set: function () { cfg.KEY = "B"; } }; process.env[cfg.KEY]`. -/
def shadowing : SourceUnit where
  path := "/main.js"
  source := []
  tree := program [
    declaration (name "cfg") (object [
      property "KEY" (text "A"),
      property "set" (function [
        statement (assignment (member (name "cfg") "KEY") (text "B"))])]),
    statement (entry processEnv (member (name "cfg") "KEY"))]

def noFiles : Session :=
  ⟨{ entries := [], cwd := "/" }, Cache.empty⟩

/-- Where `cfg.KEY = "B"` stands. -/
def setter : Address :=
  [0, 0, 1, 1, 1, 0, 0, 0]

theorem identity_eq_of_name? {identity : Identity} {name : Text}
    (h : identity.name?.bind Value.text? = some name) : identity = .name (.text name) := by
  cases identity with
  | computed v => cases h
  | name v =>
      cases v with
      | text t =>
          cases h
          rfl
      | _ => cases h

/-- The read of `shadowing` is named by the outer declaration, and the inner one speaks against
it. -/
theorem shadowing_read : ∃ candidates records s' c rec p,
    Candidate.find shadowing.tree = .ok candidates ∧
      Resolver.analyze {} shadowing noFiles = .ok records s' ∧ candidates[0]? = some c ∧
      records[0]? = some rec ∧ c.needsResolution ∧ c.key.staticPath? = .ok (some p) ∧
      rec.identity = .name (.text "A") ∧
      ∃ d, shadowing.tree.nodeAt? Node.passes setter = some d ∧ d.isDeclaration p ∧
        ¬Resolver.Agrees {} shadowing p (Resolver.sessionAt {} shadowing candidates noFiles 0) "A"
          d := by
  have computed : (Candidate.find shadowing.tree).toOption.any fun candidates =>
      ((Resolver.analyze {} shadowing).run' noFiles).any fun records =>
        candidates[0]?.any fun c => records[0]?.any fun rec =>
          c.key.staticPath?.toOption.any fun found => found.any fun p =>
            (shadowing.tree.nodeAt? Node.passes setter).any fun d =>
              c.needsResolution && rec.identity.name?.bind Value.text? = some (Text.ofString "A") &&
                d.isDeclaration p && ¬Resolver.Agrees {} shadowing p
                  (Resolver.sessionAt {} shadowing candidates noFiles 0) "A" d := by
    decide +kernel
  simp only [Option.any_eq_true, Except.toOption_eq_some_iff, run'_eq_some_iff, Bool.and_eq_true,
    decide_eq_true_eq] at computed
  obtain ⟨candidates, found, records, ⟨s', analyzed⟩, c, read, rec, recorded, _, path, p, rfl, d,
    at', ⟨⟨needs, named⟩, declares⟩, disagrees⟩ := computed
  exact ⟨candidates, records, s', c, rec, p, found, analyzed, read, recorded, needs, path,
    identity_eq_of_name? named, d, at', declares, disagrees⟩

end Sample

namespace Resolver

variable {r : Resolver} {unit : SourceUnit} {p : StaticPath}

/-- The name of a computed key is supported by all outermost declarations of its path, and one of
them gives it. A nested declaration takes no part, so the name stands for all declarations in the
tree exactly if the nested ones support it as well. -/
theorem name_sound_iff_nested_agree {s s' : Session} {candidates : List Candidate}
    {records : List Record} (found : Candidate.find unit.tree = .ok candidates)
    (analyzed : r.analyze unit s = .ok records s') {i : Nat} {c : Candidate} {rec : Record}
    (read : candidates[i]? = some c) (recorded : records[i]? = some rec)
    (computed : c.needsResolution) (path : c.key.staticPath? = .ok (some p)) {v : Value}
    (named : rec.identity = .name v) :
    ∃ name, v = .text name ∧
      (∀ d, unit.tree.Outermost (Node.isDeclaration p) d →
        r.Agrees unit p (r.sessionAt unit candidates s i) name d) ∧
      (∃ d, unit.tree.Outermost (Node.isDeclaration p) d ∧
        r.Declares unit p (r.sessionAt unit candidates s i) name d) ∧
      ((∀ d, unit.tree.Within (Node.isDeclaration p) d →
          r.Agrees unit p (r.sessionAt unit candidates s i) name d) ↔
        ∀ d, unit.tree.Nested (Node.isDeclaration p) d →
          r.Agrees unit p (r.sessionAt unit candidates s i) name d) := by
  obtain ⟨candidates', found', each⟩ :=
    Run.result_raise_bind_eq_ok_iff.mp (Run.eq_ok_iff.mp analyzed).1
  cases found.symm.trans found'
  have step := Run.result_of_mapM each read recorded
  obtain ⟨ds, e, name, declared, evidence, single, rfl⟩ := name_of_record computed path step named
  obtain ⟨contributed, member⟩ := mem_sites_of_evidence evidence
  obtain ⟨supported, site, mem, gives⟩ := supports_of_resolvedName? single
  have outermost : ∀ d, unit.tree.Outermost (Node.isDeclaration p) d →
      r.Agrees unit p (r.sessionAt unit candidates s i) name d := by
    intro d outer
    have mem := (Node.mem_declarationsOf_iff declared).mpr outer
    obtain ⟨e', contribution⟩ := contributed d mem
    refine ⟨e', contribution, fun site inside => supported site ?_⟩
    exact (member site).mpr ⟨d, mem, e', contribution, inside⟩
  refine ⟨name, rfl, outermost, ?_, ?_⟩
  · obtain ⟨d, inside, e', contribution, mem⟩ := (member site).mp mem
    exact ⟨d, (Node.mem_declarationsOf_iff declared).mp inside, e', contribution, site, mem, gives⟩
  · constructor
    · intro all d nested
      exact all d (Node.within_iff.mpr (.inr nested))
    · intro nested d within'
      rcases Node.within_iff.mp within' with outer | inner
      · exact outermost d outer
      · exact nested d inner

/-- A name is declared again in a function, with another value, so the name that is given is not
the only one. -/
theorem name_sound_iff_nested_agree_shadowing : ∃ candidates p,
    (∀ d, Sample.shadowing.tree.Outermost (Node.isDeclaration p) d →
      Agrees {} Sample.shadowing p (sessionAt {} Sample.shadowing candidates Sample.noFiles 0) "A"
        d) ∧
      ¬∀ d, Sample.shadowing.tree.Nested (Node.isDeclaration p) d →
        Agrees {} Sample.shadowing p (sessionAt {} Sample.shadowing candidates Sample.noFiles 0)
          "A" d := by
  obtain ⟨candidates, records, s', c, rec, p, found, analyzed, read, recorded, needs, path, named,
    d, at', declares, disagrees⟩ := Sample.shadowing_read
  obtain ⟨name, same, outermost, -, sound⟩ :=
    name_sound_iff_nested_agree found analyzed read recorded needs path named
  cases same
  refine ⟨candidates, p, outermost, fun nested => disagrees ?_⟩
  exact sound.mpr nested d ⟨Sample.setter, Node.Reached.nodeAt?_eq_some_iff.mp at', declares⟩

/-- Not every declaration in a tree supports a name that its path gets. -/
theorem not_all_declarations_agree :
    ¬∀ (r : Resolver) (unit : SourceUnit) (s s' : Session) (candidates : List Candidate)
      (records : List Record) (i : Nat) (c : Candidate) (rec : Record) (p : StaticPath)
      (name : Text), Candidate.find unit.tree = .ok candidates →
      r.analyze unit s = .ok records s' → candidates[i]? = some c → records[i]? = some rec →
      c.needsResolution → c.key.staticPath? = .ok (some p) → rec.identity = .name (.text name) →
      ∀ d, unit.tree.Within (Node.isDeclaration p) d →
        r.Agrees unit p (r.sessionAt unit candidates s i) name d := by
  intro sound
  obtain ⟨candidates, records, s', c, rec, p, found, analyzed, read, recorded, needs, path, named,
    d, at', declares, disagrees⟩ := Sample.shadowing_read
  refine disagrees (sound _ _ _ _ _ _ _ _ _ _ _ found analyzed read recorded needs path named d ?_)
  exact ⟨Sample.setter, Node.Reached.nodeAt?_eq_some_iff.mp at', declares⟩

end Resolver

end EnvReads
