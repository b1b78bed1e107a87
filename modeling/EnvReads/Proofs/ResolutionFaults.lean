import EnvReads.Proofs.GatheredReads
import EnvReads.Proofs.ResolutionQuestions

/-!
# When resolution fails

Resolution of a key is meant to give evidence for whatever it finds. It fails where a question that
it puts to a tree has no answer, such as the text of an integer that is too long to write, and where
a module that a declaration of the key refers to, or that an export of a followed module refers to,
cannot be looked up. That is so if the file system refuses a path on the way, or if the package that
the lookup comes to has a manifest that is JSON but no record, or is nested too deeply. What it
cannot make out otherwise shows in the evidence (`Resolver.Admits`).
-/

namespace EnvReads

/-! ## What is not made out -/

/-- An origin that is unresolved has one site, which says so. -/
theorem Origin.sites_of_isUnresolved {enter : Enter} {path : Path} {o : Origin} {place : Node}
    {s : Session} {sites : List Site} (h : o.IsUnresolved s.files path place)
    (given : (o.sites enter path).result s = .ok sites) :
    ∃ span, place.span? = .ok span ∧ sites = [Site.unresolved path span] := by
  cases h with
  | unknown | unnamed =>
      obtain ⟨span, found, given⟩ := Run.result_raise_bind_eq_ok_iff.mp given
      cases given
      exact ⟨span, found, rfl⟩
  | missing absent =>
      obtain ⟨target, located, given⟩ := Run.result_bind_eq_ok_iff.mp given
      rw [result_locate] at located
      cases located.symm.trans absent
      rw [after_locate] at given
      obtain ⟨span, found, given⟩ := Run.result_raise_bind_eq_ok_iff.mp given
      cases given
      exact ⟨span, found, rfl⟩

namespace Resolver

variable {r : Resolver} {unit : SourceUnit} {p : StaticPath} {s : Session}

/-- What could not be made out shows in the evidence: nothing for a key that has no path or no
declaration, a warning for a declaration of another form, and an unresolved site for an origin that
is not made out. -/
structure Admits (unit : SourceUnit) (key : Node) (s : Session) (e : Evidence) : Prop where
  unnamed : key.staticPath? = .ok none → e = ⟨[], []⟩
  undeclared : ∀ p, key.staticPath? = .ok (some p) → unit.tree.declarationsOf p = .ok [] →
    e = ⟨[], []⟩
  unsupported : ∀ p ds, key.staticPath? = .ok (some p) → unit.tree.declarationsOf p = .ok ds →
    ∀ d ∈ ds, d.declarationOrigin? p = .ok none →
      ∃ warning ∈ e.warnings, Resolver.unsupported d p = .ok warning
  unresolved : ∀ o place, unit.HasOrigin key o → o.IsUnresolved s.files unit.path place →
    ∃ span, place.span? = .ok span ∧ Site.unresolved unit.path span ∈ e.sites

/-- Each declaration contributes to the evidence. -/
theorem exists_contribution {ds : List Node} {d : Node} {e : Evidence}
    (h : (r.evidence Run.loadModule unit p ds).result s = .ok e) (mem : d ∈ ds) :
    ∃ e', r.contribution unit p s d = .ok e' ∧ e'.sites ⊆ e.sites ∧ e'.warnings ⊆ e.warnings := by
  induction ds generalizing e with
  | nil => cases mem
  | cons first rest ih =>
      obtain ⟨here, given, h⟩ := Run.result_bind_eq_ok_iff.mp h
      obtain ⟨more, later, h⟩ := Run.result_bind_eq_ok_iff.mp h
      cases h
      cases mem with
      | head =>
          exact ⟨here, given, List.subset_append_left _ _, List.subset_append_left _ _⟩
      | tail _ mem =>
          have alike := (r.reads_declarationEvidence unit p first).alike s
          rw [(r.reads_evidence unit p rest).result_eq alike] at later
          obtain ⟨e', given, sites, warnings⟩ := ih later mem
          exact ⟨e', given, List.subset_append_of_subset_right _ sites,
            List.subset_append_of_subset_right _ warnings⟩

/-- What a resolution gives is admitted. -/
theorem admits_of_resolve {key : Node} {e : Evidence}
    (h : (r.resolve unit key).result s = .ok e) : Admits unit key s e where
  unnamed pathless := by
    rw [resolve, resolveThrough, pathless] at h
    cases h
    rfl
  undeclared p path declared := by
    obtain ⟨ds, declared', evidence⟩ := evidence_of_resolve path h
    cases declared.symm.trans declared'
    cases evidence
    rfl
  unsupported p ds path declared d mem other := by
    obtain ⟨ds', declared', evidence⟩ := evidence_of_resolve path h
    cases declared.symm.trans declared'
    obtain ⟨e', given, -, warnings⟩ := exists_contribution evidence mem
    obtain ⟨found, other', given⟩ := Run.result_raise_bind_eq_ok_iff.mp given
    cases other.symm.trans other'
    obtain ⟨warning, told, given⟩ := Run.result_raise_bind_eq_ok_iff.mp given
    cases given
    exact ⟨warning, warnings (.head _), told⟩
  unresolved o place origin unresolved := by
    obtain ⟨p, d, ⟨path, ds, declared, mem⟩, origin⟩ := origin
    obtain ⟨ds', declared', evidence⟩ := evidence_of_resolve path h
    cases declared.symm.trans declared'
    obtain ⟨e', given, sites, -⟩ := exists_contribution evidence mem
    obtain ⟨found, origin', given⟩ := Run.result_raise_bind_eq_ok_iff.mp given
    cases origin.symm.trans origin'
    obtain ⟨found, shown, given⟩ := Run.result_bind_eq_ok_iff.mp given
    cases given
    obtain ⟨span, spanned, rfl⟩ := Origin.sites_of_isUnresolved unresolved shown
    exact ⟨span, spanned, sites (.head _)⟩

end Resolver

/-! ## Reads -/

namespace Candidate

/-- The keys of what is read at a node stand in the tree. -/
theorem key_mem_walk_of_ofNode {tree n : Node} {c : Candidate} {cs : List Candidate}
    (inside : n ∈ tree.walk) (h : ofNode n = .ok cs) (mem : c ∈ cs) : c.key ∈ tree.walk := by
  rw [ofNode] at h
  split at h
  · obtain ⟨key, child, given⟩ := (Except.mem_of_mapM h).mp mem
    obtain ⟨span, -, rfl⟩ := Except.map_eq_ok_iff.mp given
    exact Node.mem_walk_of_child? inside (Option.mem_toList.mp child) (by decide)
  · split at h
    · next target child =>
        split at h
        · obtain ⟨found, members, rfl⟩ := Except.map_eq_ok_iff.mp h
          obtain ⟨member, given, same⟩ := List.mem_filterMap.mp mem
          cases same
          obtain ⟨p, property, given⟩ := (Except.mem_of_mapM members).mp given
          have pattern := Node.mem_walk_of_child? inside child (by decide)
          have outer := Node.mem_walk_of_mem_childrenOf pattern property (by decide)
          rw [ofMember] at given
          split at given
          · next key child =>
              obtain ⟨c', made, same⟩ := Except.map_eq_ok_iff.mp given
              obtain ⟨span, -, rfl⟩ := Except.map_eq_ok_iff.mp made
              split at same
              · cases same
                exact Node.mem_walk_of_child? outer child (by decide)
              · cases same
          · obtain ⟨span, -, same⟩ := Except.map_eq_ok_iff.mp given
            cases same
        · cases h
          cases mem
    · cases h
      cases mem
  · cases h
    cases mem

/-- So do those of several nodes. -/
theorem key_mem_walk_of_ofNodes {tree : Node} {nodes : List Node} {c : Candidate}
    {cs : List Candidate} (inside : ∀ n ∈ nodes, n ∈ tree.walk) (h : ofNodes nodes = .ok cs)
    (mem : c ∈ cs) : c.key ∈ tree.walk := by
  obtain ⟨found, given, rfl⟩ := Except.map_eq_ok_iff.mp h
  obtain ⟨here, listed, mem⟩ := List.mem_flatten.mp mem
  obtain ⟨n, node, given⟩ := (Except.mem_of_mapM given).mp listed
  exact key_mem_walk_of_ofNode (inside n node) given mem

/-- So do those of all reads. -/
theorem key_mem_walk_of_gather {tree : Node} {c : Candidate} {cs : List Candidate}
    (h : gather tree = .ok cs) (mem : c ∈ cs) : c.key ∈ tree.walk := by
  obtain ⟨direct, accepted, h⟩ := Except.bind_eq_ok_iff.mp h
  have here (mem : c ∈ direct) : c.key ∈ tree.walk :=
    key_mem_walk_of_ofNodes (fun _ h => Node.mem_walk_of_mem_run (.inl h)) accepted mem
  split at h
  · obtain ⟨aliased, suspects, given⟩ := Except.bind_eq_ok_iff.mp h
    cases given
    rcases List.mem_append.mp mem with mem | mem
    · exact here mem
    · exact key_mem_walk_of_ofNodes (fun _ h => Node.mem_walk_of_mem_run (.inr h)) suspects mem
  · have given : Except.ok (direct ++ []) = Except.ok cs := h
    cases given
    exact here (List.append_nil direct ▸ mem)

/-- The key of a read stands in the tree. -/
theorem key_mem_walk_of_find {tree : Node} {c : Candidate} {cs : List Candidate}
    (h : find tree = .ok cs) (mem : c ∈ cs) : c.key ∈ tree.walk := by
  obtain ⟨gathered, collected, sorted⟩ := Except.bind_eq_ok_iff.mp h
  exact key_mem_walk_of_gather collected ((perm_of_sort sorted).mem_iff.mp mem)

end Candidate

namespace Resolver

variable {r : Resolver} {unit : SourceUnit} {s : Session}

/-- Resolution of a read returns exactly if all that it asks has an answer, the modules that it
looks into are nodes, and each module that it looks up for the read lies at no path that the file
system refuses and in no package with a manifest that is JSON but no record, or is nested too
deeply; and if the tree is to be dumped, it can be. What it returns shows what could not be made
out. -/
theorem resolve_returns_iff {cs : List Candidate} {c : Candidate}
    (named : unit.tree.NamesAreTexts) (found : Candidate.find unit.tree = .ok cs) (mem : c ∈ cs) :
    ((∃ e t, r.resolve unit c.key s = .ok e t) ↔ r.CanDump unit c.key s ∧
      (∀ q, r.Asks unit c.key s q → q.HasAnswer) ∧
      (∀ target e, r.Enters unit c.key s target e → s.answer target ≠ .error .notANode) ∧
      ∀ specifier importer, r.LooksUp unit c.key s specifier importer →
        (∀ p, Module.Asks s.files.view specifier importer p → ¬s.files.view.Refuses p) ∧
        ∀ package, Module.Opens s.files.view specifier importer package →
          Module.HasFitManifest s.files.view package) ∧
      ∀ e t, r.resolve unit c.key s = .ok e t → Admits unit c.key s e := by
  have inside := Candidate.key_mem_walk_of_find found mem
  refine ⟨?_, fun e t h => admits_of_resolve (Run.eq_ok_iff.mp h).1⟩
  rw [Run.exists_eq_ok_iff_isOk, isOk_resolve_iff named inside]
  simp only [← Module.isOk_lookup_iff]
  refine and_congr_right fun _ => ⟨fun h => ⟨h.answers, h.nodes, h.lookups⟩, ?_⟩
  rintro ⟨answers, nodes, lookups⟩
  exact ⟨answers, nodes, lookups⟩

end Resolver

namespace Sample

/-- `var keys = require("pkg"); process.env[keys.KEY]`. -/
def client : SourceUnit where
  path := "/main.js"
  source := []
  tree := program [declaration (name "keys") (require "pkg"),
    statement (entry processEnv (member (name "keys") "KEY"))]

/-- The package, with the octets of its manifest. -/
def packaged (manifest : List UInt8) : FileSystem where
  entries := [.folder "node_modules" [.folder "pkg" [
    .file "package.json" { octets := manifest },
    .file "index.js" { octets := [], parsed := .estree keys.toValue }]]]
  cwd := "/"

/-- The read in `client` is resolved if the manifest is `{}`, and not if it is `[]`. -/
theorem client_read : ∃ cs c, Candidate.find client.tree = .ok cs ∧ c ∈ cs ∧
    (∃ e t, Resolver.resolve { followModules := true } client c.key
      (packaged [123, 125]).session = .ok e t) ∧
    ¬∃ e t, Resolver.resolve {} client c.key (packaged [91, 93]).session = .ok e t := by
  have computed : (Candidate.find client.tree).toOption.any fun cs => cs.any fun c =>
      ((Resolver.resolve { followModules := true } client c.key).run'
        (packaged [123, 125]).session).isSome &&
      ((Resolver.resolve {} client c.key).run' (packaged [91, 93]).session).isNone := by
    decide +kernel
  obtain ⟨cs, found, computed⟩ := (Option.any_eq_true _ _).mp computed
  obtain ⟨c, mem, computed⟩ := List.any_eq_true.mp computed
  obtain ⟨returns, fails⟩ := Bool.and_eq_true_iff.mp computed
  refine ⟨cs, c, Except.toOption_eq_some_iff.mp found, mem, exists_ok_of_isSome returns, ?_⟩
  rintro ⟨e, t, resolved⟩
  rw [run'_eq_some_iff.mpr ⟨t, resolved⟩] at fails
  cases fails

end Sample

/-- The template elements of a tree are records of their texts. -/
def Node.HasTemplateTexts (tree : Node) : Prop :=
  ∀ n ∈ tree.walk, n.kind = .templateElement → n.value.fields?.any fun fields =>
    ((Fields.field? fields "raw").bind Value.text?).isSome &&
      ((Fields.field? fields "cooked").bind Value.text?).isSome

instance (tree : Node) : Decidable tree.HasTemplateTexts :=
  inferInstanceAs (Decidable (∀ n ∈ tree.walk, n.kind = .templateElement → _ = true))

namespace Resolver

open Sample

/-- The manifest `{}` does no harm. -/
theorem resolve_returns_iff_packaged : ∃ cs c,
    Candidate.find client.tree = .ok cs ∧ c ∈ cs ∧
    (∃ e t, resolve { followModules := true } client c.key (packaged [123, 125]).session =
      .ok e t) ∧
    ∀ specifier importer,
      LooksUp { followModules := true } client c.key (packaged [123, 125]).session specifier
        importer →
      (∀ p, Module.Asks (packaged [123, 125]).view specifier importer p →
        ¬(packaged [123, 125]).view.Refuses p) ∧
      ∀ package, Module.Opens (packaged [123, 125]).view specifier importer package →
        Module.HasFitManifest (packaged [123, 125]).view package := by
  obtain ⟨cs, c, found, mem, returns, -⟩ := client_read
  have named : client.tree.NamesAreTexts := by decide +kernel
  have condition := (resolve_returns_iff (r := { followModules := true })
    (s := (packaged [123, 125]).session) named found mem).1
  exact ⟨cs, c, found, mem, returns, (condition.mp returns).2.2.2⟩

/-- The manifest `[]` is no record. -/
theorem not_always_resolves :
    ¬∀ (r : Resolver) (unit : SourceUnit) (fs : FileSystem) (cs : List Candidate) (c : Candidate),
      unit.tree.NamesAreTexts → unit.tree.HasTemplateTexts →
      Candidate.find unit.tree = .ok cs → c ∈ cs →
        ∃ e t, r.resolve unit c.key fs.session = .ok e t := by
  intro always
  obtain ⟨cs, c, found, mem, -, fails⟩ := client_read
  have named : client.tree.NamesAreTexts := by decide +kernel
  have texts : client.tree.HasTemplateTexts := by decide +kernel
  exact fails (always {} client _ cs c named texts found mem)

end Resolver

end EnvReads
