import EnvReads.Proofs.ExportSpellings
import EnvReads.Proofs.UnconfirmedAliases

/-!
# A constant as key

A literal can be the key of a read by itself, as in `process.env["A"]`, or through a constant, as in
`const K = "A"; process.env[K]`. The two are classified by different tests, the one by the kind of
the key and the other by the value at the end of its declaration. Texts and numbers give the same
name either way. Null and the truth values name a variable only where they stand as the key
themselves; a constant that holds one of them is not taken for a name.
-/

namespace EnvReads

namespace Node

/-! ## Programs that read one variable -/

/-- The expression has the fixed value `v`: it is a literal, or a template of one piece. -/
structure IsConstant (n : Node) (v : Value) : Prop where
  value : n.literalValue? = .ok (some v)
  placed : n.span?.isOk
  /-- A template has nothing but its pieces below it. -/
  pieces : n.kind = .templateLiteral → ∀ c ∈ n.children, c.kind = .templateElement
  /-- The range of a template can be cut out of a source. -/
  readable : n.kind = .templateLiteral → ∀ source, (n.textIn? source).isOk

/-- The node is `process.env[key]`. -/
structure IsEntry (n key : Node) : Prop where
  kind : n.kind = .memberExpression
  computed : n.computed
  object : ∃ object, n.child? "object" = some object ∧ object.isProcessEnv ∧
    (∀ c ∈ object.children, c.isIdentifier) ∧ ∀ c ∈ n.children, c = object ∨ c = key
  property : n.child? "property" = some key
  placed : n.span?.isOk

/-- The statement is `process.env[key]`, read at `n`. -/
structure IsReadOf (statement n key : Node) : Prop where
  kind : statement.kind = .expressionStatement
  children : statement.children = [n]
  entry : n.IsEntry key

/-- The statement is `const name = init`. -/
structure IsDeclarationOf (statement : Node) (name : Text) (declarator init : Node) : Prop where
  kind : statement.kind = .variableDeclaration
  children : statement.children = [declarator]
  declares : declarator.kind = .variableDeclarator
  target : ∃ target, declarator.child? "id" = some target ∧ target.isNamed name ∧
    ∀ c ∈ declarator.children, c = target ∨ c = init
  init : declarator.child? "init" = some init

/-- The program is `process.env[key]`. -/
def ReadsDirectly (tree key : Node) : Prop :=
  ∃ statement n, tree.ConsistsOf [statement] ∧ statement.IsReadOf n key

/-- The program is `const name = init; process.env[name]`. -/
def ReadsThrough (tree : Node) (name : Text) (init : Node) : Prop :=
  ∃ declaration declarator statement n key, tree.ConsistsOf [declaration, statement] ∧
    declaration.IsDeclarationOf name declarator init ∧ statement.IsReadOf n key ∧ key.isNamed name

variable {n key statement declarator init : Node} {name : Text} {v : Value}

/-- An entry of `process.env` is a direct read. -/
theorem IsEntry.isDirectRead (h : n.IsEntry key) : n.isDirectRead := by
  obtain ⟨object, child, env, -⟩ := h.object
  simp [Node.isDirectRead, isEnvMember, h.kind, child, env]

/-! ## The declaration that is found -/

/-- The search for declarations goes through programs, statements and member expressions. -/
theorem search_declares_of_other {p : StaticPath}
    (h : n.kind ∈ [.program, .variableDeclaration, .expressionStatement, .memberExpression]) :
    n.search (isFound (declares p)) = n.children.flatMap (·.search (isFound (declares p))) := by
  simp only [List.mem_cons, List.not_mem_nil, or_false] at h
  rcases h with kind | kind | kind | kind <;>
    exact search_of_enters (by simp [passes, kind, Kind.isLeaf]) (by simp [isFound, declares, kind])

theorem search_declares_of_identifier {p : StaticPath} (h : n.isIdentifier) :
    n.search (isFound (declares p)) = [] :=
  search_of_leaf (by rw [show n.kind = .identifier from of_decide_eq_true h]; rfl)

/-- There is no declaration in a read with an identifier as key. -/
theorem IsReadOf.search_declares (h : statement.IsReadOf n key) (identifier : key.isIdentifier)
    (p : StaticPath) : statement.search (isFound (declares p)) = [] := by
  obtain ⟨object, -, env, leaves, only⟩ := h.entry.object
  have member : object.kind = .memberExpression := by
    simp only [isProcessEnv, Bool.and_eq_true, decide_eq_true_eq] at env
    exact env.1.1.1
  rw [search_declares_of_other (by simp [h.kind]), h.children, List.flatMap_singleton,
    search_declares_of_other (by simp [h.entry.kind])]
  refine List.flatMap_eq_nil_iff.mpr fun c mem => ?_
  rcases only c mem with rfl | rfl
  · rw [search_declares_of_other (by simp [member])]
    exact List.flatMap_eq_nil_iff.mpr fun c mem => search_declares_of_identifier (leaves c mem)
  · exact search_declares_of_identifier identifier

/-- A declaration of a name declares it. -/
theorem IsDeclarationOf.declares_eq (h : statement.IsDeclarationOf name declarator init) :
    declarator.declares ⟨.text name, []⟩ = .ok true := by
  obtain ⟨target, id, named, -⟩ := h.target
  obtain ⟨identifier, name'⟩ := name_of_isNamed named
  have bound : declarator.boundNames = [.text name] := by
    simp [boundNames, id, identifier, name']
  rw [Node.declares, h.declares]
  simp [bindsName, declaredNames, bound, Value.isSimple, Value.beq_text_eq, Value.text?, bind,
    Except.bind, pure, Except.pure]

/-- The declaration is the only one of the name in the tree. -/
theorem declarationsOf_of_readsThrough {tree declaration : Node}
    (only : tree.ConsistsOf [declaration, statement])
    (declared : declaration.IsDeclarationOf name declarator init) (read : statement.IsReadOf n key)
    (named : key.isNamed name) :
    tree.declarationsOf ⟨.text name, []⟩ = .ok [declarator] := by
  have declares' := declared.declares_eq
  have here : declarator.search (isFound (declares ⟨.text name, []⟩)) = [declarator] :=
    search_of_accepts (by simp [passes, declared.declares, Kind.isLeaf])
      (by rw [isFound, declares'])
  have whole : tree.search (isFound (declares ⟨.text name, []⟩)) = [declarator] := by
    rw [search_declares_of_other (by simp [only.kind]), only.children, List.flatMap_cons,
      search_declares_of_other (by simp [declared.kind]), declared.children,
      List.flatMap_singleton, here, List.flatMap_singleton,
      read.search_declares (name_of_isNamed named).1, List.append_nil]
  rw [declarationsOf, searchTrying, whole, Fault.filter, declares']
  rfl

/-- The name has the constant as its origin. -/
theorem IsDeclarationOf.declarationOrigin? (h : statement.IsDeclarationOf name declarator init)
    (constant : init.IsConstant v) :
    declarator.declarationOrigin? ⟨.text name, []⟩ = .ok (some (.literal v init)) := by
  obtain ⟨target, id, named, -⟩ := h.target
  simp only [Node.declarationOrigin?, h.declares, declaratorOrigin?, h.init, id,
    (name_of_isNamed named).1, if_true, origin_of_literalValue? constant.value]
  rfl

end Node

/-! ## The one read that is found -/

namespace Candidate

variable {n key statement declarator init : Node} {name : Text} {v : Value}

/-- The search for reads goes through programs and statements. -/
theorem collect_of_statement (h : n.kind ∈ [.program, .variableDeclaration, .expressionStatement]) :
    query.collect n = ⟨n.children.flatMap fun c => (query.collect c).accepted,
      n.children.flatMap fun c => (query.collect c).suspects⟩ := by
  simp only [List.mem_cons, List.not_mem_nil, or_false] at h
  rcases h with kind | kind | kind <;>
    exact Query.collect_of_enters (by simp [query, kind, Kind.isLeaf])
      (by simp [query, Node.isDirectRead, Node.isEnvMember, Node.isEnvDestructuring, kind])
      (by simp [query, Node.isAliasUse, Node.isAliasBinding, Node.isAliasMember, kind])

/-- The statement has one read. -/
theorem collect_of_isReadOf (h : statement.IsReadOf n key) :
    query.collect statement = ⟨[n], []⟩ := by
  have solid : ¬query.isLeaf n.kind := by simp [query, h.entry.kind, Kind.isLeaf]
  rw [collect_of_statement (by simp [h.kind]), h.children, List.flatMap_singleton,
    List.flatMap_singleton, collect_of_direct solid h.entry.isDirectRead]

/-- Nothing is read in a constant. -/
theorem collect_of_isConstant (h : n.IsConstant v) : query.collect n = ⟨[], []⟩ := by
  rcases Node.kind_of_literalValue? h.value with kind | kind
  · exact collect_of_leaf (by rw [kind]; rfl)
  · refine collect_of_children ?_ ?_ fun c mem => collect_of_leaf ?_
    · simp [Node.isDirectRead, Node.isEnvMember, Node.isEnvDestructuring, kind]
    · simp [Node.isAliasUse, Node.isAliasBinding, Node.isAliasMember, kind]
    · rw [h.pieces kind c mem]
      rfl

/-- The declaration has no read. -/
theorem collect_of_isDeclarationOf (h : statement.IsDeclarationOf name declarator init)
    (constant : init.IsConstant v) : query.collect statement = ⟨[], []⟩ := by
  obtain ⟨target, id, named, only⟩ := h.target
  have identifier := (Node.name_of_isNamed named).1
  have other : init.isNamed "env" = false := by
    rcases Node.kind_of_literalValue? constant.value with kind | kind <;>
      simp [Node.isNamed, Node.isIdentifier, kind]
  have inside : query.collect declarator = ⟨[], []⟩ := by
    refine collect_of_children ?_ ?_ fun c mem => ?_
    · have target' : target.kind ≠ .objectPattern := by
        rw [show target.kind = .identifier from of_decide_eq_true identifier]
        decide
      simp [Node.isDirectRead, Node.isEnvMember, Node.isEnvDestructuring, h.declares, id, target']
    · simp [Node.isAliasUse, Node.isAliasBinding, Node.isAliasMember, h.declares, h.init, other]
    · rcases only c mem with rfl | rfl
      · exact collect_of_identifier identifier
      · exact collect_of_isConstant constant
  rw [collect_of_statement (by simp [h.kind]), h.children, List.flatMap_singleton,
    List.flatMap_singleton, inside]

theorem sort_singleton (c : Candidate) : sort [c] = .ok [c] := by
  rw [sort, Value.sortOn?_singleton]

/-- The program in which the search for reads comes to one entry has one read. -/
theorem find_of_isEntry {tree : Node} (found : query.collect tree = ⟨[n], []⟩) (h : n.IsEntry key) :
    ∃ span, find tree = .ok [⟨n, key, true, span⟩] := by
  obtain ⟨span, placed⟩ := Except.isOk_iff.mp h.placed
  have here : ofNodes [n] = .ok [⟨n, key, true, span⟩] := by
    simp [ofNodes, ofNode, h.kind, h.property, ofKey, placed, h.computed, Except.map, bind,
      Except.bind, pure, Except.pure]
  refine ⟨span, ?_⟩
  simp only [find, gather, Query.run_eq_collect, found, here]
  -- There are no suspects, so it makes no difference whether `env` is the environment.
  cases confirmsAlias tree with
  | false => exact sort_singleton _
  | true => exact sort_singleton _

/-- The reads of a tree that has the key in place. -/
theorem find_of_readsDirectly {tree : Node} (h : tree.ReadsDirectly key) :
    ∃ n span, find tree = .ok [⟨n, key, true, span⟩] := by
  obtain ⟨statement, n, only, read⟩ := h
  refine ⟨n, find_of_isEntry ?_ read.entry⟩
  rw [collect_of_statement (by simp [only.kind]), only.children, List.flatMap_singleton,
    List.flatMap_singleton, collect_of_isReadOf read]

/-- The reads of a tree that has a name in its place. -/
theorem find_of_readsThrough {tree declaration : Node}
    (only : tree.ConsistsOf [declaration, statement])
    (declared : declaration.IsDeclarationOf name declarator init) (constant : init.IsConstant v)
    (read : statement.IsReadOf n key) : ∃ span, find tree = .ok [⟨n, key, true, span⟩] := by
  refine find_of_isEntry ?_ read.entry
  rw [collect_of_statement (by simp [only.kind]), only.children]
  simp only [List.flatMap_cons, List.flatMap_nil, collect_of_isDeclarationOf declared constant,
    collect_of_isReadOf read, List.nil_append, List.append_nil]

end Candidate

/-! ## The record of the read -/

/-- What a literal at the end of a declaration makes of a read of the variable `name`. -/
def Identity.ofConstant (name : Text) (v : Value) : Except Fault Identity :=
  if v.isNaming then v.writable.map fun w => .name (.text w.literalText)
  else .ok (.computed (.text name))

namespace Resolver

variable {r : Resolver} {s : Session} {unit : SourceUnit} {key init : Node} {name : Text}
  {v : Value}

/-- In a file with one read the analysis gives the record of it. -/
theorem result_analyze_of_find {c : Candidate} (found : Candidate.find unit.tree = .ok [c]) :
    (r.analyze unit).result s = ((r.record unit c).result s).map ([·]) := by
  rw [analyze, found, Run.result_bind, Run.result_raise, Run.after_raise]
  change ([c].mapM (r.record unit)).result s = _
  rw [List.mapM_cons, List.mapM_nil, Run.result_bind]
  cases (r.record unit c).result s <;> rfl

/-- The record of a read whose key has to be resolved. -/
theorem result_record_of_resolve {c : Candidate} {found : Evidence}
    (other : c.hasLiteralKey = false)
    (resolved : (r.resolve unit c.key).result s = .ok found) :
    (r.record unit c).result s = (c.identify unit.source found.sites).map fun identity =>
      ⟨unit.path, c.span, identity, found.sites, found.warnings⟩ := by
  have needs : c.needsResolution := by rw [Candidate.needsResolution, other]; rfl
  rw [record, if_pos needs, Run.result_bind, resolved]
  change Run.result (Fault.raise _) _ = _
  rw [Run.result_raise, Record.ofCandidate]
  cases c.identify unit.source found.sites <;> rfl

/-- A literal as key names the variable, unless it cannot be written. -/
theorem result_analyze_of_literalKey (h : unit.tree.ReadsDirectly key)
    (literal : key.kind = .literal) : ∃ span, ∀ (r : Resolver) (s : Session),
      (r.analyze unit).result s = key.value.writable.map fun w =>
        [⟨unit.path, span, .name (.text w.literalText), [], []⟩] := by
  obtain ⟨n, span, found⟩ := Candidate.find_of_readsDirectly h
  have other : ¬key.isIdentifier := by simp [Node.isIdentifier, literal]
  refine ⟨span, fun r s => ?_⟩
  rw [result_analyze_of_find found]
  simp only [record, Candidate.needsResolution, Candidate.hasLiteralKey, literal, decide_true,
    Bool.true_or, Bool.not_true, Bool.false_eq_true, if_false, pure_bind, Run.result_raise,
    Record.ofCandidate, Candidate.identify, if_true, Candidate.literalName, other]
  cases key.value.writable <;> rfl

theorem exists_accessPath_of_template (constant : key.IsConstant v)
    (template : key.kind = .templateLiteral) (source : Text) :
    ∃ t, key.accessPath (some source) = .ok (.text t) := by
  obtain ⟨cut, found⟩ := Except.isOk_iff.mp (constant.readable template source)
  obtain ⟨t, written⟩ : ∃ t, key.sourceText (some source) = .ok t := by
    rw [Except.exists_eq_ok_iff, Node.sourceText, Option.elim_some, found]
    refine Except.isOk_bind_of_forall rfl fun cut _ => ?_
    split <;> rfl
  refine ⟨t, ?_⟩
  rw [Node.accessPath, template]
  simp only [written]
  rfl

/-- A template as key gives a record too. -/
theorem exists_result_analyze_of_templateKey (h : unit.tree.ReadsDirectly key)
    (constant : key.IsConstant v) (template : key.kind = .templateLiteral) :
    ∃ d, ∀ (r : Resolver) (s : Session), (r.analyze unit).result s = .ok [d] := by
  obtain ⟨n, span, found⟩ := Candidate.find_of_readsDirectly h
  obtain ⟨t, shown⟩ := exists_accessPath_of_template constant template unit.source
  have other : ¬key.isIdentifier := by simp [Node.isIdentifier, template]
  have path : key.staticPath? = .ok none := by
    rw [Node.staticPath?, if_neg other, if_neg (by simp [template])]
  have computed : (⟨n, key, true, span⟩ : Candidate).hasLiteralKey = false := by
    simp [Candidate.hasLiteralKey, template]
  refine ⟨⟨unit.path, span, .computed (.text t), [], []⟩, fun r s => ?_⟩
  have resolved : (r.resolve unit key).result s = .ok ⟨[], []⟩ := by
    rw [resolve, resolveThrough, path]
    rfl
  rw [result_analyze_of_find found, result_record_of_resolve computed resolved, Candidate.identify,
    computed, if_neg (by decide), shown]
  rfl

/-- A single literal gives its text as the name, if it can name a variable. -/
theorem resolvedName?_literal (path : Path) (span : Option Span) (v : Value) :
    resolvedName? [Site.literal path span v] =
      if v.isNaming then v.writable.map fun w => some w.literalText else .ok none := by
  cases naming : v.isNaming with
  | false => simp [resolvedName?, literalNames?, Site.literal, naming, bind, Except.bind, pure,
      Except.pure]
  | true =>
      cases written : v.writable <;> simp [resolvedName?, literalNames?, Site.literal, naming,
        written, List.eraseDups_cons, Except.map, bind, Except.bind, pure, Except.pure]

/-- A read through a constant is about the name that the constant holds, or else about the constant.
-/
theorem result_analyze_of_readsThrough (h : unit.tree.ReadsThrough name init)
    (constant : init.IsConstant v) : ∃ span place, ∀ (r : Resolver) (s : Session),
      (r.analyze unit).result s = (Identity.ofConstant name v).map fun identity =>
        [⟨unit.path, span, identity, [Site.literal unit.path place v], []⟩] := by
  obtain ⟨declaration, declarator, statement, n, key, only, declared, read, named⟩ := h
  obtain ⟨span, found⟩ := Candidate.find_of_readsThrough only declared constant read
  obtain ⟨place, placed⟩ := Except.isOk_iff.mp constant.placed
  obtain ⟨identifier, name'⟩ := Node.name_of_isNamed named
  have kind : key.kind = .identifier := of_decide_eq_true identifier
  have computed : (⟨n, key, true, span⟩ : Candidate).hasLiteralKey = false := by
    simp [Candidate.hasLiteralKey, kind]
  have path : key.staticPath? = .ok (some ⟨.text name, []⟩) := by
    rw [Node.staticPath?_of_isIdentifier identifier, name']
  have shown : key.accessPath (some unit.source) = .ok (.text name) := by
    rw [Node.accessPath, kind, name']
  refine ⟨span, place, fun r s => ?_⟩
  have resolved : (r.resolve unit key).result s = .ok ⟨[Site.literal unit.path place v], []⟩ := by
    rw [resolve]
    refine Run.result_raise_bind_eq_ok_iff.mpr ⟨_, path, ?_⟩
    refine Run.result_raise_bind_eq_ok_iff.mpr
      ⟨_, Node.declarationsOf_of_readsThrough only declared read named, ?_⟩
    refine Run.result_bind_eq_ok_iff.mpr ⟨⟨[Site.literal unit.path place v], []⟩, ?_, rfl⟩
    refine Run.result_raise_bind_eq_ok_iff.mpr ⟨_, declared.declarationOrigin? constant, ?_⟩
    refine Run.result_bind_eq_ok_iff.mpr ⟨[Site.literal unit.path place v], ?_, rfl⟩
    exact Run.result_raise_bind_eq_ok_iff.mpr ⟨place, placed, rfl⟩
  rw [result_analyze_of_find found, result_record_of_resolve computed resolved, Candidate.identify,
    computed, if_neg (by decide), resolvedName?_literal, shown, Identity.ofConstant]
  cases v.isNaming with
  | false => rfl
  | true => cases v.writable <;> rfl

end Resolver

theorem Node.value_of_literalValue? {n : Node} {v : Value} (h : n.literalValue? = .ok (some v))
    (literal : n.kind = .literal) : n.value = v := by
  rw [literalValue?, if_pos literal] at h
  split at h <;> cases h
  rfl

/-- A constant as key and the same constant through a variable: as long as the value can be written,
either program has one read. The literal is a name where it is the key itself. Through the variable
a text or a number is the name, so that both are about the same, and any other value leaves the read
computed. A number that is too long to write ends both analyses with the same fault. -/
theorem Resolver.identities_of_constantKey {direct through : SourceUnit} {key init : Node}
    {name : Text} {v : Value} (directly : direct.tree.ReadsDirectly key)
    (literal : key.IsConstant v)
    (indirectly : through.tree.ReadsThrough name init) (literal' : init.IsConstant v)
    (r : Resolver) (s : Session) :
    (v.isWritable → ∃ d c, (r.analyze direct).result s = .ok [d] ∧
      (r.analyze through).result s = .ok [c] ∧
      (key.kind = .literal → d.identity = .name (.text v.literalText)) ∧
      c.identity = if v.isNaming then .name (.text v.literalText) else .computed (.text name)) ∧
    (¬v.isWritable →
      (key.kind = .literal → (r.analyze direct).result s = .error .longInteger) ∧
      (v.isNaming → (r.analyze through).result s = .error .longInteger)) := by
  obtain ⟨span, place, found⟩ := result_analyze_of_readsThrough indirectly literal'
  rw [found r s, Identity.ofConstant]
  constructor
  · intro writable
    have written : v.writable = .ok v := if_pos writable
    have one : ∃ d, (r.analyze direct).result s = .ok [d] ∧
        (key.kind = .literal → d.identity = .name (.text v.literalText)) := by
      rcases Node.kind_of_literalValue? literal.value with kind | kind
      · obtain ⟨span, found⟩ := result_analyze_of_literalKey directly kind
        rw [found r s, Node.value_of_literalValue? literal.value kind, written]
        exact ⟨_, rfl, fun _ => rfl⟩
      · obtain ⟨d, found⟩ := exists_result_analyze_of_templateKey directly literal kind
        exact ⟨d, found r s, by simp [kind]⟩
    obtain ⟨d, single, identity⟩ := one
    rw [written]
    cases v.isNaming with
    | false => exact ⟨d, _, single, rfl, identity, rfl⟩
    | true => exact ⟨d, _, single, rfl, identity, rfl⟩
  · intro long
    have fault : v.writable = .error .longInteger := if_neg long
    constructor
    · intro kind
      obtain ⟨span, found⟩ := result_analyze_of_literalKey directly kind
      rw [found r s, Node.value_of_literalValue? literal.value kind, fault]
      rfl
    · intro naming
      rw [naming, fault]
      rfl

namespace Sample

def literal (v : Value) : Node :=
  Node.make Kind.literal.tag [("value", v)]

/-- `process.env[v]`. -/
def direct (v : Value) : SourceUnit where
  path := "/index.js"
  source := []
  tree := program [statement (entry processEnv (literal v).toValue)]

/-- `const K = v; process.env[K]`. -/
def through (v : Value) : SourceUnit where
  path := "/index.js"
  source := []
  tree := program [declaration (name "K") (literal v).toValue,
    statement (entry processEnv (name "K"))]

theorem isConstant_literal (v : Value) : (literal v).IsConstant v := by
  have kind : (literal v).kind = .literal := rfl
  exact ⟨rfl, rfl, by simp [kind], by simp [kind]⟩

theorem readsDirectly_direct (v : Value) : (direct v).tree.ReadsDirectly (literal v) := by
  refine ⟨_, _, ⟨rfl, rfl⟩, ⟨rfl, rfl, ⟨rfl, rfl, ⟨_, rfl, rfl, ?_, ?_⟩, rfl, rfl⟩⟩⟩
  · exact List.forall_mem_cons.mpr ⟨rfl, List.forall_mem_singleton.mpr rfl⟩
  · exact List.forall_mem_cons.mpr ⟨.inl rfl, List.forall_mem_singleton.mpr (.inr rfl)⟩

theorem readsThrough_through (v : Value) : (through v).tree.ReadsThrough "K" (literal v) := by
  refine ⟨_, _, _, _, _, ⟨rfl, rfl⟩, ⟨rfl, rfl, rfl, ⟨_, rfl, rfl, ?_⟩, rfl⟩,
    ⟨rfl, rfl, ⟨rfl, rfl, ⟨_, rfl, rfl, ?_, ?_⟩, rfl, rfl⟩⟩, rfl⟩
  · exact List.forall_mem_cons.mpr ⟨.inl rfl, List.forall_mem_singleton.mpr (.inr rfl)⟩
  · exact List.forall_mem_cons.mpr ⟨rfl, List.forall_mem_singleton.mpr rfl⟩
  · exact List.forall_mem_cons.mpr ⟨.inl rfl, List.forall_mem_singleton.mpr (.inr rfl)⟩

end Sample

open Sample in
/-- The number 8080 in place and through a declaration. -/
theorem Resolver.identities_of_constantKey_number :
    (direct (.int 8080)).tree.ReadsDirectly (literal (.int 8080)) ∧
      (literal (.int 8080)).IsConstant (.int 8080) ∧
      (through (.int 8080)).tree.ReadsThrough "K" (literal (.int 8080)) ∧
      ∀ (r : Resolver) (s : Session), ∃ d c, (r.analyze (direct (.int 8080))).result s = .ok [d] ∧
        (r.analyze (through (.int 8080))).result s = .ok [c] ∧
        d.identity = .name (.text "8080") ∧ c.identity = .name (.text "8080") := by
  refine ⟨readsDirectly_direct _, isConstant_literal _, readsThrough_through _, fun r s => ?_⟩
  obtain ⟨d, c, one, one', identity, identity'⟩ := (Resolver.identities_of_constantKey
    (readsDirectly_direct (.int 8080)) (isConstant_literal _) (readsThrough_through _)
    (isConstant_literal _) r s).1 (by decide)
  have shown : (Value.int 8080).literalText = "8080" := by decide
  exact ⟨d, c, one, one', shown ▸ identity rfl, shown ▸ identity'⟩

open Sample in
/-- Null is a name as the key itself, but not through a variable. -/
theorem Resolver.not_always_same_name : ¬∀ {direct through : SourceUnit} {key init : Node}
    {name : Text} {v : Value}, direct.tree.ReadsDirectly key → key.IsConstant v →
    through.tree.ReadsThrough name init → init.IsConstant v → key.kind = init.kind →
    ∀ (r : Resolver) (s : Session), ∃ d c, (r.analyze direct).result s = .ok [d] ∧
      (r.analyze through).result s = .ok [c] ∧ d.identity.name? = c.identity.name? := by
  intro all
  obtain ⟨d, c, one, one', same⟩ := all (readsDirectly_direct .null) (isConstant_literal .null)
    (readsThrough_through .null) (isConstant_literal .null) rfl {}
    ⟨{ entries := [], cwd := "/" }, Cache.empty⟩
  obtain ⟨span, found⟩ := result_analyze_of_literalKey (readsDirectly_direct .null) rfl
  obtain ⟨span', place, found'⟩ :=
    result_analyze_of_readsThrough (readsThrough_through .null) (isConstant_literal .null)
  cases (found _ _).symm.trans one
  cases (found' _ _).symm.trans one'
  cases same

end EnvReads
