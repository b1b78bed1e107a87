import EnvReads.Proofs.RecoveringConversion
import EnvReads.Proofs.RuleResults
import EnvReads.Syntax.EnvAccess

/-!
# Reads in concrete trees

Which concrete nodes convert to direct reads of the environment. The shapes of reads are stated on
concrete trees (`Concrete.isDirectRead`), where parentheses around a single node do not count
(`Concrete.unparen`), and conversion makes a direct read of nothing else.
-/

namespace EnvReads.Concrete

open Rose

/-! ## Parentheses -/

/-- What stands in parentheses, however many there are. -/
def unparen (c : Concrete) : Concrete :=
  match _h : c.inside? with
  | some d => unparen d
  | none => c
termination_by sizeOf c
decreasing_by exact sizeOf_lt_of_mem_uses (mem_uses_of_inside? _h)

/-- Parentheses can be taken off one pair at a time. -/
theorem unparen_of_inside? {c d : Concrete} (h : c.inside? = some d) :
    c.unparen = d.unparen := by
  rw [unparen]
  split
  · next found =>
      cases h.symm.trans found
      rfl
  · next outside => cases h.symm.trans outside

theorem unparen_of_none {c : Concrete} (h : c.inside? = none) : c.unparen = c := by
  rw [unparen]
  split
  · next found => cases h.symm.trans found
  · rfl

/-- No parentheses are left around what they were taken off. -/
theorem inside?_unparen (c : Concrete) : c.unparen.inside? = none := by
  fun_induction unparen c with
  | case1 c d found ih => exact ih
  | case2 c plain => exact plain

/-- What is in parentheses is part of the tree. -/
theorem unparen_mem_subtrees (c : Concrete) : c.unparen ∈ c.subtrees := by
  fun_induction unparen c with
  | case1 c d found ih =>
      exact mem_subtrees_trans (mem_subtrees_of_mem_uses (mem_uses_of_inside? found)) ih
  | case2 c _ => exact c.mem_subtrees_self

variable {s : SourceCode}

/-- Parentheses convert to what stands in them. -/
theorem convert_unparen (s : SourceCode) (c : Concrete) : convert s c.unparen = convert s c := by
  fun_induction unparen c with
  | case1 c d found ih =>
      rw [ih, convert_of_inside? found]
  | case2 c _ => rfl

/-! ## Kinds of converted nodes -/

/-- The kind of the nodes that the rule for a symbol makes; an export can be the default one. -/
def ruleKind (default : Bool) : Symbol → Kind
  | .program => .program
  | .expressionStatement => .expressionStatement
  | .lexicalDeclaration | .variableDeclaration => .variableDeclaration
  | .variableDeclarator => .variableDeclarator
  | .identifier | .propertyIdentifier | .shorthandPropertyIdentifier
  | .shorthandPropertyIdentifierPattern | .statementIdentifier | .undefined => .identifier
  | .this => .thisExpression
  | .memberExpression | .subscriptExpression => .memberExpression
  | .callExpression => .callExpression
  | .assignmentExpression | .augmentedAssignmentExpression => .assignmentExpression
  | .unaryExpression => .unaryExpression
  | .string | .number | .trueLiteral | .falseLiteral | .nullLiteral | .regex => .literal
  | .templateString => .templateLiteral
  | .object => .objectExpression
  | .objectPattern => .objectPattern
  | .assignmentPattern => .assignmentPattern
  | .restPattern => .restElement
  | .importStatement => .importDeclaration
  | .exportStatement => if default then .exportDefaultDeclaration else .exportNamedDeclaration
  | _ => .unknown

/-- Which symbols become member expressions. -/
theorem ruleKind_eq_memberExpression_iff {default : Bool} {symbol : Symbol} :
    ruleKind default symbol = .memberExpression ↔
      symbol = .memberExpression ∨ symbol = .subscriptExpression := by
  cases symbol <;> cases default <;> decide

/-- Which symbols become declarators. -/
theorem ruleKind_eq_variableDeclarator_iff {default : Bool} {symbol : Symbol} :
    ruleKind default symbol = .variableDeclarator ↔ symbol = .variableDeclarator := by
  cases symbol <;> cases default <;> decide

/-- No type of a node in the tree is the tag of a kind of syntax nodes. -/
def IsForeign (c : Concrete) : Prop :=
  ∀ d ∈ c.subtrees, Kind.ofTag d.mark.type = .unknown

instance (c : Concrete) : Decidable c.IsForeign :=
  inferInstanceAs (Decidable (∀ d ∈ c.subtrees, _))

/-- No part of a tree without tags of its own has one. -/
theorem IsForeign.of_mem {c d : Concrete} (h : c.IsForeign) (mem : d ∈ c.subtrees) :
    d.IsForeign :=
  fun e below => h e (mem_subtrees_trans mem below)

theorem IsForeign.inRole? {c d : Concrete} {role : Text} (h : c.IsForeign)
    (found : inRole? c.children role = some d) : d.IsForeign :=
  h.of_mem (mem_subtrees_of_child d.mem_subtrees_self (mem_of_inRole? found))

/-- Tags of converted nodes that belong to no kind. -/
def otherTags : List Text :=
  ["PrivateIdentifier", "NewExpression", "LogicalExpression", "BinaryExpression",
    "ConditionalExpression", "SequenceExpression", "SpreadElement", "ArrayPattern"]

/-- The other tags that rules give name no kind. -/
theorem ofTag_of_mem_otherTags : ∀ tag ∈ otherTags, Kind.ofTag tag = .unknown := by
  decide +kernel

/-- The kind that a rule gives to a node. -/
theorem ofTag_ruleTag {m : Mark} (foreign : Kind.ofTag m.type = .unknown) (ds : List Draft) :
    Kind.ofTag (ruleTag s m ds) = ruleKind (ds.any (·.symbol = .default)) m.symbol := by
  rw [ruleTag]
  cases m.symbol with
  | binaryExpression =>
      dsimp only
      split <;> exact ofTag_of_mem_otherTags _ (by simp [otherTags])
  | privatePropertyIdentifier | newExpression | ternaryExpression | sequenceExpression
  | spreadElement | arrayPattern => exact ofTag_of_mem_otherTags _ (by simp [otherTags])
  | exportStatement =>
      dsimp only [ruleKind]
      split
      · exact Kind.ofTag_tag .exportDefaultDeclaration
      · exact Kind.ofTag_tag .exportNamedDeclaration
  | _ =>
      first
      | exact foreign
      | refine Eq.trans ?_ (Kind.ofTag_tag _)
        rfl

/-- The kind of a converted node is that which the rule for its symbol gives. -/
theorem kind_of_convert {c : Concrete} {n : Node} (foreign : c.IsForeign) (bare : c.inside? = none)
    (h : convert s c = .ok (some n)) : ∃ default, n.kind = ruleKind default c.symbol := by
  have tag := hasTag_assembleKept s c.mark _ n (assembleKept_of_convert bare h)
  exact ⟨_, (congrArg Kind.ofTag tag).trans (ofTag_ruleTag (foreign c c.mem_subtrees_self) _)⟩

/-! ## Questions about converted nodes -/

/-- A question about syntax nodes and one about concrete nodes get the same answer before and after
conversion. Parentheses do not count. -/
def Transfers (s : SourceCode) (p : Node → Bool) (q : Concrete → Bool) : Prop :=
  ∀ c r, c.IsForeign → convert s c = .ok r → r.any p = q c.unparen

variable {p : Node → Bool} {q : Concrete → Bool}

/-- It is enough to ask about nodes that a rule makes. -/
theorem transfers_of_assembleKept (kept : ∀ c, q c → ¬c.symbol.isSkipped)
    (made : ∀ c n, c.IsForeign → (∃ default, n.kind = ruleKind default c.symbol) →
      assembleKept s c.mark (c.children.map (draft s)) = .ok n → p n = q c) :
    Transfers s p q := by
  intro c r foreign converted
  rw [← convert_unparen] at converted
  cases r with
  | none =>
      rw [Option.any_none, eq_comm, Bool.eq_false_iff]
      exact fun holds => convert_ne_none s (kept _ holds) converted
  | some n =>
      have foreign := foreign.of_mem c.unparen_mem_subtrees
      exact made _ n foreign (kind_of_convert foreign c.inside?_unparen converted)
        (assembleKept_of_convert c.inside?_unparen converted)

/-- What holds of converted nodes holds of the values that rules put into fields. -/
theorem Transfers.role (h : Transfers s p q) {c : Concrete} (foreign : c.IsForeign) {name : Text}
    {v : Value} (found : role (c.children.map (draft s)) name = .ok v) :
    (Node.ofValue? v).any p = (inRole? c.children name).any fun d => q (unparen d) := by
  obtain ⟨r, result, rfl⟩ := Except.map_eq_ok_iff.mp found
  rw [inRole?_draft] at result
  rw [Node.ofValue?_optional]
  cases here : inRole? c.children name with
  | none =>
      rw [here] at result
      cases result
      rfl
  | some d =>
      rw [here] at result
      exact h d r (foreign.inRole? here) result

/-! ### Names -/

/-- An identifier with the given text. -/
def isCalled (s : SourceCode) (name : Text) (c : Concrete) : Bool :=
  c.symbol.isIdentifierLike && s.textOf c.mark = name

/-- Which symbols become identifiers. -/
theorem ruleKind_eq_identifier_iff {default : Bool} {symbol : Symbol} :
    ruleKind default symbol = .identifier ↔ symbol.isIdentifierLike ∨ symbol = .undefined := by
  cases symbol <;> cases default <;> decide

/-- An identifier is named as in the source. -/
theorem name_of_identifier {m : Mark} {n : Node} (h : identifier s m = .ok n) :
    n.name = .text (s.textOf m) := by
  rw [Node.name, SourceCode.field?_of_place h (by decide) (by decide)]
  rfl

theorem assembleKept_of_isIdentifierLike {m : Mark} (like : m.symbol.isIdentifierLike)
    (ds : List Draft) : assembleKept s m ds = identifier s m := by
  rw [assembleKept]
  cases symbol : m.symbol <;> simp [symbol, Symbol.isIdentifierLike] at like <;> rfl

theorem name_of_undefined {m : Mark} (symbol : m.symbol = .undefined) {ds : List Draft} {n : Node}
    (h : assembleKept s m ds = .ok n) : n.name = .text "undefined" := by
  rw [assembleKept, symbol] at h
  rw [Node.name, SourceCode.field?_of_place h (by decide) (by decide)]
  rfl

/-- A name can be told before conversion, save for that of the undefined value. -/
theorem transfers_isNamed {name : Text} (given : name ≠ "undefined") :
    Transfers s (·.isNamed name) (isCalled s name) := by
  refine transfers_of_assembleKept (fun c called skipped => ?_) ?_
  · have like := (Bool.and_eq_true_iff.mp called).1
    cases symbol : c.symbol <;> simp_all [Symbol.isSkipped, Symbol.isIdentifierLike]
  · rintro c n - ⟨default, kind⟩ made
    have identifier : n.isIdentifier ↔ c.symbol.isIdentifierLike ∨ c.symbol = .undefined := by
      rw [Node.isIdentifier, kind, decide_eq_true_eq, ruleKind_eq_identifier_iff]
    rw [Bool.eq_iff_iff, Node.isNamed, isCalled, Bool.and_eq_true, Bool.and_eq_true, identifier]
    by_cases like : c.symbol.isIdentifierLike
    · rw [assembleKept_of_isIdentifierLike like] at made
      simp [like, name_of_identifier made, Value.text?]
    · refine iff_of_false ?_ fun called => like called.1
      rintro ⟨symbol, found⟩
      have undefined := symbol.resolve_left like
      rw [name_of_undefined undefined made] at found
      exact given (by simpa [Value.text?, eq_comm] using found)

/-! ### Reads -/

/-- An object pattern can be told before conversion. -/
theorem transfers_objectPattern :
    Transfers s (·.kind = .objectPattern) (·.symbol = .objectPattern) := by
  refine transfers_of_assembleKept (fun c pattern => ?_) ?_
  · simp [of_decide_eq_true pattern, Symbol.isSkipped]
  · rintro c n - ⟨default, kind⟩ -
    rw [kind]
    cases c.symbol <;> cases default <;> decide

/-- `process.env` itself. -/
def isProcessEnv (s : SourceCode) (c : Concrete) : Bool :=
  c.symbol = .memberExpression &&
    (inRole? c.children "object").any (fun d => isCalled s "process" (unparen d)) &&
    (inRole? c.children "property").any fun d => isCalled s "env" (unparen d)

/-- `process.env.KEY` or `process.env[key]`. -/
def isEnvMember (s : SourceCode) (c : Concrete) : Bool :=
  (c.symbol = .memberExpression || c.symbol = .subscriptExpression) &&
    (inRole? c.children "object").any fun d => isProcessEnv s (unparen d)

/-- `{ … } = process.env` in a declaration. -/
def isEnvDestructuring (s : SourceCode) (c : Concrete) : Bool :=
  c.symbol = .variableDeclarator &&
    (inRole? c.children "name").any (fun d => (unparen d).symbol = .objectPattern) &&
    (inRole? c.children "value").any fun d => isProcessEnv s (unparen d)

/-- A read of the environment that needs no alias. -/
def isDirectRead (s : SourceCode) (c : Concrete) : Bool :=
  c.isEnvMember s || c.isEnvDestructuring s

theorem assembleKept_of_memberExpression {m : Mark} (symbol : m.symbol = .memberExpression)
    (ds : List Draft) : assembleKept s m ds = memberExpression s m ds false "property" := by
  rw [assembleKept, symbol]

theorem assembleKept_of_subscriptExpression {m : Mark} (symbol : m.symbol = .subscriptExpression)
    (ds : List Draft) : assembleKept s m ds = memberExpression s m ds true "index" := by
  rw [assembleKept, symbol]

/-- The parts of a member expression. -/
theorem exists_of_memberExpression {m : Mark} {ds : List Draft} {computed : Bool}
    {propertyRole : Text} {n : Node}
    (h : memberExpression s m ds computed propertyRole = .ok n) :
    ∃ object property, role ds "object" = .ok object ∧ role ds propertyRole = .ok property ∧
      n.computed = computed ∧ n.child? "object" = Node.ofValue? object ∧
      n.child? "property" = Node.ofValue? property := by
  obtain ⟨object, objectRole, h⟩ := Except.bind_eq_ok_iff.mp h
  obtain ⟨property, propertyRole, placed⟩ := Except.bind_eq_ok_iff.mp h
  refine ⟨object, property, objectRole, propertyRole, ?_, ?_, ?_⟩
  · rw [Node.computed, SourceCode.field?_of_place placed (by decide) (by decide)]
    rfl
  · rw [Node.child?, SourceCode.field?_of_place placed (by decide) (by decide)]
    rfl
  · rw [Node.child?, SourceCode.field?_of_place placed (by decide) (by decide)]
    rfl

/-- The parts of a declarator. -/
theorem exists_of_variableDeclarator {m : Mark} (symbol : m.symbol = .variableDeclarator)
    {ds : List Draft} {n : Node} (h : assembleKept s m ds = .ok n) :
    ∃ target init, role ds "name" = .ok target ∧ role ds "value" = .ok init ∧
      n.child? "id" = Node.ofValue? target ∧ n.child? "init" = Node.ofValue? init := by
  rw [assembleKept, symbol] at h
  obtain ⟨target, targetRole, h⟩ := Except.bind_eq_ok_iff.mp h
  obtain ⟨init, initRole, placed⟩ := Except.bind_eq_ok_iff.mp h
  refine ⟨target, init, targetRole, initRole, ?_, ?_⟩
  · rw [Node.child?, SourceCode.field?_of_place placed (by decide) (by decide)]
    rfl
  · rw [Node.child?, SourceCode.field?_of_place placed (by decide) (by decide)]
    rfl

/-- `process.env` can be told from the concrete node. -/
theorem transfers_isProcessEnv : Transfers s (·.isProcessEnv) (isProcessEnv s) := by
  refine transfers_of_assembleKept (fun c read => ?_) fun c n foreign ⟨default, kind⟩ made => ?_
  · simp only [isProcessEnv, Bool.and_eq_true, decide_eq_true_eq] at read
    simp [read, Symbol.isSkipped]
  · rw [Node.isProcessEnv, isProcessEnv]
    by_cases dotted : c.symbol = .memberExpression
    · rw [dotted] at kind
      rw [assembleKept_of_memberExpression dotted] at made
      obtain ⟨object, property, objectRole, propertyRole, computed, objectChild, propertyChild⟩ :=
        exists_of_memberExpression made
      rw [kind, dotted, computed, objectChild, propertyChild,
        (transfers_isNamed (by decide)).role foreign objectRole,
        (transfers_isNamed (by decide)).role foreign propertyRole]
      rfl
    · by_cases indexed : c.symbol = .subscriptExpression
      · rw [assembleKept_of_subscriptExpression indexed] at made
        obtain ⟨_, _, -, -, computed, -, -⟩ := exists_of_memberExpression made
        simp [indexed, computed]
      · have other : n.kind ≠ .memberExpression := by
          rw [kind, ne_eq, ruleKind_eq_memberExpression_iff]
          exact not_or.mpr ⟨dotted, indexed⟩
        simp [other, dotted]

/-- So can a member of `process.env`. -/
theorem transfers_isEnvMember : Transfers s (·.isEnvMember) (isEnvMember s) := by
  refine transfers_of_assembleKept (fun c read => ?_) fun c n foreign ⟨default, kind⟩ made => ?_
  · simp only [isEnvMember, Bool.and_eq_true, Bool.or_eq_true, decide_eq_true_eq] at read
    rcases read.1 with symbol | symbol <;> simp [symbol, Symbol.isSkipped]
  · have member : n.kind = .memberExpression ↔
        c.symbol = .memberExpression ∨ c.symbol = .subscriptExpression := by
      rw [kind, ruleKind_eq_memberExpression_iff]
    rw [Node.isEnvMember, isEnvMember, ← Bool.decide_or, decide_eq_decide.mpr member]
    by_cases symbol : c.symbol = .memberExpression ∨ c.symbol = .subscriptExpression
    · have rule : ∃ computed propertyRole, memberExpression s c.mark (c.children.map (draft s))
          computed propertyRole = .ok n := by
        rcases symbol with symbol | symbol
        · exact ⟨_, _, assembleKept_of_memberExpression symbol _ ▸ made⟩
        · exact ⟨_, _, assembleKept_of_subscriptExpression symbol _ ▸ made⟩
      obtain ⟨_, _, made⟩ := rule
      obtain ⟨object, _, objectRole, -, -, objectChild, -⟩ := exists_of_memberExpression made
      rw [objectChild, transfers_isProcessEnv.role foreign objectRole]
    · rw [decide_eq_false symbol, Bool.false_and, Bool.false_and]

/-- So can a pattern that takes `process.env` apart. -/
theorem transfers_isEnvDestructuring :
    Transfers s (·.isEnvDestructuring) (isEnvDestructuring s) := by
  refine transfers_of_assembleKept (fun c read => ?_) fun c n foreign ⟨default, kind⟩ made => ?_
  · simp only [isEnvDestructuring, Bool.and_eq_true, decide_eq_true_eq] at read
    simp [read, Symbol.isSkipped]
  · have declarator : n.kind = .variableDeclarator ↔ c.symbol = .variableDeclarator := by
      rw [kind, ruleKind_eq_variableDeclarator_iff]
    rw [Node.isEnvDestructuring, isEnvDestructuring, decide_eq_decide.mpr declarator]
    by_cases symbol : c.symbol = .variableDeclarator
    · obtain ⟨target, init, targetRole, initRole, targetChild, initChild⟩ :=
        exists_of_variableDeclarator symbol made
      rw [targetChild, initChild, transfers_objectPattern.role foreign targetRole,
        transfers_isProcessEnv.role foreign initRole]
    · rw [decide_eq_false symbol, Bool.false_and, Bool.false_and, Bool.false_and, Bool.false_and]

/-- So can a direct read. -/
theorem transfers_isDirectRead : Transfers s (·.isDirectRead) (isDirectRead s) := by
  intro c r foreign converted
  have member := transfers_isEnvMember c r foreign converted
  have destructuring := transfers_isEnvDestructuring c r foreign converted
  rw [isDirectRead, ← member, ← destructuring]
  cases r with
  | none => rfl
  | some n => rfl

/-! ## Comments and optional chains -/

/-- A comment or the mark of an optional chain, in no role that a rule asks for. -/
def isLoose (c : Concrete) : Bool :=
  c.symbol.isSkipped && (c.mark.role = none || c.mark.role = some "optional_chain")

mutual

/-- The tree without comments and optional chains. -/
def trimmed : Concrete → Concrete
  | .node m cs => .node m (trimmedAll cs)

def trimmedAll : List Concrete → List Concrete
  | [] => []
  | c :: cs => if c.isLoose then trimmedAll cs else trimmed c :: trimmedAll cs

end

/-- Comments and optional chains are dropped from a list, and the others trimmed. -/
theorem trimmedAll_eq (cs : List Concrete) :
    trimmedAll cs = (cs.filter (!·.isLoose)).map trimmed := by
  induction cs with
  | nil => rw [trimmedAll]; rfl
  | cons c cs ih =>
      rw [trimmedAll, ih]
      by_cases loose : c.isLoose <;> simp [loose]

@[simp] theorem mark_trimmed (c : Concrete) : c.trimmed.mark = c.mark := by
  cases c with
  | node m cs => rw [trimmed]; rfl

@[simp] theorem symbol_trimmed (c : Concrete) : c.trimmed.symbol = c.symbol := by
  rw [symbol, mark_trimmed, symbol]

@[simp] theorem children_trimmed (c : Concrete) : c.trimmed.children = trimmedAll c.children := by
  cases c with
  | node m cs => rw [trimmed]; rfl

/-- The children that count stay. -/
theorem kept_trimmedAll (cs : List Concrete) :
    kept (trimmedAll cs) = (kept cs).map trimmed := by
  simp only [trimmedAll_eq, kept, named, List.filter_map, List.filter_filter, Function.comp_def,
    symbol_trimmed, mark_trimmed]
  congr 1
  refine List.filter_congr fun c _ => ?_
  cases skipped : c.symbol.isSkipped <;> simp [isLoose, skipped]

/-- The roles of children stay, save for that of an optional chain. -/
theorem inRole?_trimmedAll (cs : List Concrete) {role : Text}
    (read : role ≠ "optional_chain") :
    inRole? (trimmedAll cs) role = (inRole? cs role).map trimmed := by
  simp only [trimmedAll_eq, inRole?, List.find?_map, List.find?_filter, Function.comp_def,
    mark_trimmed]
  congr 2
  funext c
  by_cases here : c.mark.role = some role <;> simp [isLoose, here, read]

theorem inside?_trimmed (c : Concrete) : c.trimmed.inside? = c.inside?.map trimmed := by
  rw [inside?, inside?, symbol_trimmed, children_trimmed, kept_trimmedAll]
  split
  · rcases kept c.children with _ | ⟨d, _ | ⟨e, rest⟩⟩ <;> rfl
  · rfl

/-- Parentheses can be taken off before or after. -/
theorem unparen_trimmed (c : Concrete) : c.trimmed.unparen = c.unparen.trimmed := by
  fun_induction unparen c with
  | case1 c d found ih =>
      rw [← ih]
      exact unparen_of_inside? (by rw [inside?_trimmed, found]; rfl)
  | case2 c plain => exact unparen_of_none (by rw [inside?_trimmed, plain]; rfl)

theorem any_inRole?_trimmedAll (same : ∀ c : Concrete, q c.trimmed = q c) (cs : List Concrete)
    {role : Text} (read : role ≠ "optional_chain") :
    (inRole? (trimmedAll cs) role).any (fun d => q (unparen d)) =
      (inRole? cs role).any fun d => q (unparen d) := by
  rw [inRole?_trimmedAll cs read]
  cases inRole? cs role with
  | none => rfl
  | some d => simp only [Option.map_some, Option.any_some, unparen_trimmed, same]

section

variable (s : SourceCode) (c : Concrete)

/-- A name stays the same. -/
theorem isCalled_trimmed (name : Text) : isCalled s name c.trimmed = isCalled s name c := by
  simp [isCalled]

/-- `process.env` stays what it is. -/
theorem isProcessEnv_trimmed : c.trimmed.isProcessEnv s = c.isProcessEnv s := by
  rw [isProcessEnv, isProcessEnv, symbol_trimmed, children_trimmed,
    any_inRole?_trimmedAll (isCalled_trimmed s · "process") _ (by decide),
    any_inRole?_trimmedAll (isCalled_trimmed s · "env") _ (by decide)]

/-- So does a member of it. -/
theorem isEnvMember_trimmed : c.trimmed.isEnvMember s = c.isEnvMember s := by
  rw [isEnvMember, isEnvMember, symbol_trimmed, children_trimmed,
    any_inRole?_trimmedAll (isProcessEnv_trimmed s) _ (by decide)]

/-- So does a pattern that takes it apart. -/
theorem isEnvDestructuring_trimmed : c.trimmed.isEnvDestructuring s = c.isEnvDestructuring s := by
  rw [isEnvDestructuring, isEnvDestructuring, symbol_trimmed, children_trimmed,
    any_inRole?_trimmedAll (q := (·.symbol = .objectPattern)) (fun d => by rw [symbol_trimmed]) _
      (by decide),
    any_inRole?_trimmedAll (isProcessEnv_trimmed s) _ (by decide)]

/-- So does a direct read. -/
theorem isDirectRead_trimmed : c.trimmed.isDirectRead s = c.isDirectRead s := by
  rw [isDirectRead, isDirectRead, isEnvMember_trimmed, isEnvDestructuring_trimmed]

end

theorem exists_of_mem_subtrees_trimmed {c d : Concrete} (h : d ∈ c.trimmed.subtrees) :
    ∃ e ∈ c.subtrees, e.mark = d.mark := by
  induction c using subtrees.induct with
  | case1 m cs ih =>
      rw [trimmed, subtrees_node, trimmedAll_eq, List.flatMap_map] at h
      rcases List.mem_cons.mp h with rfl | below
      · exact ⟨_, mem_subtrees_self _, rfl⟩
      · obtain ⟨k, mem, below⟩ := List.mem_flatMap.mp below
        have child := (List.mem_filter.mp mem).1
        obtain ⟨e, inside, same⟩ := ih ⟨k, child⟩ below
        exact ⟨e, mem_subtrees_of_child inside child, same⟩

theorem IsForeign.trimmed {c : Concrete} (h : c.IsForeign) : c.trimmed.IsForeign := by
  intro d mem
  obtain ⟨e, inside, same⟩ := exists_of_mem_subtrees_trimmed mem
  rw [← same]
  exact h e inside

/-- A tree converts to a direct read exactly if it is one, up to parentheses. Comments and optional
chains in the tree make no difference. -/
theorem isDirectRead_convert_iff (s : SourceCode) {c : Concrete} (foreign : c.IsForeign)
    {r : Option Node} (converted : convert s c = .ok r) :
    (r.any Node.isDirectRead ↔ c.unparen.isDirectRead s) ∧
      ∀ r', convert s c.trimmed = .ok r' →
        (r'.any Node.isDirectRead ↔ r.any Node.isDirectRead) := by
  have read := transfers_isDirectRead c r foreign converted
  refine ⟨by rw [read], fun r' trimmed => ?_⟩
  rw [read, transfers_isDirectRead _ r' foreign.trimmed trimmed, unparen_trimmed,
    isDirectRead_trimmed]

/-- The source of `chain`. -/
def chainSource : Text :=
  "(process/*c*/.env)?.KEY"

/-- A read with a comment, parentheses and an optional chain. -/
def chain : Concrete :=
  .node (Sample.mark "member_expression" 0 23 none) [
    .node (Sample.mark "parenthesized_expression" 0 18 (some "object")) [
      .node (Sample.mark "member_expression" 1 17 none) [
        .node (Sample.mark "identifier" 1 8 (some "object")) [],
        .node (Sample.mark "comment" 8 13 none) [],
        .node (Sample.mark "property_identifier" 14 17 (some "property")) []]],
    .node (Sample.mark "optional_chain" 18 20 (some "optional_chain")) [],
    .node (Sample.mark "property_identifier" 20 23 (some "property")) []]

/-- Parentheses, a comment and an optional chain in a read. -/
theorem isDirectRead_convert_chain :
    chain.IsForeign ∧ ∃ r, convert (.ofText chainSource) chain = .ok r ∧
      (r.any Node.isDirectRead ↔ chain.unparen.isDirectRead (.ofText chainSource)) ∧
      r.any Node.isDirectRead := by
  have evaluated : chain.IsForeign ∧ (convert (.ofText chainSource) chain).toOption.any
      (·.any Node.isDirectRead) := by
    decide +kernel
  obtain ⟨foreign, read⟩ := evaluated
  obtain ⟨r, converted, read⟩ := (Option.any_eq_true _ _).mp read
  have converted := Except.toOption_eq_some_iff.mp converted
  exact ⟨foreign, r, converted, (isDirectRead_convert_iff _ foreign converted).1, read⟩

end EnvReads.Concrete
