import EnvReads.Proofs.NestedExports
import EnvReads.Proofs.Reading

/-!
# Spellings of an export

A module can give an export its value in several ways: by an assignment to a slot of
`module.exports` or of `exports`, whose value holds the rest of the path in object literals, by an
exported declaration, or as its default export. The path is consumed in part by the slot and in part
in the value, and all ways to divide it are the same: a module that spells the export in any of
these ways (`Node.SpellsExport`) gives one site for it, the literal.
-/

namespace EnvReads

namespace Node

/-! ## Keys and access chains -/

/-- The field `role` of a property or member expression spells the key: as an identifier that is not
computed, or as a literal text. -/
def SpellsKey (n : Node) (role key : Text) : Prop :=
  ∃ k, n.child? role = some k ∧
    (n.computed = false ∧ k.isNamed key ∨ k.kind = .literal ∧ k.value = .text key)

/-- The node is the access chain that applies the keys to the variable, such as `a.b["c"]`. -/
inductive SpellsPath (root : Text) : Node → List Text → Prop
  | root {n : Node} : n.isNamed root → SpellsPath root n []
  | member {n object : Node} {keys : List Text} {key : Text} : n.kind = .memberExpression →
      n.child? "object" = some object → SpellsPath root object keys → n.SpellsKey "property" key →
      SpellsPath root n (keys ++ [key])

theorem name_of_isNamed {n : Node} {t : Text} (h : n.isNamed t) :
    n.isIdentifier ∧ n.name = .text t := by
  simp only [isNamed, Bool.and_eq_true, decide_eq_true_eq] at h
  exact ⟨h.1, Value.eq_text_of_text? h.2⟩

/-- A key that is spelled out is read. -/
theorem memberKey?_of_spellsKey {n : Node} {role key : Text} (h : n.SpellsKey role key) :
    n.memberKey? role = .ok (some (.text key)) := by
  obtain ⟨k, child, spelling⟩ := h
  rw [memberKey?, child]
  rcases spelling with ⟨computed, named⟩ | ⟨literal, value⟩
  · obtain ⟨identifier, name⟩ := name_of_isNamed named
    simp [staticKey?, identifier, computed, name, Value.present?]
  · have other : ¬k.isIdentifier := by simp [isIdentifier, literal]
    simp only [Option.elim_some, staticKey?, other, Bool.false_and, literal, value]
    rfl

/-- A path that is spelled out is read. -/
theorem staticPath?_of_spellsPath {n : Node} {root : Text} {keys : List Text}
    (h : SpellsPath root n keys) : n.staticPath? = .ok (some ⟨.text root, keys.map .text⟩) := by
  induction h with
  | root named =>
      obtain ⟨identifier, name⟩ := name_of_isNamed named
      rw [staticPath?_of_isIdentifier identifier, name]
      rfl
  | member kind child _ keyed ih =>
      rw [staticPath?_of_member kind child ih (memberKey?_of_spellsKey keyed), List.map_append]
      rfl

/-! ## Literals in object literals -/

/-- A literal that is no regular expression. -/
structure IsPlainLiteral (n : Node) : Prop where
  kind : n.kind = .literal
  regex : (n.field? "regex").all Value.isNull

/-- The expression is the literal wrapped in object literals along the keys. Each object literal has
one property with the next key, and all its other properties have other fixed keys. -/
inductive Wraps (literal : Node) : Node → List Text → Prop
  | here : Wraps literal literal []
  | inside {n property value : Node} {before after : List Node} {key : Text} {keys : List Text} :
      n.kind = .objectExpression → n.childrenOf "properties" = before ++ property :: after →
      property.kind = .property → property.SpellsKey "key" key →
      property.child? "value" = some value →
      (∀ m ∈ before ++ after, m.kind = .property ∧
        ∃ other, m.memberKey? "key" = .ok (some other) ∧ other ≠ .text key) →
      Wraps literal value keys → Wraps literal n (key :: keys)

/-- A plain literal has its value. -/
theorem literalValue?_of_isPlainLiteral {n : Node} (h : n.IsPlainLiteral) :
    n.literalValue? = .ok (some n.value) := by
  have plain : (n.field? "regex").any (!·.isNull) = false := by
    have regex := h.regex
    cases found : n.field? "regex" with
    | none => rfl
    | some v => simpa [found] using regex
  rw [literalValue?, if_pos h.kind, plain]
  rfl

/-- The origin of a literal is the literal itself. -/
theorem origin_of_literalValue? {n : Node} {v : Value} (h : n.literalValue? = .ok (some v)) :
    n.origin [] = .ok (.literal v n) := by
  have void : ¬n.isVoid := by
    intro void
    simp only [isVoid, Bool.and_eq_true, decide_eq_true_eq] at void
    rcases kind_of_literalValue? h with kind | kind <;> simp [kind] at void
  rw [origin, if_neg void, if_neg (not_isAssignment_of_literalValue? h)]
  simp [h, bind, Except.bind]

theorem hasKey_of_memberKey? {m : Node} {key found : Value}
    (h : m.memberKey? "key" = .ok (some found)) : m.hasKey key = .ok (found == key) := by
  rw [hasKey, h]
  rfl

/-- The property that is followed is the only one with its key. -/
theorem propertyValue?_of_only {n property value : Node} {before after : List Node} {key : Text}
    (members : n.childrenOf "properties" = before ++ property :: after)
    (kind : property.kind = .property) (keyed : property.SpellsKey "key" key)
    (child : property.child? "value" = some value)
    (others : ∀ m ∈ before ++ after, m.kind = .property ∧
      ∃ other, m.memberKey? "key" = .ok (some other) ∧ other ≠ .text key) :
    n.propertyValue? (.text key) = .ok (some value) := by
  have whole : n.properties = before ++ property :: after := by
    rw [properties, members, List.filter_eq_self]
    intro m mem
    rcases List.mem_append.mp mem with mem | mem
    · simpa using (others m (List.mem_append_left _ mem)).1
    · rcases List.mem_cons.mp mem with rfl | mem
      · simpa using kind
      · simpa using (others m (List.mem_append_right _ mem)).1
  have unset : ∀ m ∈ before ++ after, m.hasKey (.text key) = .ok false := by
    intro m mem
    obtain ⟨-, other, found, different⟩ := others m mem
    rw [hasKey_of_memberKey? found, Value.beq_text_eq, Except.ok.injEq, decide_eq_false_iff_not]
    exact fun same => different (Value.eq_text_of_text? same)
  have set : property.hasKey (.text key) = .ok true := by
    rw [hasKey_of_memberKey? (memberKey?_of_spellsKey keyed), Value.beq_text_eq]
    simp [Value.text?]
  have rest : Fault.filter (hasKey (.text key)) after = .ok [] := by
    have skipped := Fault.filter_append_of_false
      (fun m mem => unset m (List.mem_append_right _ mem)) []
    rwa [List.append_nil] at skipped
  have only : Fault.filter (hasKey (.text key)) n.properties = .ok [property] := by
    rw [whole, Fault.filter_append_of_false fun m mem => unset m (List.mem_append_left _ mem),
      Fault.filter, set, rest]
    rfl
  rw [propertyValue?, only]
  exact congrArg Except.ok child

theorem requireOrigin?_of_object {n : Node} (h : n.kind = .objectExpression) (keys : List Value) :
    n.requireOrigin? keys = .ok none := by
  simp [requireOrigin?, requiredModule?, objectModule?, h, bind, Except.bind, pure, Except.pure]

/-- A key is followed into an object literal. -/
theorem origin_of_object {n value : Node} {key : Value} (object : n.kind = .objectExpression)
    (found : n.propertyValue? key = .ok (some value)) (keys : List Value) :
    n.origin (key :: keys) = value.origin keys := by
  have void : ¬n.isVoid := by simp [isVoid, object]
  have assign : ¬n.isAssignment := by simp [isAssignment, object]
  rw [origin, if_neg void, if_neg assign]
  simp only [List.isEmpty_cons, Bool.false_eq_true, if_false, bind, Except.bind,
    requireOrigin?_of_object object, if_pos object]
  split
  · next found' =>
      cases found.symm.trans found'
      rfl
  · next missing => cases found.symm.trans missing
  · next fails => cases found.symm.trans fails

/-- A literal wrapped along the keys is the origin of what they lead to. -/
theorem origin_of_wraps {literal n : Node} {keys : List Text} (plain : literal.IsPlainLiteral)
    (h : Wraps literal n keys) :
    n.origin (keys.map .text) = .ok (.literal literal.value literal) := by
  induction h with
  | here => exact origin_of_literalValue? (literalValue?_of_isPlainLiteral plain)
  | inside object members kind keyed child others _ ih =>
      rw [List.map_cons,
        origin_of_object object (propertyValue?_of_only members kind keyed child others), ih]

/-! ## Modules with one statement -/

/-- The tree is a program with the given statements and no others. -/
structure ConsistsOf (tree : Node) (statements : List Node) : Prop where
  kind : tree.kind = .program
  children : tree.children = statements

/-- The tree is a program with one statement, which assigns `right` to `left`. -/
def ConsistsOfAssignment (tree left right : Node) : Prop :=
  ∃ statement n, tree.ConsistsOf [statement] ∧ statement.kind = .expressionStatement ∧
    statement.children = [n] ∧ n.isAssignment ∧ n.child? "left" = some left ∧
    n.child? "right" = some right

/-- `SpellsExport literal tree name keys`: the module `tree` gives the literal to `keys` in its
export `name`, in one of the ways that there are. -/
inductive SpellsExport (literal tree : Node) : Text → List Text → Prop
  /-- `module.exports.q = …`, or `module.exports = …` if `q` is empty. -/
  | moduleSlot {left right : Node} {q r keys : List Text} {name : Text} :
      tree.ConsistsOfAssignment left right → SpellsPath "module" left ("exports" :: q) →
      Wraps literal right r → q ++ r = name :: keys → name ≠ "default" →
      SpellsExport literal tree name keys
  /-- `exports.q = …`. -/
  | slot {left right : Node} {q r keys : List Text} {name : Text} :
      tree.ConsistsOfAssignment left right → SpellsPath "exports" left q → q ≠ [] →
      Wraps literal right r → q ++ r = name :: keys → name ≠ "default" →
      SpellsExport literal tree name keys
  /-- `export const name = …`. -/
  | declared {statement declaration declarator target value : Node} {name : Text}
      {keys : List Text} : tree.ConsistsOf [statement] → statement.kind = .exportNamedDeclaration →
      statement.child? "declaration" = some declaration → declaration.kind = .variableDeclaration →
      declaration.childrenOf "declarations" = [declarator] →
      declarator.child? "id" = some target → target.isNamed name →
      declarator.child? "init" = some value → Wraps literal value keys → name ≠ "default" →
      SpellsExport literal tree name keys
  /-- `export default …`. -/
  | default {statement value : Node} {keys : List Text} : tree.ConsistsOf [statement] →
      statement.kind = .exportDefaultDeclaration → statement.child? "declaration" = some value →
      Wraps literal value keys → SpellsExport literal tree "default" keys
  /-- `module.exports = …`, which is the default export too. -/
  | whole {left right : Node} {keys : List Text} : tree.ConsistsOfAssignment left right →
      SpellsPath "module" left ["exports"] → Wraps literal right keys →
      SpellsExport literal tree "default" keys

section

variable {tree n left right : Node} {p : ExportPath}

/-- A tree with one export exports what that exports. -/
theorem exports_of_search (h : tree.search isExport = [n]) : tree.exports p = n.exportedAt p := by
  rw [exports, h, Except.map_flatten_mapM_cons]
  cases n.exportedAt p with
  | error fault => rfl
  | ok values => exact congrArg Except.ok (List.append_nil values)

/-- A tree of one statement has the exports of the statement. -/
theorem ConsistsOf.search_eq (h : tree.ConsistsOf [n]) :
    tree.search isExport = n.search isExport := by
  have passes : tree.passes := by simp [Node.passes, h.kind, Kind.isLeaf]
  have other : ¬tree.isExport := by simp [isExport, h.kind]
  rw [search_of_enters passes other, h.children, List.flatMap_singleton]

/-- A tree of one export exports what that exports. -/
theorem ConsistsOf.exports_eq (h : tree.ConsistsOf [n]) (export' : n.isExport) :
    tree.exports p = n.exportedAt p :=
  exports_of_search (h.search_eq.trans (search_of_accepts (passes_of_isExport n export') export'))

/-- A module that is an assignment to a slot of the exports gives its right side. -/
theorem exports_of_consistsOfAssignment (h : tree.ConsistsOfAssignment left right)
    {target : StaticPath} {slot : List Value} (path : left.staticPath? = .ok (some target))
    (sets : target.SetsSlot slot) {rest : List Value} (split : p.slots = slot ++ rest)
    (leads : slot.isPrefixOf p.slots) : tree.exports p = .ok [(some right, rest)] := by
  obtain ⟨statement, n, only, kind, children, assign, leftChild, rightChild⟩ := h
  have passes : statement.passes := by simp [Node.passes, kind, Kind.isLeaf]
  have other : ¬statement.isExport := by simp [isExport, kind]
  have export' : n.isExport := by simp [isExport, kind_of_isAssignment assign]
  have found : tree.search isExport = [n] := by
    rw [only.search_eq, search_of_enters passes other, children, List.flatMap_singleton,
      search_of_accepts (passes_of_isExport n export') export']
  rw [exports_of_search found, exportedAt_of_setsSlot assign leftChild path sets, if_pos leads,
    rightChild, split, List.drop_left]

end

/-- However an export is spelled, one value is found for it, with the literal at the rest of the
path. -/
theorem exists_exports_of_spellsExport {literal tree : Node} {name : Text} {keys : List Text}
    (h : SpellsExport literal tree name keys) :
    ∃ value rest, tree.exports (.ofTexts name keys) = .ok [(some value, rest.map .text)] ∧
      Wraps literal value rest := by
  -- The slot takes the first part of the path, as long as it is.
  have assigned : ∀ {left right : Node} {target : StaticPath} {q r : List Text},
      tree.ConsistsOfAssignment left right → left.staticPath? = .ok (some target) →
      target.SetsSlot (q.map .text) →
      (ExportPath.ofTexts name keys).slots = (q ++ r).map .text → Wraps literal right r →
      ∃ value rest, tree.exports (.ofTexts name keys) = .ok [(some value, rest.map .text)] ∧
        Wraps literal value rest := by
    intro left right target q r only path sets slots wraps
    have split := slots.trans List.map_append
    refine ⟨right, r, exports_of_consistsOfAssignment only path sets split ?_, wraps⟩
    rw [slots]
    exact Value.isPrefixOf_map_text_iff.mpr ⟨r.map .text, List.map_append.symm⟩
  cases h with
  | moduleSlot only path wraps divided named =>
      refine assigned only (staticPath?_of_spellsPath path) (.inl rfl) ?_ wraps
      rw [ExportPath.slots_ofTexts named, divided]
  | slot only path nonempty wraps divided named =>
      refine assigned only (staticPath?_of_spellsPath path) (.inr ⟨rfl, by simpa using nonempty⟩) ?_
        wraps
      rw [ExportPath.slots_ofTexts named, divided]
  | whole only path wraps =>
      exact assigned (q := []) only (staticPath?_of_spellsPath path) (.inl rfl)
        (ExportPath.slots_ofTexts_default keys) wraps
  | @declared statement declaration declarator target value _ _ only kind child declares one id
      named init wraps other =>
      refine ⟨value, keys, ?_, wraps⟩
      obtain ⟨identifier, name'⟩ := name_of_isNamed named
      have binds : declarator.declaresVariable (.text name) := by
        simp [declaresVariable, id, identifier, name', Value.beq_text_eq, Value.text?]
      have given : statement.declaredExport (.ofTexts name keys) =
          [(some value, keys.map .text)] := by
        simp only [declaredExport, child, if_pos declares, one, ExportPath.ofTexts]
        rw [List.filter_cons_of_pos binds, List.filter_nil, List.map_singleton, init]
      rw [only.exports_eq (by simp [isExport, kind])]
      simp only [exportedAt, kind, given]
  | @default statement value _ only kind child wraps =>
      refine ⟨value, keys, ?_, wraps⟩
      rw [only.exports_eq (by simp [isExport, kind])]
      simp only [exportedAt, kind, child]
      rfl

end Node

/-- All spellings of an export are the same: whichever way a module gives a literal to an export and
the keys below it, the lookup of the export in that module gives one site, the literal in the
module's file. -/
theorem Enter.hops_of_spellsExport {s : Session} {target : Path} {unit : SourceUnit}
    {literal : Node} {span : Option Span} {name : Text} {keys : List Text}
    (loaded : s.answer target = .ok (some unit)) (plain : literal.IsPlainLiteral)
    (placed : literal.span? = .ok span)
    (spelled : Node.SpellsExport literal unit.tree name keys) (depth : Nat) :
    (Enter.hops Run.loadModule (depth + 1) target (.ofTexts name keys)).result s =
      .ok [Site.literal unit.path span literal.value] := by
  obtain ⟨value, rest, exported, wraps⟩ := Node.exists_exports_of_spellsExport spelled
  have origin : Node.originOf (some value) (rest.map .text) =
      .ok (.literal literal.value literal) :=
    Node.origin_of_wraps plain wraps
  have answer := (Run.loadModule_eq target s).1.trans loaded
  refine Run.result_bind_eq_ok_iff.mpr ⟨some unit, answer, ?_⟩
  refine Run.result_raise_bind_eq_ok_iff.mpr ⟨_, exported, ?_⟩
  refine Run.result_raise_bind_eq_ok_iff.mpr ⟨_, origin, ?_⟩
  refine Run.result_bind_eq_ok_iff.mpr ⟨[Site.literal unit.path span literal.value], ?_, rfl⟩
  exact Run.result_raise_bind_eq_ok_iff.mpr ⟨span, placed, rfl⟩

namespace Sample

/-- `"key": value` in an object literal. -/
def quotedProperty (key : Text) (value : Value) : Value :=
  node .property [("key", text key), ("computed", .bool false), ("value", value)]

/-- `module.exports.db = { port: "PORT", "name": { first: "DB", last: "DC" } }`. -/
def config : SourceUnit where
  path := "/config.js"
  source := []
  tree := program [statement (assignment (member (member (name "module") "exports") "db")
    (object [property "port" (text "PORT"),
      quotedProperty "name" (object [property "first" (text "DB"), property "last" (text "DC")])]))]

/-- A session that knows `config`. -/
def configured : Session :=
  ⟨{ entries := [], cwd := "/" }, Cache.empty.add config.path config⟩

theorem config_spells : ∃ literal : Node, literal.IsPlainLiteral ∧ literal.span? = .ok none ∧
    literal.value = .text "DB" ∧ Node.SpellsExport literal config.tree "db" ["name", "first"] := by
  have different : ∀ {s t : Text}, s ≠ t → Value.text s ≠ .text t := by
    rintro s t other ⟨⟩
    exact other rfl
  refine ⟨Node.make Kind.literal.tag [("value", .text "DB")], ⟨rfl, rfl⟩, rfl, rfl, ?_⟩
  refine .moduleSlot (q := ["db"]) (r := ["name", "first"])
    ⟨_, _, ⟨rfl, rfl⟩, rfl, rfl, rfl, rfl, rfl⟩ ?_ ?_ rfl (by decide)
  · exact @Node.SpellsPath.member _ _ _ ["exports"] "db" rfl rfl
      (@Node.SpellsPath.member _ _ _ [] "exports" rfl rfl (.root rfl)
        ⟨_, rfl, .inl ⟨rfl, rfl⟩⟩) ⟨_, rfl, .inl ⟨rfl, rfl⟩⟩
  · refine @Node.Wraps.inside _ _ _ _ [_] [] "name" ["first"] rfl rfl rfl
      ⟨_, rfl, .inr ⟨rfl, rfl⟩⟩ rfl ?_ ?_
    · exact List.forall_mem_singleton.mpr ⟨rfl, .text "port", rfl, different (by decide)⟩
    · refine @Node.Wraps.inside _ _ _ _ [] [_] "first" [] rfl rfl rfl
        ⟨_, rfl, .inl ⟨rfl, rfl⟩⟩ rfl ?_ .here
      exact List.forall_mem_singleton.mpr ⟨rfl, .text "last", rfl, different (by decide)⟩

end Sample

open Sample in
/-- An export that is divided between an assignment and an object literal. -/
theorem Enter.hops_of_spellsExport_divided : ∃ literal : Node,
    configured.answer config.path = .ok (some config) ∧ literal.IsPlainLiteral ∧
      literal.value = .text "DB" ∧
      Node.SpellsExport literal config.tree "db" ["name", "first"] ∧
      (Enter.hops Run.loadModule 1 config.path
        (.ofTexts "db" ["name", "first"])).result configured =
        .ok [Site.literal config.path none (.text "DB")] := by
  have loaded : configured.answer config.path = .ok (some config) := rfl
  obtain ⟨literal, plain, placed, value, spelled⟩ := config_spells
  refine ⟨literal, loaded, plain, value, spelled, ?_⟩
  rw [Enter.hops_of_spellsExport loaded plain placed spelled 0, value]

end EnvReads
