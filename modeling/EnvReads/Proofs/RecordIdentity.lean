import EnvReads.Proofs.NameSoundness

/-!
# What a record is about

A literal key, or a name that is not computed, names the variable by itself. For any other key the
chain of its declarations decides (`Determines`): it gives a name if no site is unresolved, every
literal in it names something, and all of them have that one name. This depends on which sites there
are, but not on their order or number, nor on module references. What is left has the access path of
its key.

A record cannot always be made: an integer can have too many digits to be written, in the key or in
the part of the chain that counts (`Candidate.Fails`).
-/

namespace EnvReads

/-! ## The name that a chain gives -/

namespace Site

/-- A site after which the chain does not count: it is unresolved, or a literal that names
nothing. -/
def isFinal (site : Site) : Bool :=
  match site.kind with
  | .unresolved => true
  | .literal v => !v.isNaming
  | .moduleReference => false

/-- A number that names something but cannot be written. -/
def isTooLong (site : Site) : Bool :=
  match site.kind with
  | .literal v => v.isNaming && !v.isWritable
  | _ => false

/-- The text of a literal. -/
def literalText? (site : Site) : Option Text :=
  match site.kind with
  | .literal v => some v.literalText
  | _ => none

end Site

/-- The chain gives the name. -/
structure Determines (chain : List Site) (name : Text) : Prop where
  resolved : ∀ site ∈ chain, site.kind ≠ .unresolved
  naming : ∀ site ∈ chain, ∀ v, site.kind = .literal v → v.isNaming
  given : ∃ site ∈ chain, ∃ v, site.kind = .literal v
  agreed : ∀ site ∈ chain, ∀ v, site.kind = .literal v → v.literalText = name

theorem Site.isFinal_eq_false_iff {site : Site} : site.isFinal = false ↔
    site.kind ≠ .unresolved ∧ ∀ v, site.kind = .literal v → v.isNaming := by
  rw [isFinal]
  cases site.kind <;> simp

/-- The text of a literal is the name that the site gives. -/
theorem Site.literalText?_eq_some_iff {site : Site} {name : Text} :
    site.literalText? = some name ↔ site.Gives name := by
  rw [literalText?, Gives]
  cases site.kind <;> simp

/-- A chain gives a name if no site is final and the literals have that one text. -/
theorem determines_iff {chain : List Site} {name : Text} :
    Determines chain name ↔ (∀ site ∈ chain, site.isFinal = false) ∧
      chain.filterMap Site.literalText? ≠ [] ∧
      ∀ other ∈ chain.filterMap Site.literalText?, other = name := by
  constructor
  · intro h
    refine ⟨fun site mem => ?_, ?_, ?_⟩
    · exact Site.isFinal_eq_false_iff.mpr ⟨h.resolved site mem, h.naming site mem⟩
    · obtain ⟨site, mem, v, kind⟩ := h.given
      have given := Site.literalText?_eq_some_iff.mpr ⟨v, kind, rfl⟩
      exact List.ne_nil_of_mem (List.mem_filterMap.mpr ⟨site, mem, given⟩)
    · intro other listed
      obtain ⟨site, mem, given⟩ := List.mem_filterMap.mp listed
      obtain ⟨v, kind, rfl⟩ := Site.literalText?_eq_some_iff.mp given
      exact h.agreed site mem v kind
  · rintro ⟨open', named, agreed⟩
    refine ⟨fun site mem => ?_, fun site mem => ?_, ?_, fun site mem v kind => ?_⟩
    · exact (Site.isFinal_eq_false_iff.mp (open' site mem)).1
    · exact (Site.isFinal_eq_false_iff.mp (open' site mem)).2
    · obtain ⟨other, mem⟩ := List.exists_mem_of_ne_nil _ named
      obtain ⟨site, mem, given⟩ := List.mem_filterMap.mp mem
      obtain ⟨v, kind, -⟩ := Site.literalText?_eq_some_iff.mp given
      exact ⟨site, mem, v, kind⟩
    · have given := Site.literalText?_eq_some_iff.mpr ⟨v, kind, rfl⟩
      exact agreed _ (List.mem_filterMap.mpr ⟨site, mem, given⟩)

/-- The names of a chain are found unless a number is too long, among the sites that count. -/
theorem isOk_literalNames?_iff {chain : List Site} :
    (literalNames? chain).isOk ↔ ¬(chain.takeWhile (!·.isFinal)).any Site.isTooLong := by
  induction chain with
  | nil => exact iff_of_true rfl (by simp)
  | cons site rest ih =>
      rw [literalNames?, List.takeWhile_cons]
      cases kind : site.kind with
      | unresolved =>
          have final : site.isFinal = true := by rw [Site.isFinal, kind]
          simp [final]
      | moduleReference =>
          have final : site.isFinal = false := by rw [Site.isFinal, kind]
          have long : site.isTooLong = false := by rw [Site.isTooLong, kind]
          simp [final, long, ih]
      | literal v =>
          cases naming : v.isNaming with
          | false =>
              have final : site.isFinal = true := by simp only [Site.isFinal, kind, naming]; rfl
              simp [final, naming]
          | true =>
              have final : site.isFinal = false := by simp only [Site.isFinal, kind, naming]; rfl
              have long : site.isTooLong = !v.isWritable := by
                simp only [Site.isTooLong, kind, naming, Bool.true_and]
              simp only [if_pos naming, Value.writable]
              cases written : v.isWritable with
              | false => simp [final, long, written, bind, Except.bind]
              | true =>
                  have later : (do
                      let names ← literalNames? rest
                      return names.map (v.literalText :: ·)).isOk ↔ (literalNames? rest).isOk := by
                    cases literalNames? rest <;> exact Iff.rfl
                  refine later.trans (ih.trans ?_)
                  simp [final, long, written]

/-- Either the whole chain counts and its names are the texts of its literals, or there are none. -/
theorem literalNames?_eq {chain : List Site} {names : Option (List Text)}
    (h : literalNames? chain = .ok names) :
    names = if chain.any Site.isFinal then none else some (chain.filterMap Site.literalText?) := by
  induction chain generalizing names with
  | nil =>
      cases h
      rfl
  | cons site rest ih =>
      rw [literalNames?] at h
      split at h
      · next kind =>
          cases h
          simp [Site.isFinal, kind]
      · next kind =>
          rw [ih h]
          simp [Site.isFinal, Site.literalText?, kind]
      · next v kind =>
          split at h
          · next naming =>
              obtain ⟨w, written, h⟩ := Except.bind_eq_ok_iff.mp h
              obtain ⟨more, later, h⟩ := Except.bind_eq_ok_iff.mp h
              cases h
              rw [ih later, Value.eq_of_writable written]
              split
              · next final => simp [final]
              · next open' => simp [Site.isFinal, Site.literalText?, kind, naming, open']
          · next other =>
              cases h
              simp [Site.isFinal, kind, other]

theorem eraseDups_eq_singleton_iff {names : List Text} {name : Text} :
    names.eraseDups = [name] ↔ names ≠ [] ∧ ∀ other ∈ names, other = name := by
  constructor
  · intro single
    refine ⟨?_, fun other mem => ?_⟩
    · rintro rfl
      cases single
    · rwa [← List.mem_eraseDups, single, List.mem_singleton] at mem
  · rintro ⟨nonempty, same⟩
    obtain ⟨first, rest, rfl⟩ := List.exists_cons_of_ne_nil nonempty
    obtain ⟨rfl, later⟩ := List.forall_mem_cons.mp same
    have alike : rest.filter (fun other => !other == first) = [] := by
      rw [List.filter_eq_nil_iff]
      intro other mem
      simp [later other mem]
    rw [List.eraseDups_cons, alike]
    rfl

/-- A chain can be read unless a number that counts is too long. -/
theorem isOk_resolvedName?_iff {chain : List Site} :
    (resolvedName? chain).isOk ↔ ¬(chain.takeWhile (!·.isFinal)).any Site.isTooLong := by
  rw [← isOk_literalNames?_iff, resolvedName?, Except.isOk_bind_iff, ← Except.exists_eq_ok_iff]
  refine exists_congr fun names => and_iff_left ?_
  split <;> rfl

/-- A chain whose name can be looked for gives a name exactly if it determines it. -/
theorem resolvedName?_eq_some_iff {chain : List Site} {found : Option Text}
    (h : resolvedName? chain = .ok found) {name : Text} :
    found = some name ↔ Determines chain name := by
  obtain ⟨names, gathered, h⟩ := Except.bind_eq_ok_iff.mp h
  have single : found = some name ↔ names.map List.eraseDups = some [name] := by
    split at h
    · next only same =>
        cases h
        rw [same]
        simp
    · next other =>
        cases h
        simpa using other name
  rw [single, literalNames?_eq gathered, determines_iff]
  split
  · next final =>
      obtain ⟨site, mem, final⟩ := List.any_eq_true.mp final
      exact iff_of_false (by simp) fun h => Bool.false_ne_true ((h.1 site mem).symm.trans final)
  · next open' =>
      rw [Option.map_some, Option.some_inj, eraseDups_eq_singleton_iff]
      refine (and_iff_right fun site mem => ?_).symm
      exact Bool.eq_false_iff.mpr fun final => open' (List.any_eq_true.mpr ⟨site, mem, final⟩)

/-- A chain gives at most one name. -/
theorem Determines.unique {chain : List Site} {name other : Text} (h : Determines chain name)
    (h' : Determines chain other) : name = other := by
  obtain ⟨site, mem, v, kind⟩ := h.given
  exact (h.agreed site mem v kind).symm.trans (h'.agreed site mem v kind)

/-! ## Chains with the same evidence -/

/-- The same sites stand in both chains, module references apart. -/
def SameEvidence (chain chain' : List Site) : Prop :=
  ∀ site : Site, site.kind ≠ .moduleReference → (site ∈ chain ↔ site ∈ chain')

theorem SameEvidence.symm {chain chain' : List Site} (h : SameEvidence chain chain') :
    SameEvidence chain' chain :=
  fun site counts => (h site counts).symm

/-- A chain with the same evidence gives the same name. -/
theorem Determines.of_sameEvidence {chain chain' : List Site} {name : Text}
    (same : SameEvidence chain chain') (h : Determines chain name) : Determines chain' name := by
  have literal : ∀ site v, site.kind = .literal v → (site ∈ chain ↔ site ∈ chain') :=
    fun site v kind => same site (by simp [kind])
  refine ⟨fun site mem kind => ?_, fun site mem v kind => ?_, ?_, fun site mem v kind => ?_⟩
  · exact h.resolved site ((same site (by simp [kind])).mpr mem) kind
  · exact h.naming site ((literal site v kind).mpr mem) v kind
  · obtain ⟨site, mem, v, kind⟩ := h.given
    exact ⟨site, (literal site v kind).mp mem, v, kind⟩
  · exact h.agreed site ((literal site v kind).mpr mem) v kind

/-- Chains with the same evidence give the same names. -/
theorem determines_congr {chain chain' : List Site} (same : SameEvidence chain chain')
    (name : Text) : Determines chain name ↔ Determines chain' name :=
  ⟨.of_sameEvidence same, .of_sameEvidence same.symm⟩

/-- They have the same numbers that are too long. -/
theorem isTooLong_of_sameEvidence {chain chain' : List Site} (same : SameEvidence chain chain')
    (short : ∀ site ∈ chain, ¬site.isTooLong) : ∀ site ∈ chain', ¬site.isTooLong := by
  intro site mem long
  refine short site ((same site ?_).mpr mem) long
  intro kind
  simp [Site.isTooLong, kind] at long

theorem isOk_resolvedName?_of_short {chain : List Site} (short : ∀ site ∈ chain, ¬site.isTooLong) :
    (resolvedName? chain).isOk := by
  rw [isOk_resolvedName?_iff, List.any_eq_true]
  rintro ⟨site, mem, long⟩
  exact short site ((List.takeWhile_sublist _).mem mem) long

/-- Where every number can be written, chains with the same evidence give the same. -/
theorem resolvedName?_congr {chain chain' : List Site} (same : SameEvidence chain chain')
    (short : ∀ site ∈ chain, ¬site.isTooLong) : resolvedName? chain' = resolvedName? chain := by
  obtain ⟨found, h⟩ := Except.isOk_iff.mp (isOk_resolvedName?_of_short short)
  obtain ⟨found', h'⟩ :=
    Except.isOk_iff.mp (isOk_resolvedName?_of_short (isTooLong_of_sameEvidence same short))
  have agree : found' = found := by
    refine Option.ext fun name => ?_
    rw [resolvedName?_eq_some_iff h', resolvedName?_eq_some_iff h, determines_congr same]
  rw [h, h', agree]

/-! ## The path of a key -/

/-- Whether a value is read as an offset. -/
def Value.isOffset : Value → Bool
  | null | int _ | bool _ => true
  | _ => false

theorem Value.isOk_writable_iff {v : Value} : v.writable.isOk ↔ v.isWritable := by
  rw [writable]
  cases v.isWritable <;> simp

namespace Node

/-- An offset can be read if it is a number or missing. -/
theorem isOk_index_iff {default : Int} {v : Value} : (index default v).isOk ↔ v.isOffset := by
  cases v <;> simp [index, Value.isOffset]

/-- The nodes that the text of an access chain is put together from. -/
def pathParts (n : Node) : List Node :=
  if n.kind = .memberExpression then
    match _ho : n.child? "object", _hp : n.child? "property" with
    | some object, some property => pathParts object ++ pathParts property
    | _, _ => [n]
  else
    [n]
termination_by sizeOf n.fields
decreasing_by
  · exact sizeOf_child?_lt _ho
  · exact sizeOf_child?_lt _hp

/-- Whether a part of an access chain has a text: a literal must be writable, and what is shown by
its source must have offsets that are numbers. -/
def isShowable (n : Node) : Bool :=
  match n.kind with
  | .identifier | .thisExpression => true
  | .literal => n.value.isWritable
  | _ => (Span.range? n.fields).all fun range => range.1.isOffset && range.2.isOffset

/-- The source of a node can be cut out if its range has offsets that can be read. -/
theorem isOk_textIn?_iff {n : Node} {source : Text} :
    (n.textIn? source).isOk ↔
      (Span.range? n.fields).all fun range => range.1.isOffset && range.2.isOffset := by
  rw [textIn?]
  split
  · next unplaced => exact iff_of_true rfl (by rw [unplaced]; rfl)
  · next start stop range =>
      rw [range, Option.all_some, Bool.and_eq_true]
      simp only [Except.isOk_bind_iff, Except.isOk_pure, and_true, exists_and_right,
        Except.exists_eq_ok_iff, isOk_index_iff]

theorem isOk_sourceText_iff {n : Node} {source : Text} :
    (n.sourceText (some source)).isOk ↔ (n.textIn? source).isOk := by
  rw [sourceText, Except.isOk_bind_iff, ← Except.exists_eq_ok_iff, Option.elim_some]
  refine exists_congr fun cut => and_iff_left ?_
  split <;> rfl

theorem pathParts_of_ne {n : Node} (other : n.kind ≠ .memberExpression) : n.pathParts = [n] := by
  rw [pathParts, if_neg other]

/-- What stands for an access chain can be written exactly if each of its parts can be shown. -/
theorem isOk_accessPath_iff {n : Node} {source : Text} :
    (n.accessPath (some source)).isOk ↔ ∀ m ∈ n.pathParts, m.isShowable := by
  fun_induction accessPath (some source) n with
  | case1 n kind | case2 n kind =>
      rw [pathParts_of_ne (by simp [kind])]
      simp [isShowable, kind]
  | case3 n kind =>
      rw [pathParts_of_ne (by simp [kind]), List.forall_mem_singleton, isShowable, kind,
        Except.isOk_map, Value.isOk_writable_iff]
  | case4 n kind object property before last ih ih' =>
      have parts : n.pathParts = object.pathParts ++ property.pathParts := by
        rw [pathParts, if_pos kind]
        split
        · next found found' =>
            cases before.symm.trans found
            cases last.symm.trans found'
            rfl
        · next other => exact absurd last (other _ _ before)
      rw [parts, List.forall_mem_append, ← ih, ← ih']
      simp only [Except.isOk_bind_iff, Except.isOk_pure, and_true, exists_and_right,
        Except.exists_eq_ok_iff]
  | case5 n kind other =>
      have parts : n.pathParts = [n] := by
        rw [pathParts, if_pos kind]
        split
        · next found found' => exact absurd found' (other _ _ found)
        · rfl
      rw [parts, List.forall_mem_singleton, isShowable, kind, Except.isOk_map,
        isOk_sourceText_iff, isOk_textIn?_iff]
  | case6 n identifier this literal member =>
      rw [pathParts_of_ne member, List.forall_mem_singleton, Except.isOk_map, isOk_sourceText_iff,
        isOk_textIn?_iff, isShowable]
      split
      · next kind => exact absurd kind identifier
      · next kind => exact absurd kind this
      · next kind => exact absurd kind literal
      · rfl

/-- What stands for an access chain is never null, unless its only part is an identifier without a
name. -/
theorem present?_of_accessPath {n : Node} {source : Option Text} {v : Value}
    (named : n.isIdentifier → n.name.text?.isSome) (h : n.accessPath source = .ok v) :
    v.present? = some v := by
  rw [accessPath] at h
  split at h
  · next kind =>
      obtain ⟨t, text⟩ := Option.isSome_iff_exists.mp (named (decide_eq_true kind))
      cases h
      rw [Value.eq_text_of_text? text]
      rfl
  · cases h
    rfl
  · obtain ⟨w, -, rfl⟩ := Except.map_eq_ok_iff.mp h
    rfl
  · split at h
    · obtain ⟨head, -, h⟩ := Except.bind_eq_ok_iff.mp h
      obtain ⟨key, -, h⟩ := Except.bind_eq_ok_iff.mp h
      cases h
      rfl
    · obtain ⟨t, -, rfl⟩ := Except.map_eq_ok_iff.mp h
      rfl
  · obtain ⟨t, -, rfl⟩ := Except.map_eq_ok_iff.mp h
    rfl

end Node

/-! ## Records -/

namespace Candidate

/-- The record of a read cannot be made: its literal key cannot be written, or a literal that counts
in the chain, or a part of the path that the record would be about. -/
inductive Fails (c : Candidate) (chain : List Site) : Prop
  | key : c.key.kind = .literal → ¬c.key.value.isWritable → Fails c chain
  | site {site : Site} : ¬c.hasLiteralKey → site ∈ chain.takeWhile (!·.isFinal) →
      site.isTooLong → Fails c chain
  | path {m : Node} : ¬c.hasLiteralKey → (∀ name, ¬Determines chain name) →
      m ∈ c.key.pathParts → ¬m.isShowable → Fails c chain

variable {c : Candidate} {source : Text} {chain chain' : List Site} {identity : Identity}

/-- A literal key is the name itself, if it can be written. -/
theorem identify_of_literal (kind : c.key.kind = .literal) :
    c.identify source chain =
      c.key.value.writable.map fun v => .name (.text v.literalText) := by
  have other : ¬c.key.isIdentifier := by simp [Node.isIdentifier, kind]
  rw [identify, if_pos (by simp [hasLiteralKey, kind]), literalName, if_neg other]
  cases c.key.value.writable <;> rfl

/-- The same evidence identifies the same variable. -/
theorem identify_congr (same : SameEvidence chain chain')
    (short : ∀ site ∈ chain, ¬site.isTooLong) :
    c.identify source chain' = c.identify source chain := by
  rw [identify, identify, resolvedName?_congr same short]

section

variable (named : c.key.isIdentifier → c.key.name.text?.isSome)

include named

/-- A key after a dot is the name itself. -/
theorem identify_of_identifier (identifier : c.key.isIdentifier) (plain : ¬c.computed) :
    c.identify source chain = .ok (.name c.key.name) := by
  obtain ⟨t, text⟩ := Option.isSome_iff_exists.mp (named identifier)
  rw [identify, if_pos (by simp [hasLiteralKey, identifier, plain]), literalName,
    if_pos identifier, Value.eq_text_of_text? text]
  rfl

/-- A key that does not name its variable by itself: the chain decides, and what it does not decide
is about the path of the key. -/
theorem identify_of_computed (computed : ¬c.hasLiteralKey) :
    c.identify source chain = resolvedName? chain >>= fun found =>
      found.elim ((c.key.accessPath (some source)).map .computed) fun name =>
        .ok (.name (.text name)) := by
  rw [identify, if_neg computed]
  refine congrArg _ (funext fun found => ?_)
  cases found with
  | some name => rfl
  | none =>
      cases shown : c.key.accessPath (some source) with
      | error fault => rfl
      | ok path =>
          have present := Node.present?_of_accessPath named shown
          change Identity.ofParts .null path = .ok (.computed path)
          rw [Identity.ofParts, present]
          rfl

/-- With a literal key only writing it can fail. -/
theorem isOk_identify_of_hasLiteralKey (self : c.hasLiteralKey) :
    (c.identify source chain).isOk ↔ (c.key.kind = .literal → c.key.value.isWritable) := by
  by_cases literal : c.key.kind = .literal
  · rw [identify_of_literal literal, Except.isOk_map, Value.isOk_writable_iff]
    exact (imp_iff_right literal).symm
  · have key : ¬c.computed ∧ c.key.isIdentifier := by simpa [hasLiteralKey, literal] using self
    rw [identify_of_identifier named key.2 key.1]
    exact iff_of_true rfl fun kind => absurd kind literal

/-- With a computed key reading the chain can fail, and so can the path if there is no name. -/
theorem isOk_identify_of_computed (computed : ¬c.hasLiteralKey) :
    (c.identify source chain).isOk ↔
      (∀ site ∈ chain.takeWhile (!·.isFinal), ¬site.isTooLong) ∧
        ((∀ name, ¬Determines chain name) → ∀ m ∈ c.key.pathParts, m.isShowable) := by
  have counted : (resolvedName? chain).isOk ↔
      ∀ site ∈ chain.takeWhile (!·.isFinal), ¬site.isTooLong := by
    rw [isOk_resolvedName?_iff, List.any_eq_true]
    exact ⟨fun unspelled site mem long => unspelled ⟨site, mem, long⟩,
      fun short spelled => spelled.elim fun site h => short site h.1 h.2⟩
  rw [identify_of_computed named computed, Except.isOk_bind_iff, ← counted,
    ← Except.exists_eq_ok_iff, ← exists_and_right]
  refine exists_congr fun found => and_congr_right fun gives => ?_
  cases found with
  | some name =>
      have given := (resolvedName?_eq_some_iff gives).mp rfl
      exact iff_of_true rfl fun unnamed => absurd given (unnamed name)
  | none =>
      rw [Option.elim_none, Except.isOk_map, Node.isOk_accessPath_iff]
      refine (imp_iff_right fun name given => ?_).symm
      cases (resolvedName?_eq_some_iff gives).mpr given

/-- A record can be made exactly if nothing that it needs to write is in the way. -/
theorem isOk_identify_iff : (c.identify source chain).isOk ↔ ¬c.Fails chain := by
  by_cases self : c.hasLiteralKey
  · rw [isOk_identify_of_hasLiteralKey named self]
    constructor
    · rintro written (⟨literal, long⟩ | ⟨computed, -, -⟩ | ⟨computed, -, -, -⟩)
      · exact long (written literal)
      · exact computed self
      · exact computed self
    · intro made literal
      exact Decidable.of_not_not fun long => made (.key literal long)
  · rw [isOk_identify_of_computed named self]
    constructor
    · rintro ⟨short, shown⟩ (⟨literal, -⟩ | ⟨-, counts, long⟩ | ⟨-, unnamed, mem, hidden⟩)
      · exact self (by simp [hasLiteralKey, literal])
      · exact short _ counts long
      · exact hidden (shown unnamed _ mem)
    · intro made
      refine ⟨fun site counts long => made (.site self counts long), fun unnamed m mem => ?_⟩
      exact Decidable.of_not_not fun hidden => made (.path self unnamed mem hidden)

/-- The identity of a computed key is the name that the chain gives, or else its path. -/
theorem identity_of_computed (computed : ¬c.hasLiteralKey)
    (h : c.identify source chain = .ok identity) :
    (∃ name, Determines chain name ∧ identity = .name (.text name)) ∨
      (∀ name, ¬Determines chain name) ∧
        ∃ path, c.key.accessPath (some source) = .ok path ∧ identity = .computed path := by
  rw [identify_of_computed named computed] at h
  obtain ⟨found, gives, h⟩ := Except.bind_eq_ok_iff.mp h
  cases found with
  | some name =>
      cases h
      exact .inl ⟨name, (resolvedName?_eq_some_iff gives).mp rfl, rfl⟩
  | none =>
      obtain ⟨path, shown, rfl⟩ := Except.map_eq_ok_iff.mp h
      refine .inr ⟨fun name given => ?_, path, shown, rfl⟩
      cases (resolvedName?_eq_some_iff gives).mpr given

/-- With a computed key the chain gives the name. Without a name, the record is about the path. -/
theorem name_of_computed (computed : ¬c.hasLiteralKey)
    (h : c.identify source chain = .ok identity) :
    (∀ v, identity = .name v ↔ ∃ name, v = .text name ∧ Determines chain name) ∧
      ((∀ name, ¬Determines chain name) → ∃ path,
        c.key.accessPath (some source) = .ok path ∧ identity = .computed path) := by
  obtain ⟨name, given, rfl⟩ | ⟨unnamed, path, shown, rfl⟩ := identity_of_computed named computed h
  · refine ⟨fun v => ⟨?_, ?_⟩, fun unnamed => absurd given (unnamed name)⟩
    · rintro ⟨⟩
      exact ⟨name, rfl, given⟩
    · rintro ⟨other, rfl, given'⟩
      rw [given.unique given']
  · refine ⟨fun v => ⟨?_, ?_⟩, fun _ => ⟨path, shown, rfl⟩⟩
    · rintro ⟨⟩
    · rintro ⟨name, -, given⟩
      exact absurd given (unnamed name)

/-- Two chains with the same evidence never give different identities. -/
theorem identity_congr (same : SameEvidence chain chain') {identity' : Identity}
    (h : c.identify source chain = .ok identity)
    (h' : c.identify source chain' = .ok identity') : identity' = identity := by
  by_cases self : c.hasLiteralKey
  · rw [identify, if_pos self] at h h'
    exact Except.ok.inj (h'.symm.trans h)
  obtain ⟨name, given, rfl⟩ | ⟨unnamed, path, shown, rfl⟩ := identity_of_computed named self h
  · obtain ⟨name', given', rfl⟩ | ⟨unnamed', -⟩ := identity_of_computed named self h'
    · rw [given'.unique (.of_sameEvidence same given)]
    · exact absurd (.of_sameEvidence same given) (unnamed' name)
  · obtain ⟨name', given', rfl⟩ | ⟨-, path', shown', rfl⟩ := identity_of_computed named self h'
    · exact absurd (.of_sameEvidence same.symm given') (unnamed name')
    · rw [Except.ok.inj (shown'.symm.trans shown)]

end

end Candidate

namespace Record

variable {c : Candidate} {file : Path} {source : Text} {chain : List Site} {warnings : List Text}

/-- A record can be made if the variable can be identified. -/
theorem isOk_ofCandidate :
    (ofCandidate file source c chain warnings).isOk = (c.identify source chain).isOk := by
  rw [ofCandidate]
  cases c.identify source chain <;> rfl

/-- The identity of a record is that of the variable. -/
theorem identify_of_ofCandidate {r : Record}
    (h : ofCandidate file source c chain warnings = .ok r) :
    c.identify source chain = .ok r.identity := by
  obtain ⟨identity, gives, h⟩ := Except.bind_eq_ok_iff.mp h
  cases h
  exact gives

/-- A record is made unless something that it has to write cannot be written. The record of a
literal key, or of a name that is not computed, has that name whatever the chain; any other one has
the name that the chain determines, and if there is none the path of its key. Chains with the same
sites, module references apart, never give different identities. -/
theorem ofCandidate_identity (c : Candidate)
    (named : c.key.isIdentifier → c.key.name.text?.isSome) (file : Path) (source : Text)
    (chain : List Site) (warnings : List Text) :
    ((ofCandidate file source c chain warnings).isOk ↔ ¬c.Fails chain) ∧
      (∀ r, ofCandidate file source c chain warnings = .ok r →
        (c.key.kind = .literal → r.identity = .name (.text c.key.value.literalText)) ∧
        (c.key.isIdentifier → ¬c.computed → r.identity = .name c.key.name) ∧
        (¬c.hasLiteralKey →
          (∀ v, r.identity = .name v ↔ ∃ name, v = .text name ∧ Determines chain name) ∧
          ((∀ name, ¬Determines chain name) → ∃ path,
            c.key.accessPath (some source) = .ok path ∧ r.identity = .computed path))) ∧
      ∀ chain', SameEvidence chain chain' →
        (∀ r r', ofCandidate file source c chain warnings = .ok r →
          ofCandidate file source c chain' warnings = .ok r' → r'.identity = r.identity) ∧
        ((∀ site ∈ chain, ¬site.isTooLong) →
          c.identify source chain' = c.identify source chain) := by
  refine ⟨?_, fun r made => ?_, fun chain' same => ⟨fun r r' made made' => ?_, fun short => ?_⟩⟩
  · rw [isOk_ofCandidate, Candidate.isOk_identify_iff named]
  · have identified := identify_of_ofCandidate made
    refine ⟨fun literal => ?_, fun identifier plain => ?_, fun computed => ?_⟩
    · rw [Candidate.identify_of_literal literal] at identified
      obtain ⟨v, written, same⟩ := Except.map_eq_ok_iff.mp identified
      rw [← same, Value.eq_of_writable written]
    · rw [Candidate.identify_of_identifier named identifier plain] at identified
      exact (Except.ok.inj identified).symm
    · exact Candidate.name_of_computed named computed identified
  · exact Candidate.identity_congr named same (identify_of_ofCandidate made)
      (identify_of_ofCandidate made')
  · exact Candidate.identify_congr same short

end Record

namespace Sample

/-- `process.env[key]`. -/
def computedRead : Candidate where
  node := .make Kind.memberExpression.tag []
  key := .make Kind.identifier.tag [("name", .text "key")]
  computed := true
  span := none

/-- A number and a text that are written alike, with a step into another module. -/
def oneNameChain : List Site := [
  .literal "/a.js" none (.int 1),
  .moduleReference "/b.js",
  .literal "/b.js" none (.text "1")]

/-- The same literals in another order, one of them twice. -/
def shuffledChain : List Site := [
  .literal "/b.js" none (.text "1"),
  .literal "/a.js" none (.int 1),
  .moduleReference "/c.js",
  .literal "/b.js" none (.text "1")]

/-- The order of the chain, what is there twice and steps into modules do not count. -/
theorem sameEvidence_shuffledChain : SameEvidence oneNameChain shuffledChain := by
  intro site counts
  have other : ∀ path, site ≠ .moduleReference path := by
    rintro path rfl
    exact counts rfl
  simp only [oneNameChain, shuffledChain, List.mem_cons, List.not_mem_nil, other, false_or,
    or_false]
  exact ⟨fun h => h.symm.imp_right .inl, fun h => h.elim .inr fun later => later⟩

/-- `process.env[n]`. -/
def numberRead (n : Nat) : Candidate where
  node := .make Kind.memberExpression.tag []
  key := .make Kind.literal.tag [("value", .int n)]
  computed := true
  span := none

theorem kind_numberRead (n : Nat) : (numberRead n).key.kind = .literal := rfl

theorem value_numberRead (n : Nat) : (numberRead n).key.value = .int n := rfl

end Sample

namespace Record

/-- A number and a text that are written alike give one name, in any order. -/
theorem ofCandidate_identity_oneName : ∃ r,
    ofCandidate "/a.js" [] Sample.computedRead Sample.oneNameChain [] = .ok r ∧
      r.identity = .name (.text "1") ∧
      Sample.computedRead.identify [] Sample.shuffledChain = .ok r.identity := by
  have named : Sample.computedRead.key.name.text?.isSome := by decide +kernel
  obtain ⟨-, decided, stable⟩ := ofCandidate_identity Sample.computedRead (fun _ => named)
    "/a.js" [] Sample.oneNameChain []
  have given : Determines Sample.oneNameChain "1" := determines_iff.mpr (by decide +kernel)
  obtain ⟨r, made⟩ := Except.isOk_iff.mp
    (show (ofCandidate "/a.js" [] Sample.computedRead Sample.oneNameChain []).isOk by
      decide +kernel)
  have computed : ¬Sample.computedRead.hasLiteralKey := by decide +kernel
  have short : ∀ site ∈ Sample.oneNameChain, ¬site.isTooLong := by decide +kernel
  refine ⟨r, made, ?_, ?_⟩
  · exact (((decided r made).2.2 computed).1 (.text "1")).mpr ⟨"1", rfl, given⟩
  · rw [(stable _ Sample.sameEvidence_shuffledChain).2 short]
    exact identify_of_ofCandidate made

/-- There is no record for the least number that is too long to be written. -/
theorem not_always_made : ¬∀ (c : Candidate) (file : Path) (source : Text) (chain : List Site)
    (warnings : List Text), (c.key.isIdentifier → c.key.name.text?.isSome) →
      (ofCandidate file source c chain warnings).isOk := by
  intro made
  have kind := Sample.kind_numberRead (Nat.pow 10 Text.maxDigits)
  have fits := made (Sample.numberRead _) "/a.js" [] [] [] fun identifier => by
    rw [Node.isIdentifier, kind] at identifier
    cases identifier
  rw [isOk_ofCandidate, Candidate.identify_of_literal kind, Except.isOk_map,
    Value.isOk_writable_iff, Sample.value_numberRead, Value.isWritable, Int.natAbs_natCast,
    Text.fitsDigits_iff] at fits
  exact Nat.lt_irrefl _ fits

end Record

end EnvReads
