import EnvReads.Proofs.OriginTrace
import EnvReads.Proofs.NameSoundness
import EnvReads.Proofs.Sample
import EnvReads.Proofs.ScriptKeys
import EnvReads.Proofs.SearchOrder

/-!
# When a literal is certain

`Node.Evaluates` says what an expression can evaluate to, as far as its own text tells: members of
an object literal are inserted from left to right and later ones replace earlier ones, each under
the key that JavaScript gives it, a spread inserts anything, a property without a fixed key inserts
its value under any key, and what is not interpreted can be anything. A literal that is found for a
path is certain if every evaluation has it there. Two things can stand against that
(`Node.Exposed`): an object literal on the way has, after the property with the key, a member that
may put something else in its place; or the property that is followed is not the one that JavaScript
has under the key, and that one does not lead to the same literal.
-/

namespace EnvReads

/-- What an expression evaluates to: a plain value, or an object with its properties, the ones that
were inserted last first. -/
inductive Datum where
  | plain (v : Value)
  | object (properties : List (Value × Datum))

namespace Datum

/-- The value under a key among properties. -/
def find? (key : Value) (properties : List (Value × Datum)) : Option Datum :=
  (properties.find? (·.1 == key)).map Prod.snd

/-- What a path of property keys leads to, if it exists. -/
def at? : Datum → List Value → Option Datum
  | d, [] => some d
  | plain _, _ :: _ => none
  | object properties, key :: keys => (find? key properties).bind (·.at? keys)

@[simp] theorem find?_cons_of_same {k key : Value} (same : (k == key) = true) (d : Datum)
    (properties : List (Value × Datum)) : find? key ((k, d) :: properties) = some d := by
  simp [find?, same]

@[simp] theorem find?_cons_of_other {k key : Value} (other : (k == key) = false) (d : Datum)
    (properties : List (Value × Datum)) :
    find? key ((k, d) :: properties) = find? key properties := by
  simp [find?, other]

/-- An empty object has no plain value anywhere. -/
theorem at?_empty (keys : List Value) (v : Value) : (object []).at? keys ≠ some (plain v) := by
  cases keys with
  | nil => simp [at?]
  | cons key keys => simp [at?, find?]

end Datum

namespace Node

mutual

/-- `n.Evaluates d`: the value of the expression `n` can be `d`. -/
inductive Evaluates : Node → Datum → Prop
  | literal {n : Node} {v : Value} : n.literalValue? = .ok (some v) → Evaluates n (.plain v)
  | assignment {n : Node} {d : Datum} : n.isAssignment →
      (∀ right, n.child? "right" = some right → Evaluates right d) → Evaluates n d
  | object {n : Node} {properties : List (Value × Datum)} : n.kind = .objectExpression →
      Inserts [] (n.childrenOf "properties") properties → Evaluates n (.object properties)
  | unknown {n : Node} {d : Datum} : n.kind ≠ .objectExpression → ¬n.isAssignment →
      (∀ v, n.literalValue? ≠ .ok (some v)) → Evaluates n d

/-- `Inserts before members after`: the members of an object literal can turn the properties
`before` into `after`. -/
inductive Inserts : List (Value × Datum) → List Node → List (Value × Datum) → Prop
  | nil (properties : List (Value × Datum)) : Inserts properties [] properties
  | property {before after : List (Value × Datum)} {m : Node} {rest : List Node} {key : Value}
      {d : Datum} : m.kind = .property → (∀ k, m.scriptKey? = some k → key = k) →
      (∀ value, m.child? "value" = some value → Evaluates value d) →
      Inserts ((key, d) :: before) rest after → Inserts before (m :: rest) after
  | spread {before after more : List (Value × Datum)} {m : Node} {rest : List Node} :
      m.kind ≠ .property → Inserts (more ++ before) rest after → Inserts before (m :: rest) after

end

/-- Every evaluation has the path, with the plain value at its end. -/
def Certain (n : Node) (keys : List Value) (v : Value) : Prop :=
  ∀ d, n.Evaluates d → d.at? keys = some (.plain v)

/-- Whether a member of an object literal is a property with the given key. -/
def sets (key : Value) (m : Node) : Bool :=
  m.kind = .property && m.scriptKey?.any (· == key)

/-- The value that an object literal has under a key: that of the last property with it. -/
def scriptValue? (n : Node) (key : Value) : Option Node :=
  ((n.childrenOf "properties").filter (sets key)).getLast?.bind (·.child? "value")

/-- The members of an object literal after the last property with the given key, last first. -/
def laterMembers (n : Node) (key : Value) : List Node :=
  (n.childrenOf "properties").reverse.takeWhile (!·.sets key)

/-- A member of an object literal can put something else in the place of a property that leads by
`keys` to the literal `v`: a spread, or a property without a fixed key whose own value is not
certain to lead there. -/
def CanReplace (m : Node) (keys : List Value) (v : Value) : Prop :=
  m.kind ≠ .property ∨
    m.scriptKey? = none ∧ ∀ value, m.child? "value" = some value → ¬value.Certain keys v

/-- On the way along `keys` the property that is followed in some object literal is not the one that
JavaScript has there. -/
inductive Misread : Node → List Value → Prop
  | assignment {n right : Node} {keys : List Value} : n.isAssignment →
      n.child? "right" = some right → Misread right keys → Misread n keys
  | here {n value : Node} {key : Value} {keys : List Value} : n.kind = .objectExpression →
      n.propertyValue? key = .ok (some value) → n.scriptValue? key ≠ some value →
      Misread n (key :: keys)
  | inner {n value : Node} {key : Value} {keys : List Value} : n.kind = .objectExpression →
      n.propertyValue? key = .ok (some value) → Misread value keys → Misread n (key :: keys)

/-- On the way to the literal `v` some object literal has a member, after the property with the key,
that can put something else in its place, or has another property under the key than the one that is
followed, which is not certain to lead to the literal. -/
inductive Exposed (v : Value) : Node → List Value → Prop
  | assignment {n right : Node} {keys : List Value} : n.isAssignment →
      n.child? "right" = some right → Exposed v right keys → Exposed v n keys
  | replaced {n m : Node} {key : Value} {keys : List Value} : n.kind = .objectExpression →
      m ∈ n.laterMembers key → m.CanReplace keys v → Exposed v n (key :: keys)
  | misread {n value : Node} {key : Value} {keys : List Value} : n.kind = .objectExpression →
      n.propertyValue? key = .ok (some value) → n.scriptValue? key ≠ some value →
      (∀ other, n.scriptValue? key = some other → ¬other.Certain keys v) →
      Exposed v n (key :: keys)
  | inner {n value : Node} {key : Value} {keys : List Value} : n.kind = .objectExpression →
      n.propertyValue? key = .ok (some value) → n.scriptValue? key = some value →
      Exposed v value keys → Exposed v n (key :: keys)

/-! ## What expressions of a kind evaluate to -/

section

variable {n : Node} {d : Datum} {v : Value}

/-- A literal evaluates to its value only. -/
theorem evaluates_literal_iff (h : n.literalValue? = .ok (some v)) :
    n.Evaluates d ↔ d = .plain v := by
  constructor
  · intro evaluates
    cases evaluates with
    | literal found =>
        cases h.symm.trans found
        rfl
    | assignment assign => exact absurd assign (not_isAssignment_of_literalValue? h)
    | object object => rcases kind_of_literalValue? h with kind | kind <;> simp [kind] at object
    | unknown _ _ other => exact absurd h (other v)
  · rintro rfl
    exact .literal h

/-- An assignment evaluates to what its right side does. -/
theorem evaluates_assignment_iff {right : Node} (assign : n.isAssignment)
    (child : n.child? "right" = some right) : n.Evaluates d ↔ right.Evaluates d := by
  constructor
  · intro evaluates
    cases evaluates with
    | literal found => exact absurd assign (not_isAssignment_of_literalValue? found)
    | assignment _ evaluates => exact evaluates right child
    | object object => simp [kind_of_isAssignment assign] at object
    | unknown _ other => exact absurd assign other
  · intro evaluates
    refine .assignment assign ?_
    intro right' child'
    cases child.symm.trans child'
    exact evaluates

/-- An object literal evaluates to what its members insert. -/
theorem evaluates_object_iff (object : n.kind = .objectExpression) : n.Evaluates d ↔
    ∃ properties, d = .object properties ∧ Inserts [] (n.childrenOf "properties") properties := by
  constructor
  · intro evaluates
    cases evaluates with
    | literal found => rcases kind_of_literalValue? found with kind | kind <;> simp [kind] at object
    | assignment assign => simp [kind_of_isAssignment assign] at object
    | object _ inserted => exact ⟨_, rfl, inserted⟩
    | unknown other => exact absurd object other
  · rintro ⟨properties, rfl, inserted⟩
    exact .object object inserted

end

/-! ## Every expression has a value -/

section

variable {m : Node}

/-- A property inserts under its fixed key, or else under any. -/
theorem exists_key (m : Node) (fallback : Value) :
    ∃ key, (∀ k, m.scriptKey? = some k → key = k) ∧ (m.scriptKey? = none → key = fallback) := by
  cases m.scriptKey? with
  | none => exact ⟨fallback, by simp, fun _ => rfl⟩
  | some k => exact ⟨k, by simp, by simp⟩

theorem exists_value (h : ∀ value, m.child? "value" = some value → ∃ d, value.Evaluates d) :
    ∃ d, ∀ value, m.child? "value" = some value → value.Evaluates d := by
  cases child : m.child? "value" with
  | none => exact ⟨.object [], by simp⟩
  | some value =>
      obtain ⟨d, evaluates⟩ := h value child
      refine ⟨d, ?_⟩
      rintro value' ⟨⟩
      exact evaluates

end

/-- Members insert something if their values evaluate to something. -/
theorem exists_inserts_of {members : List Node}
    (h : ∀ m ∈ members, ∀ value, m.child? "value" = some value → ∃ d, value.Evaluates d)
    (before : List (Value × Datum)) : ∃ after, Inserts before members after := by
  induction members generalizing before with
  | nil => exact ⟨before, .nil before⟩
  | cons m rest ih =>
      obtain ⟨here, later⟩ := List.forall_mem_cons.mp h
      by_cases kind : m.kind = .property
      · obtain ⟨key, fixed, -⟩ := exists_key m .null
        obtain ⟨d, evaluates⟩ := exists_value here
        obtain ⟨after, inserted⟩ := ih later ((key, d) :: before)
        exact ⟨after, .property kind fixed evaluates inserted⟩
      · obtain ⟨after, inserted⟩ := ih later ([] ++ before)
        exact ⟨after, .spread kind inserted⟩

/-- Every expression evaluates to something. -/
theorem exists_evaluates (n : Node) : ∃ d, n.Evaluates d := by
  by_cases assign : n.isAssignment
  · cases child : n.child? "right" with
    | none => exact ⟨.object [], .assignment assign (by simp [child])⟩
    | some right =>
        have := sizeOf_child?_lt child
        obtain ⟨d, evaluates⟩ := exists_evaluates right
        exact ⟨d, (evaluates_assignment_iff assign child).mpr evaluates⟩
  · by_cases object : n.kind = .objectExpression
    · have parts : ∀ m ∈ n.childrenOf "properties", ∀ value, m.child? "value" = some value →
          ∃ d, value.Evaluates d := by
        intro m mem value child
        have := sizeOf_mem_childrenOf_lt mem
        have := sizeOf_child?_lt child
        exact exists_evaluates value
      obtain ⟨properties, inserted⟩ := exists_inserts_of parts []
      exact ⟨.object properties, .object object inserted⟩
    · by_cases literal : ∃ v, n.literalValue? = .ok (some v)
      · obtain ⟨v, literal⟩ := literal
        exact ⟨.plain v, .literal literal⟩
      · exact ⟨.object [], .unknown object assign fun v found => literal ⟨v, found⟩⟩
termination_by sizeOf n.fields

theorem exists_inserts (members : List Node) (before : List (Value × Datum)) :
    ∃ after, Inserts before members after :=
  exists_inserts_of (fun _ _ value _ => value.exists_evaluates) before

/-! ## What members do to a key -/

/-- Members are inserted one list after the other. -/
theorem Inserts.append {before between after : List (Value × Datum)} {ms ms' : List Node}
    (h : Inserts before ms between) (h' : Inserts between ms' after) :
    Inserts before (ms ++ ms') after := by
  induction ms generalizing before with
  | nil =>
      cases h
      exact h'
  | cons m rest ih =>
      cases h with
      | property kind fixed evaluates inserted =>
          exact .property kind fixed evaluates (ih inserted)
      | spread kind inserted => exact .spread kind (ih inserted)

theorem Inserts.exists_of_append {before after : List (Value × Datum)} {ms ms' : List Node}
    (h : Inserts before (ms ++ ms') after) :
    ∃ between, Inserts before ms between ∧ Inserts between ms' after := by
  induction ms generalizing before with
  | nil => exact ⟨before, .nil before, h⟩
  | cons m rest ih =>
      cases h with
      | property kind fixed evaluates inserted =>
          obtain ⟨between, first, later⟩ := ih inserted
          exact ⟨between, .property kind fixed evaluates first, later⟩
      | spread kind inserted =>
          obtain ⟨between, first, later⟩ := ih inserted
          exact ⟨between, .spread kind first, later⟩

/-- A member sets a key if it is a property with that key. -/
theorem sets_iff {key : Value} {m : Node} :
    m.sets key ↔ m.kind = .property ∧ ∃ k, m.scriptKey? = some k ∧ k == key := by
  simp only [sets, Bool.and_eq_true, decide_eq_true_eq, Option.any_eq_true]

/-- For each key there is another one. -/
theorem exists_other (key : Value) : ∃ other : Value, (other == key) = false := by
  cases key with
  | null => exact ⟨.text [], rfl⟩
  | _ => exact ⟨.null, rfl⟩

/-- Members that have other keys, or none that is fixed, need not touch a key. -/
theorem exists_inserts_keeping {key : Value} {members : List Node}
    (h : ∀ m ∈ members, m.sets key = false) (before : List (Value × Datum)) :
    ∃ after, Inserts before members after ∧ Datum.find? key after = Datum.find? key before := by
  induction members generalizing before with
  | nil => exact ⟨before, .nil before, rfl⟩
  | cons m rest ih =>
      obtain ⟨unset, later⟩ := List.forall_mem_cons.mp h
      by_cases kind : m.kind = .property
      · -- A property without a fixed key is given another one, and a spread inserts nothing.
        obtain ⟨other, different⟩ := exists_other key
        obtain ⟨k, fixed, free⟩ := exists_key m other
        obtain ⟨d, evaluates⟩ := exists_value (m := m) fun value _ => value.exists_evaluates
        obtain ⟨after, inserted, kept⟩ := ih later ((k, d) :: before)
        refine ⟨after, .property kind fixed evaluates inserted, kept.trans ?_⟩
        apply Datum.find?_cons_of_other
        cases has : m.scriptKey? with
        | some k' =>
            rw [fixed k' has, ← Bool.not_eq_true]
            intro same
            rw [sets_iff.mpr ⟨kind, k', has, same⟩] at unset
            cases unset
        | none =>
            rw [free has]
            exact different
      · obtain ⟨after, inserted, kept⟩ := ih later ([] ++ before)
        exact ⟨after, .spread kind inserted, kept⟩

/-- What a member that can replace the property inserts under its key in some evaluation. -/
theorem CanReplace.exists_inserts {m : Node} {keys : List Value} {v : Value}
    (h : m.CanReplace keys v) (key : Value) (before : List (Value × Datum)) :
    ∃ d, d.at? keys ≠ some (.plain v) ∧ Inserts before [m] ((key, d) :: before) := by
  by_cases kind : m.kind = .property
  · obtain ⟨free, uncertain⟩ := h.resolve_left (not_not_intro kind)
    have value : ∃ d : Datum, d.at? keys ≠ some (.plain v) ∧
        ∀ value, m.child? "value" = some value → value.Evaluates d := by
      cases child : m.child? "value" with
      | none => exact ⟨.object [], Datum.at?_empty keys v, by simp⟩
      | some value =>
          have := uncertain value child
          simp only [Certain, Classical.not_forall] at this
          obtain ⟨d, evaluates, differs⟩ := this
          refine ⟨d, differs, ?_⟩
          rintro value' ⟨⟩
          exact evaluates
    obtain ⟨d, differs, evaluates⟩ := value
    refine ⟨d, differs, .property kind ?_ evaluates (.nil _)⟩
    intro k fixed
    cases free.symm.trans fixed
  · have inserted : Inserts ([(key, .object [])] ++ before) [] ((key, .object []) :: before) :=
      .nil _
    exact ⟨.object [], Datum.at?_empty keys v, .spread kind inserted⟩

/-- Members none of which can replace a property leave the literal that it leads to. -/
theorem Inserts.keeps {key : Value} {keys : List Value} {v : Value} {members : List Node}
    {before after : List (Value × Datum)} (h : Inserts before members after)
    (unset : ∀ m ∈ members, m.sets key = false) (kept : ∀ m ∈ members, ¬m.CanReplace keys v)
    (holds : (Datum.find? key before).bind (·.at? keys) = some (.plain v)) :
    (Datum.find? key after).bind (·.at? keys) = some (.plain v) := by
  induction members generalizing before with
  | nil =>
      cases h
      exact holds
  | cons m rest ih =>
      obtain ⟨unsetHere, unsetLater⟩ := List.forall_mem_cons.mp unset
      obtain ⟨keptHere, keptLater⟩ := List.forall_mem_cons.mp kept
      cases h with
      | spread kind => exact absurd (.inl kind) keptHere
      | @property _ _ _ _ k d kind fixed evaluates inserted =>
          refine ih inserted unsetLater keptLater ?_
          cases same : k == key with
          | false =>
              rw [Datum.find?_cons_of_other same]
              exact holds
          | true =>
              rw [Datum.find?_cons_of_same same]
              cases has : m.scriptKey? with
              | some k' =>
                  have := sets_iff.mpr ⟨kind, k', has, fixed k' has ▸ same⟩
                  rw [this] at unsetHere
                  cases unsetHere
              | none =>
                  -- Without a fixed key the member can hit the key, but it brings the same literal.
                  have certain : ∃ value, m.child? "value" = some value ∧ value.Certain keys v := by
                    apply Classical.byContradiction
                    intro uncertain
                    exact keptHere (.inr ⟨has, fun value child certain =>
                      uncertain ⟨value, child, certain⟩⟩)
                  obtain ⟨value, child, certain⟩ := certain
                  exact certain d (evaluates value child)

/-! ## Certainty along a path -/

/-- Where the last property with a key stands in its object literal. -/
theorem exists_split_of_getLast? {n p : Node} {key : Value}
    (h : ((n.childrenOf "properties").filter (sets key)).getLast? = some p) :
    ∃ first, n.childrenOf "properties" = first ++ p :: (n.laterMembers key).reverse ∧
      p.sets key := by
  rw [List.getLast?_eq_head?_reverse, ← List.filter_reverse, List.head?_filter] at h
  obtain ⟨set, later, first, split, unset⟩ := List.find?_eq_some_iff_append.mp h
  have laters : n.laterMembers key = later := by
    rw [laterMembers, split, List.takeWhile_append_of_pos unset, List.takeWhile_cons_of_neg,
      List.append_nil]
    simpa using set
  rw [laters]
  exact ⟨first.reverse, by simpa using congrArg List.reverse split, set⟩

/-- The members after the last property with a key do not set it. -/
theorem sets_eq_false_of_mem_laterMembers {n m : Node} {key : Value}
    (h : m ∈ n.laterMembers key) : m.sets key = false := by
  simpa using List.all_eq_true.mp List.all_takeWhile m h

/-- Whether the keys of an object literal are names or texts. -/
def hasTextKeys (n : Node) : Bool :=
  n.properties.all fun p => (p.child? "key").all fun key =>
    key.kind != .literal || key.value.text?.isSome

/-- Where keys are names or texts, the property that is followed is the one that JavaScript has. -/
theorem propertyValue?_eq_scriptValue? {n : Node} (texts : n.hasTextKeys) (key : Value) :
    n.propertyValue? key = .ok (n.scriptValue? key) := by
  have keyed : ∀ p ∈ n.properties, hasKey key p = .ok (p.scriptKey?.any (· == key)) := by
    intro p mem
    rw [hasKey, memberKey?_eq_scriptKey?]
    · rfl
    · intro k child literal
      have text := List.all_eq_true.mp texts p mem
      simpa [child, literal] using text
  have same : n.properties.filter (·.scriptKey?.any (· == key)) =
      (n.childrenOf "properties").filter (sets key) := by
    rw [properties, List.filter_filter]
    exact List.filter_congr fun m _ => Bool.and_comm _ _
  rw [propertyValue?, Fault.filter_of_forall_ok keyed, same]
  rfl

section

variable {n p : Node} {key : Value} {keys : List Value} {v : Value}

/-- The last property with a key can be inserted with any value that it can have, and the members
after it then begin with that value under the key. -/
theorem exists_evaluates_following (object : n.kind = .objectExpression)
    (last : ((n.childrenOf "properties").filter (sets key)).getLast? = some p) :
    ∃ k between, k == key ∧ ∀ d after,
      (∀ value, p.child? "value" = some value → value.Evaluates d) →
      Inserts ((k, d) :: between) (n.laterMembers key).reverse after →
      n.Evaluates (.object after) := by
  obtain ⟨first, split, set⟩ := exists_split_of_getLast? last
  obtain ⟨kind, k, fixed, same⟩ := sets_iff.mp set
  obtain ⟨between, before⟩ := exists_inserts first []
  refine ⟨k, between, same, ?_⟩
  intro d after evaluates later
  refine .object object (split ▸ before.append (.property kind ?_ evaluates later))
  intro k' fixed'
  cases fixed.symm.trans fixed'
  rfl

/-- Each value of that property can be the one that the object has in the end. -/
theorem exists_evaluates_of_property (object : n.kind = .objectExpression)
    (last : ((n.childrenOf "properties").filter (sets key)).getLast? = some p) {d : Datum}
    (evaluates : ∀ value, p.child? "value" = some value → value.Evaluates d) (keys : List Value) :
    ∃ e, n.Evaluates e ∧ e.at? (key :: keys) = d.at? keys := by
  obtain ⟨k, between, same, reach⟩ := exists_evaluates_following object last
  obtain ⟨after, later, kept⟩ := exists_inserts_keeping
    (fun m mem => sets_eq_false_of_mem_laterMembers (List.mem_reverse.mp mem)) ((k, d) :: between)
  refine ⟨.object after, reach d after evaluates later, ?_⟩
  rw [Datum.at?, kept, Datum.find?_cons_of_same same]
  rfl

/-- Without a property of the key the object need not have it. -/
theorem exists_evaluates_of_unset (object : n.kind = .objectExpression)
    (unset : ((n.childrenOf "properties").filter (sets key)).getLast? = none) (keys : List Value) :
    ∃ e, n.Evaluates e ∧ e.at? (key :: keys) = none := by
  have unset := List.filter_eq_nil_iff.mp (List.getLast?_eq_none_iff.mp unset)
  obtain ⟨after, inserted, kept⟩ := exists_inserts_keeping
    (fun m mem => Bool.eq_false_iff.mpr (unset m mem)) []
  refine ⟨.object after, .object object inserted, ?_⟩
  rw [Datum.at?, kept]
  rfl

/-- What a member after that property can put in its place can be there in the end. -/
theorem exists_evaluates_of_canReplace (object : n.kind = .objectExpression)
    (last : ((n.childrenOf "properties").filter (sets key)).getLast? = some p) {m : Node}
    (mem : m ∈ n.laterMembers key) (replaces : m.CanReplace keys v) :
    ∃ e, n.Evaluates e ∧ e.at? (key :: keys) ≠ some (.plain v) := by
  obtain ⟨k, between, same, reach⟩ := exists_evaluates_following object last
  obtain ⟨d, evaluates⟩ := exists_value (m := p) fun value _ => value.exists_evaluates
  obtain ⟨left, right, parts⟩ := List.append_of_mem (List.mem_reverse.mpr mem)
  have unsetRight : ∀ m' ∈ right, m'.sets key = false := by
    intro m' mem'
    apply sets_eq_false_of_mem_laterMembers (n := n)
    rw [← List.mem_reverse, parts]
    exact List.mem_append_right left (.tail m mem')
  -- The members before `m` do what they like, `m` replaces the value, and the ones after it leave
  -- the key alone, since none of them has it for certain.
  obtain ⟨middle, passed⟩ := exists_inserts left ((k, d) :: between)
  obtain ⟨e, differs, replaced⟩ := replaces.exists_inserts k middle
  obtain ⟨after, later, kept⟩ := exists_inserts_keeping unsetRight ((k, e) :: middle)
  have run := passed.append (replaced.append later)
  refine ⟨.object after, reach d after evaluates (parts ▸ run), ?_⟩
  rw [Datum.at?, kept, Datum.find?_cons_of_same same]
  exact differs

/-- An object literal is certain to lead to a literal exactly if the last property with the key is,
and no member after it can replace it. -/
theorem certain_property_iff (object : n.kind = .objectExpression) : n.Certain (key :: keys) v ↔
    (∃ value, n.scriptValue? key = some value ∧ value.Certain keys v) ∧
      ∀ m ∈ n.laterMembers key, ¬m.CanReplace keys v := by
  constructor
  · intro certain
    cases last : ((n.childrenOf "properties").filter (sets key)).getLast? with
    | none =>
        obtain ⟨e, evaluates, absent⟩ := exists_evaluates_of_unset object last keys
        cases absent.symm.trans (certain e evaluates)
    | some p =>
        refine ⟨?_, fun m mem replaces => ?_⟩
        · rw [scriptValue?, last, Option.bind_some]
          cases child : p.child? "value" with
          | none =>
              obtain ⟨e, evaluates, same⟩ := exists_evaluates_of_property object last
                (d := .object []) (by simp [child]) keys
              exact absurd (same.symm.trans (certain e evaluates)) (Datum.at?_empty keys v)
          | some value =>
              refine ⟨value, rfl, fun d evaluates => ?_⟩
              obtain ⟨e, evaluates, same⟩ := exists_evaluates_of_property object last
                (d := d) (by simpa [child] using evaluates) keys
              exact same.symm.trans (certain e evaluates)
        · obtain ⟨e, evaluates, differs⟩ := exists_evaluates_of_canReplace object last mem replaces
          exact differs (certain e evaluates)
  · rintro ⟨⟨value, found, certain⟩, kept⟩ d evaluates
    obtain ⟨p, last, child⟩ := Option.bind_eq_some_iff.mp found
    obtain ⟨first, split, set⟩ := exists_split_of_getLast? last
    obtain ⟨kind, k, fixed, same⟩ := sets_iff.mp set
    obtain ⟨after, rfl, inserted⟩ := (evaluates_object_iff object).mp evaluates
    obtain ⟨between, -, inserted⟩ := Inserts.exists_of_append (split ▸ inserted)
    cases inserted with
    | spread other => exact absurd kind other
    | @property _ _ _ _ k' d' _ fixed' evaluates' later =>
        refine later.keeps
          (fun m mem => sets_eq_false_of_mem_laterMembers (List.mem_reverse.mp mem))
          (fun m mem => kept m (List.mem_reverse.mp mem)) ?_
        rw [Datum.find?_cons_of_same (fixed' k fixed ▸ same)]
        exact certain d' (evaluates' value child)

/-- An assignment exposes what its right side does. -/
theorem exposed_assignment_iff {right : Node} (assign : n.isAssignment)
    (child : n.child? "right" = some right) : Exposed v n keys ↔ Exposed v right keys := by
  constructor
  · intro exposed
    cases exposed with
    | assignment _ child' exposed =>
        cases child.symm.trans child'
        exact exposed
    | replaced object | misread object | inner object =>
        simp [kind_of_isAssignment assign] at object
  · exact .assignment assign child

/-- What exposes the literal at one object literal, if the value that is followed is the only way on
along which it is exposed. -/
theorem exposed_property_iff {value : Node} (object : n.kind = .objectExpression)
    (found : n.propertyValue? key = .ok (some value))
    (ih : value.Certain keys v ↔ ¬Exposed v value keys) : Exposed v n (key :: keys) ↔
      (¬∃ other, n.scriptValue? key = some other ∧ other.Certain keys v) ∨
        ∃ m ∈ n.laterMembers key, m.CanReplace keys v := by
  constructor
  · intro exposed
    cases exposed with
    | assignment assign => simp [kind_of_isAssignment assign] at object
    | replaced _ mem replaces => exact .inr ⟨_, mem, replaces⟩
    | misread _ _ _ uncertain =>
        refine .inl ?_
        rintro ⟨other, has, certain⟩
        exact uncertain other has certain
    | inner _ found' has exposed =>
        cases found.symm.trans found'
        refine .inl ?_
        rintro ⟨other, has', certain⟩
        cases has.symm.trans has'
        exact ih.mp certain exposed
  · rintro (uncertain | ⟨m, mem, replaces⟩)
    · by_cases has : n.scriptValue? key = some value
      · refine .inner object found has ?_
        exact Classical.byContradiction fun unexposed =>
          uncertain ⟨value, has, ih.mpr unexposed⟩
      · exact .misread object found has fun other has certain => uncertain ⟨other, has, certain⟩
    · exact .replaced object mem replaces

end

/-- Nothing exposes a literal itself. -/
theorem not_exposed_of_literalValue? {n : Node} {v : Value} (h : n.literalValue? = .ok (some v)) :
    ¬Exposed v n [] := by
  rintro (⟨assign, -, -⟩ | - | - | -)
  exact not_isAssignment_of_literalValue? h assign

/-- A literal that is found is certain exactly if nothing on the way exposes it. -/
theorem certain_iff_not_exposed {n : Node} {keys : List Value} {v : Value} {place : Node}
    (h : n.Traces keys (.literal v place)) : n.Certain keys v ↔ ¬Exposed v n keys := by
  generalize origin : Origin.literal v place = o at h
  induction h with
  | void | incomplete | required | requiredMember | unknown => cases origin
  | assignment assign child _ ih =>
      rw [exposed_assignment_iff assign child, ← ih origin]
      simp only [Certain, evaluates_assignment_iff assign child]
  | literal found =>
      cases origin
      refine iff_of_true ?_ (not_exposed_of_literalValue? found)
      intro d evaluates
      rw [(evaluates_literal_iff found).mp evaluates]
      rfl
  | property object found _ ih =>
      rw [certain_property_iff object, exposed_property_iff object found (ih origin), not_or,
        Classical.not_not]
      simp only [not_exists, not_and]

/-- Some evaluation has the literal, also if others do not, unless a key is misread on the way. -/
theorem exists_evaluates_of_traces {n : Node} {keys : List Value} {v : Value} {place : Node}
    (h : n.Traces keys (.literal v place)) (read : ¬Misread n keys) :
    ∃ d, n.Evaluates d ∧ d.at? keys = some (.plain v) := by
  generalize origin : Origin.literal v place = o at h
  induction h with
  | void | incomplete | required | requiredMember | unknown => cases origin
  | assignment assign child _ ih =>
      simp only [evaluates_assignment_iff assign child]
      exact ih (fun misread => read (.assignment assign child misread)) origin
  | literal found =>
      cases origin
      exact ⟨.plain v, .literal found, rfl⟩
  | @property n value key keys _ object found _ ih =>
      obtain ⟨d, evaluates, leads⟩ := ih (fun misread => read (.inner object found misread)) origin
      have has : n.scriptValue? key = some value :=
        Classical.byContradiction fun differs => read (.here object found differs)
      obtain ⟨p, last, child⟩ := Option.bind_eq_some_iff.mp has
      obtain ⟨e, evaluates, same⟩ := exists_evaluates_of_property object last
        (d := d) (by simpa [child] using evaluates) keys
      exact ⟨e, evaluates, same.trans leads⟩

end Node

/-! ## Single literals -/

/-- Only a literal gives one site that is a literal. -/
theorem Origin.eq_literal_of_sites {enter : Enter} {path : Path} {o : Origin} {s : Session}
    {site : Site} {v : Value} (single : (o.sites enter path).result s = .ok [site])
    (literal : site.kind = .literal v) : ∃ place, o = .literal v place := by
  cases o with
  | nothing => cases single
  | literal v' place =>
      obtain ⟨span, -, given⟩ := Run.result_raise_bind_eq_ok_iff.mp single
      cases given
      cases literal
      exact ⟨place, rfl⟩
  | unknown place =>
      obtain ⟨span, -, given⟩ := Run.result_raise_bind_eq_ok_iff.mp single
      cases given
      cases literal
  | imported specifier keys place =>
      obtain ⟨target, -, single⟩ := Run.result_bind_eq_ok_iff.mp single
      cases target with
      | none =>
          obtain ⟨span, -, given⟩ := Run.result_raise_bind_eq_ok_iff.mp single
          cases given
          cases literal
      | some target =>
          simp only at single
          split at single
          · cases single
            cases literal
          · obtain ⟨more, -, given⟩ := Run.result_bind_eq_ok_iff.mp single
            cases given
            cases literal

namespace Sample

def configuration (members : List Value) : Node :=
  Node.make Kind.objectExpression.tag [("properties", .list members)]

def spread (argument : Value) : Value :=
  .record [("type", .text "SpreadElement"), ("argument", argument)]

/-- `{ ...defaults, KEY: "X", KEY: "A", PORT: port }`. -/
def overriding : Node :=
  configuration [spread (name "defaults"), property "KEY" (text "X"), property "KEY" (text "A"),
    property "PORT" (name "port")]

/-- `{ KEY: "A", ...overrides }`. -/
def overridden : Node :=
  configuration [property "KEY" (text "A"), spread (name "overrides")]

/-- `{ true: "A", [true]: "B" }`. -/
def truths : Node :=
  configuration [property "true" (text "A"), node .property [("key", node .literal
    [("value", .bool true)]), ("computed", .bool true), ("value", text "B")]]

/-- The sites of the value under a key. -/
def keySites (key : Text) (n : Node) : Run (List Site) :=
  Fault.raise (n.origin [.text key]) >>= Origin.sites Enter.never (Path.ofText "/w/index.js")

/-- Whether there is one site, and it is the literal `"A"`. -/
def isSingleA : List Site → Bool
  | [⟨.literal (.text t), _, _⟩] => t = "A"
  | _ => false

theorem exists_single_of_isSingleA {key : Text} {n : Node}
    (h : ((keySites key n).result noFiles).toOption.any isSingleA) :
    ∃ site, (keySites key n).result noFiles = .ok [site] ∧ site.kind = .literal (.text "A") := by
  rw [Option.any_eq_true] at h
  obtain ⟨sites, single, literal⟩ := h
  rw [Except.toOption_eq_some_iff] at single
  unfold isSingleA at literal
  split at literal
  · cases of_decide_eq_true literal
    exact ⟨_, single, rfl⟩
  · cases literal

end Sample

namespace Node

/-- A single literal is a value that the path can have, unless a key is misread on the way. It is
the only one exactly if nothing on the way exposes it: no member of an object literal that can
replace the property with the key, and no other property under the key than the one that is
followed. -/
theorem single_literal_certain_iff (enter : Enter) (path : Path) (s : Session) {n : Node}
    {keys : List Value} {site : Site} {v : Value}
    (single : Run.result (Fault.raise (n.origin keys) >>= Origin.sites enter path) s = .ok [site])
    (literal : site.kind = .literal v) :
    (¬Misread n keys → ∃ d, n.Evaluates d ∧ d.at? keys = some (.plain v)) ∧
      (n.Certain keys v ↔ ¬Exposed v n keys) := by
  obtain ⟨o, origin, single⟩ := Run.result_raise_bind_eq_ok_iff.mp single
  obtain ⟨place, rfl⟩ := Origin.eq_literal_of_sites single literal
  have traces := traces_of_origin origin
  exact ⟨exists_evaluates_of_traces traces, certain_iff_not_exposed traces⟩

open Sample in
/-- A spread before the property, an earlier property with its key and a later one with another key
do no harm. -/
theorem single_literal_certain_iff_overriding :
    ∃ site, (keySites "KEY" overriding).result noFiles = .ok [site] ∧
      site.kind = .literal (.text "A") ∧ ¬Exposed (.text "A") overriding [.text "KEY"] ∧
      overriding.Certain [.text "KEY"] (.text "A") := by
  have computed : ((keySites "KEY" overriding).result noFiles).toOption.any isSingleA ∧
      overriding.hasTextKeys ∧
      ((overriding.laterMembers (.text "KEY")).all fun m =>
        m.kind = .property && m.scriptKey?.isSome) ∧
      (overriding.scriptValue? (.text "KEY")).any (·.kind = .literal) := by
    decide +kernel
  obtain ⟨single, texts, fixed, plain⟩ := computed
  obtain ⟨site, single, literal⟩ := exists_single_of_isSingleA single
  obtain ⟨value, has, plain⟩ := (Option.any_eq_true _ _).mp plain
  have unexposed : ¬Exposed (.text "A") overriding [.text "KEY"] := by
    intro exposed
    cases exposed with
    | assignment assign => exact absurd (kind_of_isAssignment assign) (by decide)
    | replaced _ mem replaces =>
        obtain ⟨kind, fixed⟩ := Bool.and_eq_true_iff.mp (List.all_eq_true.mp fixed _ mem)
        obtain ⟨free, -⟩ := replaces.resolve_left (not_not_intro (of_decide_eq_true kind))
        simp [free] at fixed
    | misread _ found differs =>
        rw [propertyValue?_eq_scriptValue? texts] at found
        exact differs (Except.ok.inj found)
    | inner _ _ has' exposed =>
        cases has.symm.trans has'
        cases exposed with
        | assignment assign => simp [kind_of_isAssignment assign] at plain
  exact ⟨site, single, literal, unexposed,
    (single_literal_certain_iff Enter.never _ noFiles single literal).2.mpr unexposed⟩

open Sample in
/-- A later spread can replace the property, and a later truth value as a key, which is read as
another key than JavaScript's, does replace it. Then the literal is a guess. -/
theorem single_literal_not_always_certain :
    (∃ site, (keySites "KEY" overridden).result noFiles = .ok [site] ∧
      site.kind = .literal (.text "A") ∧ ¬overridden.Certain [.text "KEY"] (.text "A")) ∧
    ∃ site, (keySites "true" truths).result noFiles = .ok [site] ∧
      site.kind = .literal (.text "A") ∧ ¬truths.Certain [.text "true"] (.text "A") := by
  have computed : ((keySites "KEY" overridden).result noFiles).toOption.any isSingleA ∧
      overridden.kind = .objectExpression ∧
      (overridden.laterMembers (.text "KEY")).any (·.kind ≠ .property) ∧
      ((keySites "true" truths).result noFiles).toOption.any isSingleA ∧
      truths.kind = .objectExpression ∧
      (truths.scriptValue? (.text "true")).all fun value =>
        value.literalValue?.toOption.join.any fun v => v.text? = some ("B" : Text) := by
    decide +kernel
  obtain ⟨single, object, spread, single', object', other⟩ := computed
  obtain ⟨site, single, literal⟩ := exists_single_of_isSingleA single
  obtain ⟨site', single', literal'⟩ := exists_single_of_isSingleA single'
  obtain ⟨m, mem, kind⟩ := List.any_eq_true.mp spread
  refine ⟨⟨site, single, literal, fun certain => ?_⟩, site', single', literal', fun certain => ?_⟩
  · exact ((certain_property_iff object).mp certain).2 m mem (.inl (of_decide_eq_true kind))
  · obtain ⟨⟨value, has, certain⟩, -⟩ := (certain_property_iff object').mp certain
    rw [has, Option.all_some, Option.any_eq_true] at other
    obtain ⟨v, found, text⟩ := other
    have found := Except.toOption_eq_some_iff.mp (Option.join_eq_some_iff.mp found)
    cases certain _ (.literal found)
    exact absurd text (by decide)

end Node

end EnvReads
