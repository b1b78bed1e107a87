import EnvReads.Declaration.Origin
import EnvReads.Proofs.Outcome

/-!
# How origins are found

The steps by which `Node.origin` comes to its answer, one rule for each. What is to be shown of
origins is shown by induction on these rules.
-/

namespace EnvReads

namespace Node

/-- `n.Traces keys o`: the value at `keys` in the value of the expression `n` has the origin `o`. -/
inductive Traces : Node → List Value → Origin → Prop
  | void {n : Node} {keys : List Value} : n.isVoid → Traces n keys .nothing
  | incomplete {n : Node} {keys : List Value} : n.isAssignment → n.child? "right" = none →
      Traces n keys .nothing
  | assignment {n right : Node} {keys : List Value} {o : Origin} : n.isAssignment →
      n.child? "right" = some right → Traces right keys o → Traces n keys o
  | literal {n : Node} {v : Value} : n.literalValue? = .ok (some v) → Traces n [] (.literal v n)
  | required {n : Node} {keys : List Value} {specifier : Text} :
      n.requiredModule? = .ok (some specifier) →
      Traces n keys (.imported (some specifier) keys n)
  | requiredMember {n object : Node} {key : Value} {keys : List Value} {specifier : Text} :
      n.child? "object" = some object → object.requiredModule? = .ok (some specifier) →
      Traces n keys (.imported (some specifier) (key :: keys) n)
  | unknown {n : Node} {keys : List Value} : Traces n keys (.unknown n)
  | property {n value : Node} {key : Value} {keys : List Value} {o : Origin} :
      n.kind = .objectExpression → n.propertyValue? key = .ok (some value) →
      Traces value keys o → Traces n (key :: keys) o

section

variable {n : Node} {v : Value}

theorem kind_of_isAssignment (h : n.isAssignment) : n.kind = .assignmentExpression := by
  simp only [isAssignment, Bool.and_eq_true, decide_eq_true_eq] at h
  exact h.1

/-- A value that is known is that of a literal or a template. -/
theorem kind_of_literalValue? (h : n.literalValue? = .ok (some v)) :
    n.kind = .literal ∨ n.kind = .templateLiteral := by
  rw [literalValue?] at h
  split at h
  · next literal => exact .inl literal
  · split at h
    · next template =>
        simp only [Bool.and_eq_true, decide_eq_true_eq] at template
        exact .inr template.1
    · cases h

/-- A literal is no assignment. -/
theorem not_isAssignment_of_literalValue? (h : n.literalValue? = .ok (some v)) :
    ¬n.isAssignment := by
  intro assign
  have := kind_of_isAssignment assign
  rcases kind_of_literalValue? h with kind | kind <;> simp [kind] at this

end

theorem traces_of_requireOrigin? {n : Node} {keys : List Value} {o : Origin}
    (h : n.requireOrigin? keys = .ok (some o)) : n.Traces keys o := by
  obtain ⟨found, required, h⟩ := Except.bind_eq_ok_iff.mp h
  cases found with
  | some specifier =>
      cases h
      exact .required required
  | none =>
      obtain ⟨found, member, h⟩ := Except.bind_eq_ok_iff.mp h
      cases found with
      | none => cases h
      | some specifier =>
          obtain ⟨key, -, h⟩ := Except.bind_eq_ok_iff.mp h
          obtain ⟨key, rfl, rfl⟩ := Option.map_eq_some_iff.mp (Except.pure_eq_ok_iff.mp h)
          rw [objectModule?] at member
          split at member
          · cases child : n.child? "object" with
            | none => simp [child] at member
            | some object => exact .requiredMember child (by simpa [child] using member)
          · cases member

/-- What is left for an expression that is no literal. -/
theorem traces_of_rest {n : Node} {keys : List Value} {o : Origin}
    (ih : ∀ key rest value, n.propertyValue? key = .ok (some value) →
      value.origin rest = .ok o → value.Traces rest o)
    (h : (n.requireOrigin? keys >>= fun found =>
      match found with
      | some o => .ok o
      | none =>
        match keys with
        | [] => .ok (.unknown n)
        | key :: rest =>
          if n.kind = .objectExpression then
            match _found : n.propertyValue? key with
            | .ok (some value) => value.origin rest
            | .ok none => .ok (.unknown n)
            | .error fault => .error fault
          else
            .ok (.unknown n)) = .ok o) : n.Traces keys o := by
  obtain ⟨found, required, h⟩ := Except.bind_eq_ok_iff.mp h
  cases found with
  | some o' =>
      cases h
      exact traces_of_requireOrigin? required
  | none =>
      cases keys with
      | nil =>
          cases h
          exact .unknown
      | cons key rest =>
          simp only at h
          split at h
          · next object =>
              split at h
              · next value found => exact .property object found (ih key rest value found h)
              · cases h
                exact .unknown
              · cases h
          · cases h
            exact .unknown

/-- The origin that is computed is traced. -/
theorem traces_of_origin {n : Node} {keys : List Value} {o : Origin}
    (h : n.origin keys = .ok o) : n.Traces keys o := by
  fun_induction origin n keys with
  | case1 n keys void =>
      cases h
      exact .void void
  | case2 n keys void assign right child ih => exact .assignment assign child (ih h)
  | case3 n keys void assign child =>
      cases h
      exact .incomplete assign child
  | case4 n keys void assign rest empty ih =>
      obtain ⟨found, literal, h⟩ := Except.bind_eq_ok_iff.mp h
      cases found with
      | none => exact traces_of_rest ih h
      | some v =>
          cases h
          rw [List.isEmpty_iff.mp empty]
          exact .literal literal
  | case5 n keys void assign rest empty ih => exact traces_of_rest ih h

end Node

end EnvReads
