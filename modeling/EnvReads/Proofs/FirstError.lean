import EnvReads.Proofs.KeptErrors

/-!
# The first error of a concrete tree

Where does a source go wrong? A search goes down its concrete tree. It looks at the children of a
node in order: at an error it stops, a child with an error below it is where it goes on, and all
other children are passed over. `Concrete.Ends` follows this search turn by turn, without a bound;
still it ends in every tree, and with `Concrete.firstError`.

The search only reads marks. If every mark says what is true of the tree (`Concrete.Consistent`),
nothing that it passes over has an error, so each turn keeps the first error in the order of the
tree (`firstBelow_eq_turn`). A refused source is told the place of this error.
-/

namespace EnvReads

theorem Mark.isError_eq (m : Mark) : m.isError = (m.type = "ERROR" || m.isMissing) := by
  rw [isError, decide_eq_decide.mpr Concrete.symbol_eq_error_iff]

/-- An error is an error node or one that is missing. -/
theorem Mark.isError_iff {m : Mark} : m.isError ↔ m.type = "ERROR" ∨ m.isMissing := by
  simp [isError_eq]

namespace Concrete

open Rose

variable {c e k : Concrete}

/-! ## The search -/

/-- A turn of the search at a node, from the given children on: an answer, or the node at which the
next turn starts. -/
def turn (c : Concrete) : List Concrete → Concrete ⊕ Concrete
  | [] => .inl c
  | k :: ks =>
    if k.mark.isError then .inl k
    else if k.mark.hasError then .inr k
    else turn c ks

/-- `Ends c e`: a search that starts at `c` takes finitely many turns, and its answer is `e`. -/
inductive Ends : Concrete → Concrete → Prop where
  | answer {c e : Concrete} (here : c.turn c.children = .inl e) : Ends c e
  | deeper {c k e : Concrete} (next : c.turn c.children = .inr k) (later : Ends k e) : Ends c e

/-- A turn leads to a child. -/
theorem mem_of_turn {cs : List Concrete} (h : c.turn cs = .inr k) : k ∈ cs := by
  induction cs with
  | nil => cases h
  | cons d ds ih =>
      rw [turn] at h
      split at h
      · cases h
      · split at h
        · cases h
          exact .head ds
        · exact .tail d (ih h)

/-- The search goes on in the child that it turns to, and ends if there is none. -/
theorem getD_firstErrorAmong (c : Concrete) (cs : List Concrete) :
    (firstErrorAmong cs).getD c = (c.turn cs).elim id firstError := by
  induction cs with
  | nil => rfl
  | cons d ds ih =>
      rw [firstErrorAmong, turn]
      split
      · rfl
      · split
        · rfl
        · exact ih

/-- The search from a node turns to one of its children or ends. -/
theorem firstError_eq_turn (c : Concrete) :
    c.firstError = (c.turn c.children).elim id firstError := by
  cases c with
  | node m cs =>
      rw [firstError]
      exact getD_firstErrorAmong _ cs

/-- A descent ends at the first error. -/
theorem Ends.eq_firstError (h : Ends c e) : e = c.firstError := by
  induction h with
  | answer here => rw [firstError_eq_turn, here]; rfl
  | deeper next _ ih => rw [firstError_eq_turn, next]; exact ih

/-- The next turn starts below the last one, so the search ends in every tree. -/
theorem ends_firstError (c : Concrete) : Ends c c.firstError := by
  induction c using subtrees.induct with
  | case1 m cs ih =>
      rw [firstError_eq_turn]
      cases turned : turn (.node m cs) (Rose.children (.node m cs)) with
      | inl e => exact .answer turned
      | inr k => exact .deeper turned (ih ⟨k, mem_of_turn turned⟩)

/-- Every descent ends at the first error, and only there. -/
theorem ends_iff : Ends c e ↔ e = c.firstError :=
  ⟨Ends.eq_firstError, fun h => h ▸ ends_firstError c⟩

/-! ## Marks that are true of the tree -/

/-- Every node is marked as having an error exactly if it is one or a child is so marked. -/
def Consistent (c : Concrete) : Prop :=
  ∀ d ∈ c.subtrees, d.mark.hasError ↔
    d.mark.type = "ERROR" ∨ d.mark.isMissing ∨ ∃ k : Concrete, k ∈ d.children ∧ k.mark.hasError

instance (c : Concrete) : Decidable c.Consistent :=
  inferInstanceAs (Decidable (∀ d ∈ c.subtrees, _))

namespace Consistent

/-- The marks of children are consistent if those of the node are. -/
theorem of_mem_children (h : c.Consistent) (mem : k ∈ c.children) : k.Consistent :=
  fun d below => h d (mem_subtrees_of_child below mem)

/-- A true mark is right about the whole tree below it. -/
theorem hasError_iff (h : c.Consistent) : c.mark.hasError ↔ ∃ d ∈ c.subtrees, d.mark.isError := by
  induction c using subtrees.induct with
  | case1 m cs ih =>
      have below : (∃ k : Concrete, k ∈ cs ∧ k.mark.hasError) ↔
          ∃ d ∈ cs.flatMap subtrees, d.mark.isError := by
        simp only [List.mem_flatMap]
        constructor
        · rintro ⟨k, child, marked⟩
          obtain ⟨d, inside, error⟩ := (ih ⟨k, child⟩ (h.of_mem_children child)).mp marked
          exact ⟨d, ⟨k, child, inside⟩, error⟩
        · rintro ⟨d, ⟨k, child, inside⟩, error⟩
          exact ⟨k, child, (ih ⟨k, child⟩ (h.of_mem_children child)).mpr ⟨d, inside, error⟩⟩
      rw [h _ (mem_subtrees_self _), ← or_assoc, ← Mark.isError_iff, Rose.children, below,
        subtrees_node]
      simp only [List.mem_cons, or_and_right, exists_or, exists_eq_left]

end Consistent

/-! ## The first error below a node -/

/-- The nodes below a node: each before what is below it, and the children in order. -/
def below (c : Concrete) : List Concrete :=
  c.children.flatMap subtrees

theorem subtrees_eq (c : Concrete) : c.subtrees = c :: c.below := by
  cases c with
  | node m cs => exact subtrees_node m cs

/-- The first error below a node, and the node itself if there is none. -/
def firstBelow (c : Concrete) : Concrete :=
  (c.below.find? (·.mark.isError)).getD c

/-- The first error of a tree whose root is none is below the root. -/
theorem find?_subtrees_of_not_isError (other : ¬c.mark.isError) :
    c.subtrees.find? (·.mark.isError) = c.below.find? (·.mark.isError) := by
  rw [subtrees_eq, List.find?_cons_of_neg]
  exact other

/-- In a tree that is marked, and is no error itself, the first error is below the root. -/
theorem Consistent.find?_below (h : c.Consistent) (other : ¬c.mark.isError)
    (marked : c.mark.hasError) : c.below.find? (·.mark.isError) = some c.firstBelow := by
  have found : (c.subtrees.find? (·.mark.isError)).isSome :=
    List.find?_isSome.mpr (h.hasError_iff.mp marked)
  rw [find?_subtrees_of_not_isError other] at found
  obtain ⟨e, first⟩ := Option.isSome_iff_exists.mp found
  simp [firstBelow, first]

/-- A tree that is not marked as having errors has none. -/
theorem Consistent.find?_eq_none (h : c.Consistent) (clean : ¬c.mark.hasError) :
    c.subtrees.find? (·.mark.isError) = none :=
  List.find?_eq_none.mpr fun d inside error => clean (h.hasError_iff.mpr ⟨d, inside, error⟩)

/-- A turn keeps the first error: the children before the one it stops at have no errors. -/
theorem getD_find?_eq_turn (c : Concrete) {cs : List Concrete} (h : ∀ k ∈ cs, k.Consistent) :
    ((cs.flatMap subtrees).find? (·.mark.isError)).getD c = (c.turn cs).elim id firstBelow := by
  induction cs with
  | nil => rfl
  | cons k ks ih =>
      obtain ⟨here, later⟩ := List.forall_mem_cons.mp h
      rw [List.flatMap_cons, List.find?_append, turn]
      split
      · next error => simp [subtrees_eq, error]
      · next other =>
          split
          · next marked =>
              rw [find?_subtrees_of_not_isError other, here.find?_below other marked]
              rfl
          · next clean =>
              rw [here.find?_eq_none clean, Option.none_or]
              exact ih later

/-- The first error in source order takes the same turns as the search. -/
theorem firstBelow_eq_turn (h : c.Consistent) :
    c.firstBelow = (c.turn c.children).elim id firstBelow :=
  getD_find?_eq_turn c fun _ mem => h.of_mem_children mem

/-- What every turn keeps, the whole search finds. -/
theorem Ends.eq_firstBelow (ends : Ends c e) (h : c.Consistent) : e = c.firstBelow := by
  induction ends with
  | answer here => rw [firstBelow_eq_turn h, here]; rfl
  | deeper next _ ih =>
      rw [firstBelow_eq_turn h, next]
      exact ih (h.of_mem_children (mem_of_turn next))

/-- The search for an error ends in every tree. If the marks are true of the tree, its answer is the
first node below the root, in the order of the tree, that is an error or missing, and the root if
there is none. So it is the first error of a tree whose root is no error itself. A source whose tree
has an error is refused with the line and the column of the answer. -/
theorem firstError_is_first_below (c : Concrete) :
    (∀ e, Ends c e ↔ e = c.firstError) ∧
      (c.Consistent →
        c.firstError = c.firstBelow ∧
        (¬c.mark.isError → c.mark.hasError →
          c.subtrees.find? (·.mark.isError) = some c.firstError) ∧
        ∀ code, (toSyntax code false c).mapError ConcreteFault.message =
          if c.subtrees.any (·.mark.isError) then
            .error ("Syntax error at line " ++ Text.ofNat (c.firstBelow.mark.start.row + 1) ++
              ", column " ++ Text.ofNat c.firstBelow.mark.start.column)
          else
            (convert (.ofText code) c).mapError ConcreteFault.message) := by
  refine ⟨fun e => ends_iff, fun h => ?_⟩
  have first : c.firstError = c.firstBelow := (ends_firstError c).eq_firstBelow h
  refine ⟨first, fun other marked => ?_, fun code => ?_⟩
  · rw [find?_subtrees_of_not_isError other, h.find?_below other marked, first]
  · have marked : c.mark.hasError = c.subtrees.any (·.mark.isError) := by
      rw [Bool.eq_iff_iff, h.hasError_iff, List.any_eq_true]
    have refuses : toSyntax code false c =
        if c.mark.hasError then
          .error (.syntaxError (c.firstError.mark.start.row + 1) c.firstError.mark.start.column)
        else
          convert (.ofText code) c := by
      rw [toSyntax, Bool.not_false, Bool.and_true]
      rfl
    rw [refuses, marked, first]
    split <;> rfl

end Concrete

namespace Sample

/-- A node that stands in one row, which starts at the octet `line`. -/
def rowMark (type : Text) (row line startByte endByte : Nat) (hasError : Bool) : Mark :=
  { mark type startByte endByte none with
    start := ⟨row, startByte - line⟩
    stop := ⟨row, endByte - line⟩
    hasError }

def unclosedSource : Text :=
  "x;\n(y;\n]\n"

/-- The tree of `unclosedSource`: a parenthesis is missing in its second row, and the third row is
an error. -/
def unclosed : Concrete :=
  .node { rowMark "program" 0 0 0 9 true with stop := ⟨3, 0⟩ } [
    .node (rowMark "expression_statement" 0 0 0 2 false) [
      .node (rowMark "identifier" 0 0 0 1 false) []],
    .node (rowMark "expression_statement" 1 3 3 6 true) [
      .node (rowMark "parenthesized_expression" 1 3 3 5 true) [
        .node (rowMark "identifier" 1 3 4 5 false) [],
        .node { rowMark ")" 1 3 5 5 true with isNamed := false, isMissing := true } []]],
    .node (rowMark "ERROR" 2 7 7 8 true) []]

end Sample

open Sample in
/-- A bracket that is not closed. -/
theorem Concrete.firstError_is_first_below_unclosed :
    unclosed.Consistent ∧ Ends unclosed unclosed.firstError ∧ unclosed.firstError.mark.isMissing ∧
      (toSyntax unclosedSource false unclosed).mapError ConcreteFault.message =
        .error (Text.ofString "Syntax error at line 2, column 2") := by
  have consistent : unclosed.Consistent := by decide +kernel
  have error : unclosed.subtrees.any (·.mark.isError) :=
    List.any_eq_true.mpr (consistent.hasError_iff.mp rfl)
  have place : unclosed.firstBelow.mark.isMissing ∧ unclosed.firstBelow.mark.start.row = 1 ∧
      unclosed.firstBelow.mark.start.column = 2 := by
    simp only [firstBelow, Mark.isError_eq]
    decide +kernel
  obtain ⟨missing, row, column⟩ := place
  obtain ⟨ends, firsts⟩ := firstError_is_first_below unclosed
  obtain ⟨first, -, message⟩ := firsts consistent
  refine ⟨consistent, (ends _).mpr rfl, first ▸ missing, ?_⟩
  rw [message, if_pos error, row, column]
  exact congrArg Except.error (by decide +kernel)

end EnvReads
