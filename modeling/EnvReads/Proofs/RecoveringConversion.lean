import EnvReads.Parse
import EnvReads.Proofs.ConversionRules

/-!
# Conversion that recovers from errors

When does a source with errors convert? If its tree is well-formed, exactly if no node that counts
(`Concrete.visited`) is blocked, and the tree is more than a comment. So one tagged template is
enough to lose a whole source.
-/

namespace EnvReads.Concrete

open Rose

variable {code : Text} {c : Concrete}

/-- A node that is not left out converts with the nodes that its rule has converted, unless it is
blocked. -/
theorem isOk_convert_of_kept (h : c.WellFormed code) (kept : ¬c.symbol.isSkipped) :
    (convert (.ofText code) c).isOk ↔ ¬c.isBlocked code ∧ AllConvert (.ofText code) c.uses := by
  have symbolEq : c.mark.symbol = c.symbol := rfl
  rw [← isOk_assembleKept h kept, convert_eq, assemble, symbolEq, if_neg kept]
  split
  · next d symbol single =>
      rw [kept_draft] at single
      obtain ⟨k, only, rfl⟩ := List.map_eq_singleton_iff.mp single
      have uses : c.uses = [k] := by rw [uses, symbol]; exact only
      rw [isOk_assembleKept h kept, uses, isBlocked, symbol]
      simp [AllConvert, convert]
  · rw [Except.isOk_map]

/-- What is skipped converts to nothing. -/
theorem convert_of_isSkipped (s : SourceCode) (skipped : c.symbol.isSkipped) :
    convert s c = .ok none := by
  rw [convert_eq, assemble, if_pos]
  exact skipped

theorem uses_of_isSkipped (skipped : c.symbol.isSkipped) : c.uses = [] := by
  rw [uses]
  cases symbol : c.symbol <;> simp [symbol, Symbol.isSkipped] at skipped <;> rfl

theorem visited_of_isSkipped (skipped : c.symbol.isSkipped) : c.visited = [c] := by
  rw [visited, uses_of_isSkipped skipped]
  rfl

/-- A tree converts exactly if no node that counts is blocked. -/
theorem isOk_convert_iff (h : c.WellFormed code) :
    (convert (.ofText code) c).isOk ↔ ∀ d ∈ c.visited, ¬d.isBlocked code := by
  induction c using visited.induct with
  | case1 c ih =>
      by_cases skipped : c.symbol.isSkipped
      · rw [convert_of_isSkipped _ skipped, visited_of_isSkipped skipped]
        cases symbol : c.symbol <;> simp [symbol, Symbol.isSkipped] at skipped <;>
          simp [isBlocked, symbol]
      · have below : AllConvert (.ofText code) c.uses ↔
            ∀ k ∈ c.uses, ∀ d ∈ k.visited, ¬d.isBlocked code :=
          forall₂_congr fun k mem =>
            ih ⟨k, mem⟩ (h.of_mem_subtrees (mem_subtrees_of_mem_uses mem))
        rw [isOk_convert_of_kept h skipped, below]
        constructor
        · rintro ⟨here, later⟩ d mem
          rcases mem_visited_iff.mp mem with rfl | ⟨k, used, inside⟩
          · exact here
          · exact later k used d inside
        · intro all
          refine ⟨all c (mem_visited_iff.mpr (.inl rfl)), fun k used d inside => ?_⟩
          exact all d (mem_visited_iff.mpr (.inr ⟨k, used, inside⟩))

/-- Nothing but what is left out converts to nothing. -/
theorem convert_ne_none (s : SourceCode) (kept : ¬c.symbol.isSkipped) :
    convert s c ≠ .ok none := by
  induction c using visited.induct with
  | case1 c ih =>
      have symbolEq : c.mark.symbol = c.symbol := rfl
      rw [convert_eq, assemble, symbolEq, if_neg kept]
      split
      · next d symbol single =>
          rw [kept_draft] at single
          obtain ⟨k, only, rfl⟩ := List.map_eq_singleton_iff.mp single
          have mem : k ∈ Rose.kept c.children := by simp [only]
          have used : k ∈ c.uses := by rw [uses, symbol]; exact mem
          refine ih ⟨k, used⟩ ?_
          simpa using (List.mem_filter.mp mem).2
      · intro dropped
        obtain ⟨n, -, eq⟩ := Except.map_eq_ok_iff.mp dropped
        cases eq

/-- A tree of a source converts to a node exactly if it is not left out and no node that counts is
blocked. -/
theorem convert_eq_some_iff (h : c.WellFormed code) :
    (∃ n, convert (.ofText code) c = .ok (some n)) ↔
      ¬c.symbol.isSkipped ∧ ∀ d ∈ c.visited, ¬d.isBlocked code := by
  rw [← isOk_convert_iff h]
  constructor
  · rintro ⟨n, converted⟩
    refine ⟨fun skipped => ?_, by rw [converted]; rfl⟩
    cases (convert_of_isSkipped _ skipped).symm.trans converted
  · rintro ⟨kept, ok⟩
    obtain ⟨result, converted⟩ := Except.isOk_iff.mp ok
    cases result with
    | none => exact absurd converted (convert_ne_none _ kept)
    | some n => exact ⟨n, converted⟩

/-- With recovery the tree is converted, whatever is wrong in it. -/
theorem toSyntax_recovering (code : Text) (c : Concrete) :
    toSyntax code true c = convert (.ofText code) c := by
  simp [toSyntax]

instance (code : Text) (c : Concrete) : Decidable (c.WellFormed code) :=
  decidable_of_iff
    ((∀ d ∈ c.subtrees, d.mark.Placed code) ∧
      ∀ d ∈ c.subtrees, ∀ t ∈ d.escapedTexts code, ∀ n ∈ Escape.bracedCodes t, n ≤ 0x10FFFF)
    ⟨fun ⟨placed, inRange⟩ => ⟨placed, inRange⟩, fun ⟨placed, inRange⟩ => ⟨placed, inRange⟩⟩

end EnvReads.Concrete

namespace EnvReads

namespace Sample

/-- A node of the grammar in the first row. -/
def mark (type : Text) (startByte endByte : Nat) (role : Option Text) : Mark where
  type
  startByte
  endByte
  start := ⟨0, startByte⟩
  stop := ⟨0, endByte⟩
  role
  isNamed := true
  isMissing := false
  hasError := false

/-- A parser that gives one tree, whatever it parses. -/
def parsers (c : Concrete) : Parsers Id where
  estree := fun _ _ _ => .error "no parse"
  concrete := fun _ _ => .ok c

/-- The tree of a call in a program, given the tree of its arguments. -/
def callTree (size : Nat) (arguments : Concrete) : Concrete :=
  .node (mark "program" 0 size none) [
    .node (mark "expression_statement" 0 size none) [
      .node (mark "call_expression" 0 size none) [
        .node (mark "identifier" 0 1 (some "function")) [],
        arguments]]]

def callingSource : Text :=
  "f(\"\\u\x7b41\x7d\", `é`)"

/-- The tree of ``f("\u{41}", `é`)``. -/
def calling : Concrete :=
  callTree 17 (.node (mark "arguments" 1 17 (some "arguments")) [
    .node (mark "string" 2 10 none) [],
    .node (mark "template_string" 12 16 none) []])

/-- The tree of ``f`x` ``. -/
def tagging : Concrete :=
  callTree 4 (.node (mark "template_string" 1 4 (some "arguments")) [])

end Sample

/-- To parse by a known grammar is to convert the tree that its parser gives. -/
theorem Strategy.run_concrete {parsers : Parsers Id} {code grammar name : Text} {recover : Bool}
    {c : Concrete} (known : grammar ∈ Concrete.grammars)
    (parsed : parsers.concrete grammar code = .ok c) :
    Strategy.run parsers code ⟨name, .concrete grammar recover⟩ =
      match Concrete.toSyntax code recover c with
      | .error fault => .error fault.message
      | .ok node => .ok (Concrete.optional node) := by
  have contained : Concrete.grammars.contains grammar := by simpa using known
  simp only [Strategy.run, if_pos contained, parsed]
  rfl

/-- Parsing by a known grammar with recovery from errors gives a syntax node exactly if the tree is
not left out and no node that counts is a call whose arguments are a template or a template at the
end of a source that is not ASCII. -/
theorem Strategy.recovers_iff_not_blocked {parsers : Parsers Id} {code grammar name : Text}
    {c : Concrete} (known : grammar ∈ Concrete.grammars)
    (parsed : parsers.concrete grammar code = .ok c) (wellFormed : c.WellFormed code) :
    (∃ n : Node, Strategy.run parsers code ⟨name, .concrete grammar true⟩ = .ok n.toValue) ↔
      ¬c.symbol.isSkipped ∧ ∀ d ∈ c.visited, ¬d.isBlocked code := by
  rw [← Concrete.convert_eq_some_iff wellFormed, run_concrete known parsed,
    Concrete.toSyntax_recovering]
  constructor
  · rintro ⟨n, parsed⟩
    split at parsed
    · cases parsed
    · next node converted =>
        cases node with
        | none => cases parsed
        | some m => exact ⟨m, converted⟩
  · rintro ⟨n, converted⟩
    rw [converted]
    exact ⟨n, rfl⟩

open Sample in
/-- A call without its closing bracket is recovered from. -/
theorem Strategy.recovers_iff_not_blocked_calling :
    calling.WellFormed callingSource ∧
      ∃ n : Node, Strategy.run (parsers calling) callingSource
        ⟨"loose", .concrete "javascript" true⟩ = .ok n.toValue := by
  have wellFormed : calling.WellFormed callingSource := by decide +kernel
  refine ⟨wellFormed, (recovers_iff_not_blocked (by decide) rfl wellFormed).mpr ?_⟩
  decide +kernel

open Sample in
/-- A call whose arguments are a template is not recovered from. -/
theorem Strategy.not_always_recovers :
    ¬∀ (parsers : Parsers Id) (code grammar name : Text) (c : Concrete),
      grammar ∈ Concrete.grammars → parsers.concrete grammar code = .ok c → c.WellFormed code →
      ∃ n : Node, Strategy.run parsers code ⟨name, .concrete grammar true⟩ = .ok n.toValue := by
  intro recovers
  have wellFormed : tagging.WellFormed "f`x`" := by decide +kernel
  obtain ⟨n, parsed⟩ := recovers (parsers tagging) "f`x`" "javascript" "loose" tagging (by decide)
    rfl wellFormed
  have failed : (Strategy.run (parsers tagging) "f`x`" ⟨"loose", .concrete "javascript" true⟩ :
      Except Text Value).isOk = false := by decide +kernel
  rw [parsed] at failed
  cases failed

end EnvReads
