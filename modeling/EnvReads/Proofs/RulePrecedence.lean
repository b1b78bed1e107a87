import EnvReads.Proofs.MatcherPatterns
import EnvReads.Proofs.NestedRules

/-!
# Which rules win

Several ignore files can speak of one file: that of the root and those of the directories between.
In each of them the last pattern that matches decides (`IgnoreFilter.Survey.Speaks`). Between them
there is no order: a file is ignored as soon as one of them ignores it. The deepest of them
(`IgnoreFilter.Survey.Deepest`) has its way exactly if it ignores the file itself or nothing above
it does (`IgnoreFilter.ignores_deepest_iff`), so a negated pattern cannot take back what an ignore
file further up has said (`IgnoreFilter.not_always_deepest`).
-/

namespace EnvReads

open EnvReads.Path (AreParts)

namespace IgnoreFilter

namespace Survey

variable {w : Survey} {P : w.matcher.Patterns} {f : IgnoreFilter} {tree : Entry}
  {names ds : List Text} {rule : P.Rule}

/-! ## Ignore files above a file -/

/-- The lines that stand in a directory: in the root those that count there, and else those of its
ignore file. -/
def LinesIn (w : Survey) (ds : List Text) (lines : List Text) : Prop :=
  if ds = [] then rootLines w.files w.root = .ok lines
  else ∃ t, w.files.readText ((w.root.below ds).child fileName) = .ok t ∧ lines = t.lines

/-- The pattern decides on a file among the lines that stand in a directory above it. -/
def Speaks (w : Survey) (P : w.matcher.Patterns) (names ds : List Text) (rule : P.Rule) : Prop :=
  ∃ rest lines, names = ds ++ rest ∧ rest ≠ [] ∧ w.LinesIn ds lines ∧
    (w.matcher.compile lines).isOk ∧ P.decisive? lines (shownAs rest []) = some rule

/-- The pattern decides on a file in a directory above it, and below that directory no rules speak
of the file. -/
structure Deepest (w : Survey) (P : w.matcher.Patterns) (names ds : List Text) (rule : P.Rule) :
    Prop where
  speaks : w.Speaks P names ds rule
  length_le : ∀ above other, w.Speaks P names above other → above.length ≤ ds.length

/-- The ignore file of a directory can be found on a walk from the root, which lists all directories
on its way. -/
def Heard (w : Survey) (ds : List Text) : Prop :=
  ds = [] ∨ w.files.ListsTo w.root (ds ++ [fileName])

/-- No directory above what the names lead to is pruned. -/
def Reached (w : Survey) (names : List Text) : Prop :=
  ∀ above rest, names = above ++ rest → above ≠ [] → rest ≠ [] → ¬w.Pruned above

theorem Entered.reached {name : Text} (h : w.Entered names) : w.Reached (names ++ [name]) := by
  intro above rest eq first more
  obtain ⟨rest, last, rfl⟩ := List.eq_nil_or_concat rest |>.resolve_left more
  rw [List.concat_eq_append, ← List.append_assoc] at eq
  exact h above rest (List.append_inj_left' eq rfl) first

/-- An ignore file that speaks of a file stands above it. -/
theorem Speaks.length_lt (h : w.Speaks P names ds rule) : ds.length < names.length := by
  obtain ⟨rest, lines, rfl, more, -⟩ := h
  have := List.length_pos_iff.mpr more
  rw [List.length_append]
  omega

/-- Going down from rules that speak of a file one comes to the deepest ones. -/
theorem exists_deepest {ds : List Text} {rule : P.Rule} (h : w.Speaks P names ds rule) :
    ∃ ds rule, w.Deepest P names ds rule := by
  by_cases last : ∀ above other, w.Speaks P names above other → above.length ≤ ds.length
  · exact ⟨ds, rule, h, last⟩
  · push Not at last
    obtain ⟨above, other, speaks, deeper⟩ := last
    have := speaks.length_lt
    exact exists_deepest speaks
termination_by names.length - ds.length

/-- All ignore files above a file are found, where the directories on the way can be listed. -/
theorem Speaks.heard (h : w.Speaks P names ds rule) (lists : w.files.ListsTo w.root names) :
    w.Heard ds := by
  obtain ⟨rest, lines, rfl, more, -⟩ := h
  refine .inr (FileSystem.listsTo_concat_iff.mpr ⟨lists.of_append, lists ds rest rfl more⟩)

/-- The rules of a directory, compiled from its lines. -/
theorem exists_linesIn_of_hasRules {own : Text → Bool} (inner : ds ≠ []) (h : w.HasRules ds own) :
    ∃ lines, w.LinesIn ds lines ∧ w.matcher.compile lines = .ok own := by
  obtain ⟨t, read, compiled⟩ := h
  refine ⟨t.lines, ?_, compiled⟩
  rw [LinesIn, if_neg inner]
  exact ⟨t, read, rfl⟩

/-- The lines of a nested ignore file are its rules, once they are compiled. -/
theorem hasRules_of_linesIn {own : Text → Bool} {lines : List Text} (inner : ds ≠ [])
    (h : w.LinesIn ds lines) (compiled : w.matcher.compile lines = .ok own) :
    w.HasRules ds own := by
  rw [LinesIn, if_neg inner] at h
  obtain ⟨t, read, rfl⟩ := h
  exact ⟨t, read, compiled⟩

theorem linesIn_nil_iff {lines : List Text} :
    w.LinesIn [] lines ↔ rootLines w.files w.root = .ok lines := by
  rw [LinesIn, if_pos rfl]

/-! ## Loaded filters -/

/-- Where no directory above a file is pruned, all ignore files above it are read that can be found,
and any of them is enough to ignore the file. -/
theorem ignores_iff_speaks {name : Text} {content : File}
    (visited : visit w.matcher w.files tree w.root ⟨w.root, w.rules, []⟩ = .ok f)
    (inner : names ≠ []) (below : tree.Below names (.file name content))
    (reached : w.Reached names) : f.ignores (w.root.below names) ↔
      ∃ ds rule, w.Speaks P names ds rule ∧ w.Heard ds ∧ ¬P.isNegated rule := by
  have parts := Entry.areParts_of_below below
  obtain ⟨added, rfl, -, kept⟩ := exists_added_of_visit_root visited
  obtain ⟨rootLines, ofRoot, compiledRoot⟩ := Except.bind_eq_ok_iff.mp w.compiled
  rw [show w.root = (IgnoreFilter.mk w.root w.rules added).root from rfl,
    ignores_below_iff w.absolute parts]
  constructor
  · rintro (ignored | ⟨ds, rest, own, rfl, member, ignored⟩)
    · obtain ⟨rule, decides, keeps⟩ := (P.ignores_iff_decisive compiledRoot).mp ignored
      exact ⟨[], rule, ⟨names, rootLines, rfl, inner, linesIn_nil_iff.mpr ofRoot,
        Except.isOk_iff.mpr ⟨_, compiledRoot⟩, decides⟩, .inl rfl, keeps⟩
    · obtain ⟨ds', same, reads⟩ := (kept _ _).mp member
      obtain ⟨partsDs, -⟩ := Path.areParts_append_iff.mp parts
      obtain rfl := (Path.below_inj partsDs reads.parts).mp same
      obtain ⟨lines, stand, compiled⟩ := exists_linesIn_of_hasRules reads.below reads.has
      obtain ⟨rule, decides, keeps⟩ := (P.ignores_iff_decisive compiled).mp ignored
      refine ⟨ds, rule, ⟨rest, lines, rfl, ?_, stand, Except.isOk_iff.mpr ⟨_, compiled⟩, decides⟩,
        .inr reads.lists, keeps⟩
      rintro rfl
      rw [List.append_nil] at below
      exact not_reads_below_file below [] (by rwa [List.append_nil])
  · rintro ⟨ds, rule, ⟨rest, lines, rfl, more, stand, compiles, decides⟩, heard, keeps⟩
    obtain ⟨own, compiled⟩ := Except.isOk_iff.mp compiles
    have ignored := (P.ignores_iff_decisive compiled).mpr ⟨rule, decides, keeps⟩
    rcases eq_or_ne ds [] with rfl | first
    · cases (linesIn_nil_iff.mp stand).symm.trans ofRoot
      cases compiled.symm.trans compiledRoot
      exact .inl ignored
    · obtain ⟨d, before, after⟩ := Entry.below_append_iff.mp below
      obtain ⟨next, rest, rfl⟩ := List.exists_cons_of_ne_nil more
      refine .inr ⟨ds, next :: rest, own, rfl, (kept _ _).mpr ⟨ds, rfl, ⟨⟨first, ?_, ?_⟩, ?_⟩, ?_⟩,
        ignored⟩
      · exact hasRules_of_linesIn first stand compiled
      · intro above between eq start
        refine reached above (between ++ next :: rest) ?_ start (by simp)
        rw [eq, List.append_assoc]
      · exact ⟨d, before, Entry.isDirectory_of_below after⟩
      · exact heard.resolve_left first

end Survey

/-- Any ignore file above a file is enough to ignore it. So where no directory above is pruned, the
deepest ignore file that speaks of the file has its way exactly if it wants the file kept just when
all that are found on the way there do. Where the directories above the file can be listed, this is
that it ignores the file or no other does. -/
theorem ignores_deepest_iff (w : Survey) (P : w.matcher.Patterns) {tree : Entry} {f : IgnoreFilter}
    {names : List Text} {name : Text} {content : File} (found : w.files.entry w.root = .ok tree)
    (loaded : load w.matcher w.files w.root true = .ok f) (inner : names ≠ [])
    (below : tree.Below names (.file name content)) (reached : w.Reached names) :
    (f.ignores (w.root.below names) ↔
      ∃ ds rule, w.Speaks P names ds rule ∧ w.Heard ds ∧ ¬P.isNegated rule) ∧
    ((∃ ds rule, w.Speaks P names ds rule) → ∃ ds rule, w.Deepest P names ds rule) ∧
    ∀ ds rule, w.Deepest P names ds rule →
      (f.ignores (w.root.below names) = !P.isNegated rule ↔ (P.isNegated rule ↔
        ∀ above other, w.Speaks P names above other → w.Heard above → P.isNegated other)) ∧
      (w.files.ListsTo w.root names →
        (f.ignores (w.root.below names) = !P.isNegated rule ↔ (P.isNegated rule →
          ∀ above other, w.Speaks P names above other → P.isNegated other))) := by
  rw [w.load_eq found] at loaded
  have ignored : f.ignores (w.root.below names) ↔
      ∃ ds rule, w.Speaks P names ds rule ∧ w.Heard ds ∧ ¬P.isNegated rule :=
    Survey.ignores_iff_speaks loaded inner below reached
  refine ⟨ignored, ?_, fun ds rule deepest => ?_⟩
  · rintro ⟨ds, rule, speaks⟩
    exact Survey.exists_deepest speaks
  · have kept : ¬f.ignores (w.root.below names) ↔
        ∀ above other, w.Speaks P names above other → w.Heard above → P.isNegated other := by
      rw [ignored]
      push Not
      rfl
    have general : f.ignores (w.root.below names) = !P.isNegated rule ↔ (P.isNegated rule ↔
        ∀ above other, w.Speaks P names above other → w.Heard above → P.isNegated other) := by
      rw [← kept]
      cases f.ignores (w.root.below names) <;> cases P.isNegated rule <;> simp
    refine ⟨general, fun lists => general.trans ?_⟩
    constructor
    · intro same negated above other speaks
      exact same.mp negated above other speaks (speaks.heard lists)
    · intro wants
      refine ⟨fun negated above other speaks _ => wants negated above other speaks, fun all => ?_⟩
      exact all ds rule deepest.speaks (deepest.speaks.heard lists)

end IgnoreFilter

namespace Sample

/-- The root ignores all generated files, and the directory `pkg` wants one of its own back. -/
def precedenceTree : List Entry :=
  [ignoring "*.gen.js", .folder "pkg" [ignoring "!keep.gen.js", source "keep.gen.js"]]

/-- The names that lead to the file which `pkg` wants back. -/
def wanted : List Text :=
  ["pkg", "keep.gen.js"]

theorem below_precedenceTree :
    (Entry.folder "w" precedenceTree).Below wanted (source "keep.gen.js") := by
  refine Entry.below_cons_iff.mpr ⟨_, Entry.mem_members_iff.mpr ⟨?_, rfl⟩, rfl,
    Entry.below_cons_iff.mpr ⟨_, Entry.mem_members_iff.mpr ⟨?_, rfl⟩, rfl, .here⟩⟩ <;> decide

end Sample

namespace IgnoreFilter

open Sample
open Matcher (standardPatterns)

/-- The ignore file of `pkg`, the deepest, wants the file back, and the filter ignores it. -/
theorem deepest_precedenceTree : ∃ rules compiled f rule,
    let w : Survey := ⟨.standard, work precedenceTree, "/w", rules, rfl, compiled⟩
    load .standard (work precedenceTree) "/w" true = .ok f ∧ w.Reached wanted ∧
      w.Deepest standardPatterns wanted ["pkg"] rule ∧ rule.negated ∧
      f.ignores (Path.below "/w" wanted) := by
  have judged : (rootLines (work precedenceTree) "/w" >>= Matcher.standard.compile).toOption.any
      fun rules => !rules (shownAs ["pkg"] "/") := by
    decide +kernel
  obtain ⟨rules, compiled, entered⟩ := (Option.any_eq_true _ _).mp judged
  have compiled := Except.toOption_eq_some_iff.mp compiled
  have judged : (load .standard (work precedenceTree) "/w" true).toOption.any fun f =>
      f.ignores (Path.below "/w" wanted) := by
    decide +kernel
  obtain ⟨f, loaded, ignored⟩ := (Option.any_eq_true _ _).mp judged
  have spoken : (standardPatterns.decisive? (Text.lines "!keep.gen.js")
      (shownAs ["keep.gen.js"] [])).any Pattern.negated := by
    decide +kernel
  obtain ⟨rule, decides, negated⟩ := (Option.any_eq_true _ _).mp spoken
  have compiles : (Matcher.standard.compile (Text.lines "!keep.gen.js")).isOk := by
    decide +kernel
  have read : (work precedenceTree).readText ((Path.below "/w" ["pkg"]).child fileName) =
      .ok "!keep.gen.js" := by
    decide +kernel
  refine ⟨rules, compiled, f, rule, Except.toOption_eq_some_iff.mp loaded, ?_, ⟨?_, ?_⟩, negated,
    ignored⟩
  · refine Survey.Entered.reached (Survey.entered_concat_iff.mpr ⟨Survey.entered_nil, ?_⟩)
    rw [List.nil_append, Survey.pruned_singleton_iff]
    simpa using entered
  · refine ⟨["keep.gen.js"], Text.lines "!keep.gen.js", rfl, by simp, ?_, compiles, decides⟩
    rw [Survey.LinesIn, if_neg (by simp)]
    exact ⟨_, read, rfl⟩
  · intro above other shallow
    exact Nat.le_of_lt_succ shallow.length_lt

/-- The deepest ignore file keeps the file, and that of the root ignores it all the same. -/
theorem ignores_deepest_iff_overruled : ∃ rules compiled f rule,
    let w : Survey := ⟨.standard, work precedenceTree, "/w", rules, rfl, compiled⟩
    w.files.entry w.root = .ok (.folder "w" precedenceTree) ∧
      load w.matcher w.files w.root true = .ok f ∧
      (Entry.folder "w" precedenceTree).Below wanted (source "keep.gen.js") ∧ w.Reached wanted ∧
      w.Deepest standardPatterns wanted ["pkg"] rule ∧ rule.negated ∧
      ∃ ds other, w.Speaks standardPatterns wanted ds other ∧ ¬other.negated := by
  obtain ⟨rules, compiled, f, rule, loaded, reached, deepest, negated, ignored⟩ :=
    deepest_precedenceTree
  let w : Survey := ⟨.standard, work precedenceTree, "/w", rules, rfl, compiled⟩
  refine ⟨rules, compiled, f, rule, entry_work precedenceTree, loaded, below_precedenceTree,
    reached, deepest, negated, ?_⟩
  obtain ⟨ds, other, speaks, -, keeps⟩ := (ignores_deepest_iff w standardPatterns
    (entry_work precedenceTree) loaded (by simp [wanted]) below_precedenceTree reached).1.mp ignored
  exact ⟨ds, other, speaks, keeps⟩

/-- The deepest ignore file does not always have its way. -/
theorem not_always_deepest :
    ¬∀ (w : Survey) (P : w.matcher.Patterns) (tree : Entry) (f : IgnoreFilter)
      (names ds : List Text) (name : Text) (content : File) (rule : P.Rule),
        w.files.entry w.root = .ok tree → load w.matcher w.files w.root true = .ok f →
        tree.Below names (.file name content) → w.Reached names → w.Deepest P names ds rule →
        f.ignores (w.root.below names) = !P.isNegated rule := by
  intro follows
  obtain ⟨rules, compiled, f, rule, loaded, reached, deepest, negated, ignored⟩ :=
    deepest_precedenceTree
  have kept : f.ignores (Path.below "/w" wanted) = !rule.negated :=
    follows ⟨.standard, work precedenceTree, "/w", rules, rfl, compiled⟩ standardPatterns _ f wanted
      ["pkg"] _ _ rule (entry_work precedenceTree) loaded below_precedenceTree reached deepest
  rw [ignored, negated] at kept
  cases kept

end IgnoreFilter

end EnvReads
