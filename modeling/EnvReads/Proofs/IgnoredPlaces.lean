import EnvReads.Proofs.ListedFiles

/-!
# Places that ignore rules judge

Rules judge places by the names that lead to them from where the rules stand
(`IgnoreFilter.ignores_below_iff`, `IgnoreFilter.ignoresDirectory_below_iff`). This file also says,
without a walk through the tree, which directories are pruned and which ignore files count: a
directory is pruned if the rules of the root ignore it, or those of an ignore file above it that
counts (`IgnoreFilter.Survey.Pruned`, by recursion on the depth), and an ignore file counts if
neither its directory nor one above it is pruned (`IgnoreFilter.Survey.Loaded`).
-/

namespace EnvReads

open EnvReads.Path (AreParts)

namespace IgnoreFilter

variable {f : IgnoreFilter} {names : List Text}

/-! ## What a filter judges -/

/-- How the rules see what the names lead to. -/
def shownAs (names : List Text) (ending : Text) : Text :=
  (Path.here.below names).toText ++ ending

/-- The rules of the root judge a path, and those that are kept for a path above it or for it. -/
theorem judges_iff (parts : AreParts names) {ending : Text} :
    f.judges (Path.here.below names) ending ↔ f.rules (shownAs names ending) ∨
      ∃ ds rest own, names = ds ++ rest ∧ (f.root.below ds, own) ∈ f.nested ∧
        own (shownAs rest ending) := by
  rw [judges, Bool.or_eq_true, List.any_eq_true]
  refine or_congr_right ⟨?_, ?_⟩
  · rintro ⟨⟨p, own⟩, member, judged⟩
    obtain ⟨q, seen, ignored⟩ := (Option.any_eq_true _ _).mp judged
    obtain ⟨place, first, second⟩ := Option.bind_eq_some_iff.mp seen
    obtain ⟨ds, partsDs, rfl, rfl⟩ := Path.relativeTo?_eq_some_iff.mp first
    obtain ⟨rest, partsRest, eq, rfl⟩ := Path.relativeTo?_eq_some_iff.mp second
    rw [Path.below_append,
      Path.below_inj parts (Path.areParts_append_iff.mpr ⟨partsDs, partsRest⟩)] at eq
    exact ⟨ds, rest, own, eq, member, ignored⟩
  · rintro ⟨ds, rest, own, rfl, member, ignored⟩
    obtain ⟨partsDs, partsRest⟩ := Path.areParts_append_iff.mp parts
    refine ⟨_, member, (Option.any_eq_true _ _).mpr ⟨Path.here.below rest, ?_, ignored⟩⟩
    refine Option.bind_eq_some_iff.mpr ⟨Path.here.below ds, ?_, ?_⟩
    · exact Path.relativeTo?_eq_some_iff.mpr ⟨ds, partsDs, rfl, rfl⟩
    · exact Path.relativeTo?_eq_some_iff.mpr
        ⟨rest, partsRest, (Path.below_append _ _ _).symm, rfl⟩

/-- A filter sees a path below its root relative to the root. -/
theorem relative?_below (absolute : f.root.isAbsolute) (parts : AreParts names) :
    f.relative? (f.root.below names) = some (Path.here.below names) := by
  rw [relative?, Path.isAbsolute_below parts, if_pos absolute]
  exact Path.relativeTo?_eq_some_iff.mpr ⟨names, parts, rfl, rfl⟩

/-- A path below the root is ignored by the rules of the root or by those of an ignore file above
it. -/
theorem ignores_below_iff (absolute : f.root.isAbsolute) (parts : AreParts names) :
    f.ignores (f.root.below names) ↔ f.rules (shownAs names []) ∨
      ∃ ds rest own, names = ds ++ rest ∧ (f.root.below ds, own) ∈ f.nested ∧
        own (shownAs rest []) := by
  rw [ignores, relative?_below absolute parts]
  exact judges_iff parts

/-- A directory below the root is ignored by the same rules, with a slash after its path. -/
theorem ignoresDirectory_below_iff (absolute : f.root.isAbsolute) (parts : AreParts names)
    (inner : names ≠ []) : f.ignoresDirectory (f.root.below names) ↔
      f.rules (shownAs names "/") ∨
        ∃ ds rest own, names = ds ++ rest ∧ (f.root.below ds, own) ∈ f.nested ∧
          own (shownAs rest "/") := by
  have passed : (Path.here.below names != Path.here) = true :=
    bne_iff_ne.mpr fun same => inner ((Path.below_eq_self_iff parts).mp same)
  rw [ignoresDirectory, relative?_below absolute parts, Option.any_some, passed, Bool.true_and]
  exact judges_iff parts

/-! ## The ignore files of a tree -/

/-- What decides which ignore files below a root count: how ignore files are compiled, what the file
system answers, and the rules that the root has. -/
structure Survey where
  matcher : Matcher
  files : FileSystem
  root : Path
  rules : Text → Bool
  absolute : root.isAbsolute
  compiled : (rootLines files root >>= matcher.compile) = .ok rules

namespace Survey

variable {w : Survey} {own : Text → Bool}

/-- The directory that the names lead to has a readable ignore file with the given rules. -/
def HasRules (w : Survey) (names : List Text) (own : Text → Bool) : Prop :=
  ∃ t, w.files.readText ((w.root.below names).child fileName) = .ok t ∧
    w.matcher.compile t.lines = .ok own

/-- The directory that the names lead to is passed over: the rules of the root ignore it, or those
of an ignore file that counts in a directory between. -/
def Pruned (w : Survey) (names : List Text) : Prop :=
  w.rules (shownAs names "/") ∨
    ∃ ds rest own, ∃ _ : names = ds ++ rest, ∃ _ : rest ≠ [], ds ≠ [] ∧ w.HasRules ds own ∧
      (∀ above more, ds = above ++ more → above ≠ [] → ¬w.Pruned above) ∧
      own (shownAs rest "/")
termination_by names.length
decreasing_by
  have := List.length_pos_iff.mpr ‹rest ≠ []›
  simp only [‹names = ds ++ rest›, ‹ds = above ++ more›, List.length_append]
  omega

/-- Neither the directory that the names lead to is pruned, nor one above it. -/
def Entered (w : Survey) (names : List Text) : Prop :=
  ∀ above more, names = above ++ more → above ≠ [] → ¬w.Pruned above

/-- What stands in a directory below the root counts, if it is an ignore file. -/
structure Counts (w : Survey) (names : List Text) (own : Text → Bool) : Prop where
  below : names ≠ []
  has : w.HasRules names own
  entered : w.Entered names

/-- A directory of the tree, other than its root, has an ignore file that counts. -/
structure Loaded (w : Survey) (tree : Entry) (names : List Text) (own : Text → Bool) : Prop
    extends w.Counts names own where
  place : tree.IsPlace names

/-- A directory is pruned by the rules of the root or by an ignore file that counts above it. -/
theorem pruned_iff : w.Pruned names ↔ w.rules (shownAs names "/") ∨
    ∃ ds rest own, names = ds ++ rest ∧ rest ≠ [] ∧ w.Counts ds own ∧
      own (shownAs rest "/") := by
  rw [Pruned]
  refine or_congr_right ⟨?_, ?_⟩
  · rintro ⟨ds, rest, own, eq, more, below, has, entered, ignored⟩
    exact ⟨ds, rest, own, eq, more, ⟨below, has, entered⟩, ignored⟩
  · rintro ⟨ds, rest, own, eq, more, ⟨below, has, entered⟩, ignored⟩
    exact ⟨ds, rest, own, eq, more, below, has, entered, ignored⟩

/-- Only the root stands above what is in it. -/
theorem pruned_singleton_iff {name : Text} : w.Pruned [name] ↔ w.rules (shownAs [name] "/") := by
  rw [pruned_iff]
  refine or_iff_left_of_imp ?_
  rintro ⟨ds, rest, own, eq, more, counts, -⟩
  rcases List.singleton_eq_append_iff.mp eq with ⟨nothing, -⟩ | ⟨-, nothing⟩
  · exact absurd nothing counts.below
  · exact absurd nothing more

theorem entered_nil : w.Entered [] := by
  intro above more eq inner
  exact absurd (List.append_eq_nil_iff.mp eq.symm).1 inner

/-- A directory is entered if the one above it is, and it is not pruned. -/
theorem entered_concat_iff {name : Text} : w.Entered (names ++ [name]) ↔
    w.Entered names ∧ ¬w.Pruned (names ++ [name]) := by
  constructor
  · intro all
    refine ⟨fun above more eq => all above (more ++ [name]) ?_, ?_⟩
    · rw [eq, List.append_assoc]
    · exact all _ [] (List.append_nil _).symm (by simp)
  · rintro ⟨before, last⟩ above more eq inner
    rcases List.eq_nil_or_concat more with rfl | ⟨more, final, rfl⟩
    · rw [List.append_nil] at eq
      rwa [← eq]
    · rw [List.concat_eq_append, ← List.append_assoc] at eq
      exact before above more (List.append_inj_left' eq rfl) inner

/-- Directories above one that is entered are entered. -/
theorem Entered.of_append {more : List Text} (h : w.Entered (names ++ more)) :
    w.Entered names := by
  intro above rest eq
  refine h above (rest ++ more) ?_
  rw [eq, List.append_assoc]

theorem HasRules.unique {own' : Text → Bool} (h : w.HasRules names own)
    (h' : w.HasRules names own') : own = own' := by
  obtain ⟨t, read, compiled⟩ := h
  obtain ⟨t', read', compiled'⟩ := h'
  cases read.symm.trans read'
  exact Except.ok.inj (compiled.symm.trans compiled')

end Survey

end IgnoreFilter

end EnvReads
