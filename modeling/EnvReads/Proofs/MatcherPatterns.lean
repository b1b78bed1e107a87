import EnvReads.Ignore.Rules
import EnvReads.Proofs.IgnoredPlaces
import EnvReads.Proofs.PlainPatterns

/-!
# What is assumed of matchers

How the patterns of ignore files match is left to the library that they are read with. What the
theory of filters needs of it is stated here: that lines are read as patterns of which the last one
that matches a path decides (`Matcher.Patterns`), and that a pattern without bracket expressions
which matches a directory matches the paths underneath it (`Matcher.Patterns.CoversBelow`). Both
hold of the matcher that the program uses (`Matcher.standardPatterns`).
-/

namespace EnvReads

open EnvReads.Path (AreParts)

/-- How a matcher reads lines as patterns, of which the last one that matches a path decides. -/
structure Matcher.Patterns (m : Matcher) where
  Rule : Type
  /-- The pattern on a line; blank lines and comments have none. -/
  read? : Text → Option Rule
  isMatch : Rule → Text → Bool
  /-- A negated pattern keeps what it matches. -/
  isNegated : Rule → Bool
  hasBracket : Rule → Bool
  last_decides : ∀ {lines : List Text} {rules : Text → Bool}, m.compile lines = .ok rules →
    ∀ path, rules path =
      ((lines.filterMap read?).reverse.find? (isMatch · path)).any (!isNegated ·)

namespace Matcher.Patterns

variable {m : Matcher} (P : m.Patterns) {lines : List Text} {rules : Text → Bool} {path : Text}

/-- The last pattern on some lines that matches a path. -/
def decisive? (lines : List Text) (path : Text) : Option P.Rule :=
  (lines.filterMap P.read?).reverse.find? (P.isMatch · path)

/-- Rules ignore a path if the last pattern that matches it is not negated. -/
theorem ignores_iff_decisive (compiled : m.compile lines = .ok rules) :
    rules path ↔ ∃ rule, P.decisive? lines path = some rule ∧ ¬P.isNegated rule := by
  rw [P.last_decides compiled, Option.any_eq_true]
  simp [decisive?]

/-- No pattern on the lines is negated, and none has bracket expressions. -/
def isPlain (lines : List Text) : Bool :=
  (lines.filterMap P.read?).all fun rule => !P.isNegated rule && !P.hasBracket rule

variable {P} in
/-- Lines are plain if no pattern on them is negated or has a bracket expression. -/
theorem isPlain_iff : P.isPlain lines ↔
    ∀ rule ∈ lines.filterMap P.read?, ¬P.isNegated rule ∧ ¬P.hasBracket rule := by
  simp only [isPlain, List.all_eq_true, Bool.and_eq_true, Bool.not_eq_true', Bool.not_eq_true]

variable {P} in
/-- Where nothing is taken back, one pattern is enough. -/
theorem ignores_iff_of_isPlain (compiled : m.compile lines = .ok rules) (plain : P.isPlain lines) :
    rules path ↔ ∃ rule ∈ lines.filterMap P.read?, P.isMatch rule path := by
  rw [P.ignores_iff_decisive compiled]
  constructor
  · rintro ⟨rule, decides, -⟩
    have found := List.find?_some decides
    exact ⟨rule, List.mem_reverse.mp (List.mem_of_find?_eq_some decides), found⟩
  · rintro ⟨rule, member, found⟩
    have decided : (P.decisive? lines path).isSome :=
      List.find?_isSome.mpr ⟨rule, List.mem_reverse.mpr member, found⟩
    obtain ⟨other, decides⟩ := Option.isSome_iff_exists.mp decided
    have member := List.mem_reverse.mp (List.mem_of_find?_eq_some decides)
    exact ⟨other, decides, (isPlain_iff.mp plain other member).1⟩

/-- Names without line feeds, which patterns do not match. -/
def OnOneLine (names : List Text) : Prop :=
  ∀ name ∈ names, Piece.lineFeed ∉ name

instance (names : List Text) : Decidable (OnOneLine names) :=
  inferInstanceAs (Decidable (∀ name ∈ names, Piece.lineFeed ∉ name))

/-- A pattern without bracket expressions that matches a directory matches the paths underneath. -/
def CoversBelow : Prop :=
  ∀ line rule, P.read? line = some rule → ¬P.hasBracket rule → ∀ names more,
    AreParts (names ++ more) → OnOneLine (names ++ more) → more ≠ [] →
    P.isMatch rule (IgnoreFilter.shownAs names "/") →
    P.isMatch rule (IgnoreFilter.shownAs (names ++ more) [])

variable {P} {names more : List Text}

/-- Plain rules that ignore a directory ignore all below it. -/
theorem CoversBelow.ignores_append (covers : P.CoversBelow) (compiled : m.compile lines = .ok rules)
    (plain : P.isPlain lines) (parts : AreParts (names ++ more))
    (oneLine : OnOneLine (names ++ more)) (inner : more ≠ [])
    (ignored : rules (IgnoreFilter.shownAs names "/")) :
    rules (IgnoreFilter.shownAs (names ++ more) []) := by
  rw [ignores_iff_of_isPlain compiled plain] at ignored ⊢
  obtain ⟨rule, member, found⟩ := ignored
  obtain ⟨line, -, read⟩ := List.mem_filterMap.mp member
  exact ⟨rule, member, covers line rule read (isPlain_iff.mp plain rule member).2 names more parts
    oneLine inner found⟩

end Matcher.Patterns

/-! ## The matcher that the program uses -/

namespace IgnoreRules

/-- Lines that can be compiled give the patterns on them, in order. -/
theorem ofLines_eq_ok {lines : List Text} {rules : IgnoreRules} (h : ofLines lines = .ok rules) :
    rules = lines.filterMap fun line => (Pattern.read? line).toOption.join := by
  obtain ⟨patterns, read, eq⟩ := Except.bind_eq_ok_iff.mp h
  cases eq
  clear h
  induction lines generalizing patterns with
  | nil =>
      cases read
      rfl
  | cons line lines ih =>
      rw [List.mapM_cons] at read
      obtain ⟨first, here, read⟩ := Except.bind_eq_ok_iff.mp read
      obtain ⟨others, later, eq⟩ := Except.bind_eq_ok_iff.mp read
      cases eq
      have seen : (Pattern.read? line).toOption.join = first := by
        rw [here]
        rfl
      rw [List.filterMap_cons, List.filterMap_cons, seen, ih others later]
      rfl

theorem endsOpen_normalizePath (t : Text) : Piece.EndsOpen (normalizePath (t ++ "/")) := by
  have dropped : ∀ n, Piece.EndsOpen (List.drop n (t ++ "/")) := by
    intro n c last
    rw [List.getLast?_drop, List.getLast?_append] at last
    split at last
    · cases last
    · cases last
      rfl
  rw [normalizePath]
  split
  · exact dropped 1
  · split
    · exact dropped 2
    · exact dropped 0

theorem startsWith_append (start : Text) {t r : Text} (short : start.length ≤ t.length) :
    Text.startsWith start (t ++ r) = Text.startsWith start t := by
  rw [Bool.eq_iff_iff, Text.startsWith, Text.startsWith, List.isPrefixOf_iff_prefix,
    List.isPrefixOf_iff_prefix]
  constructor
  · intro initial
    exact List.prefix_of_prefix_length_le initial (List.prefix_append t r) short
  · intro initial
    exact initial.trans (List.prefix_append t r)

/-- What is dropped in front does not go past a slash. -/
theorem normalizePath_append (t r : Text) :
    normalizePath (t ++ "/" ++ r) = normalizePath (t ++ "/") ++ r := by
  cases t with
  | nil => rfl
  | cons c t =>
      have long : 2 ≤ (c :: t ++ ("/" : Text)).length := by
        simp [Text.ofString]
      have first : 1 ≤ (c :: t ++ ("/" : Text)).length := Nat.le_of_succ_le long
      rw [normalizePath, normalizePath, startsWith_append "/" first,
        startsWith_append "./" long]
      split
      · rw [List.drop_append_of_le_length first]
      · split
        · rw [List.drop_append_of_le_length long]
        · rfl

/-- How rules see what is below a directory starts with how they see the directory. -/
theorem exists_normalizePath_shownAs {names more : List Text} (parts : AreParts (names ++ more))
    (inner : more ≠ []) : ∃ t r,
      normalizePath (IgnoreFilter.shownAs names "/") = t ∧ Piece.EndsOpen t ∧
        normalizePath (IgnoreFilter.shownAs (names ++ more) []) = t ++ r := by
  have shown : ∀ {names : List Text}, AreParts names → names ≠ [] →
      (Path.here.below names).toText = Text.joinWith "/" names := by
    intro names parts named
    have eq := Path.parts_below (p := Path.here) parts
    rw [Path.toText_of_parts_ne_nil (by rw [eq]; exact named), eq, Path.anchor_below parts]
    rfl
  cases names with
  | nil => exact ⟨[], _, by decide, nofun, rfl⟩
  | cons first names =>
      obtain ⟨before, -⟩ := Path.areParts_append_iff.mp parts
      refine ⟨_, Text.joinWith "/" more, rfl, endsOpen_normalizePath _, ?_⟩
      refine Eq.trans (congrArg _ ?_) (normalizePath_append _ _)
      rw [IgnoreFilter.shownAs, List.append_nil, shown parts (by simp), shown before (by simp)]
      exact Text.joinWith_append (List.cons_ne_nil _ _) inner

end IgnoreRules

namespace Matcher

open IgnoreRules (normalizePath)

/-- The matcher that the program uses reads a line as a pattern. -/
def standardPatterns : Patterns .standard where
  Rule := Pattern
  read? line := (Pattern.read? line).toOption.join
  isMatch pattern path := pattern.isMatch (normalizePath path)
  isNegated := Pattern.negated
  hasBracket := Pattern.hasSet
  last_decides := by
    intro lines rules compiled path
    obtain ⟨patterns, read, rfl⟩ := Except.map_eq_ok_iff.mp compiled
    rw [IgnoreRules.ignores, IgnoreRules.decisive?, IgnoreRules.ofLines_eq_ok read]

/-- The patterns of the standard matcher that match a directory match all that is below it. -/
theorem coversBelow_standardPatterns : standardPatterns.CoversBelow := by
  intro line pattern read plain names more parts _ inner found
  obtain ⟨t, r, eq, ends, below⟩ := IgnoreRules.exists_normalizePath_shownAs parts inner
  have read : Pattern.read? line = .ok (some pattern) :=
    Except.toOption_eq_some_iff.mp (Option.join_eq_some_iff.mp read)
  change Pattern.isMatch pattern (normalizePath _) = true at found
  change Pattern.isMatch pattern (normalizePath _) = true
  rw [eq] at found
  rw [below]
  exact Pattern.isMatch_append read plain ends found

end Matcher

end EnvReads
