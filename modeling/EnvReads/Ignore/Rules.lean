import EnvReads.Ignore.Matcher
import EnvReads.Ignore.Pattern

/-!
# Ignore rules

The patterns of one ignore file, as the matcher that the program uses reads them. Of the patterns
that match a path the last one decides.
-/

namespace EnvReads

abbrev IgnoreRules := List Pattern

namespace IgnoreRules

/-- The rules in the lines of an ignore file. -/
def ofLines (lines : List Text) : Except Fault IgnoreRules := do
  let patterns ← lines.mapM Pattern.read?
  return patterns.filterMap id

/-- A path as patterns see it: one slash, or `./`, in front is dropped. -/
def normalizePath (path : Text) : Text :=
  if Text.startsWith "/" path then path.drop 1
  else if Text.startsWith "./" path then path.drop 2
  else path

/-- The last pattern that matches a path. -/
def decisive? (rules : IgnoreRules) (path : Text) : Option Pattern :=
  rules.reverse.find? (·.isMatch (normalizePath path))

/-- Whether the rules ignore a path. -/
def ignores (rules : IgnoreRules) (path : Text) : Bool :=
  (rules.decisive? path).any (!·.negated)

end IgnoreRules

/-- The matcher that the program uses. -/
def Matcher.standard : Matcher where
  compile lines := (IgnoreRules.ofLines lines).map IgnoreRules.ignores

end EnvReads
