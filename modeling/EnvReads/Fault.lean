/-!
# Faults

What ends a run before its result. Files that cannot be read or parsed are not among them: a scan
skips those.
-/

namespace EnvReads

inductive Fault where
  /-- A parser gave something that is no syntax node. -/
  | notANode
  /-- The start or the end of a location is something other than a record. -/
  | location
  /-- A range has an offset that is no integer. -/
  | offset
  /-- The arguments of a call cannot be counted. -/
  | arguments
  /-- A list or record stands where a name is looked up. -/
  | compoundName
  /-- An assignment to something that is no static path was to be read as a declaration. -/
  | unassigned
  /-- Values that have no order among themselves were to be sorted. -/
  | unordered
  /-- A path with a segment that is no text was to be shown. -/
  | unnamedSegment
  /-- A template element whose value is not a record. -/
  | templateValue
  /-- An integer with too many digits was to be written. -/
  | longInteger
  /-- A record with both a name and a computed path, or with neither. -/
  | identity
  /-- A package manifest that is JSON but no record. -/
  | manifest
  /-- A package manifest that is nested too deeply. -/
  | deepManifest
  /-- A path that is too long for the file system. -/
  | longPath
  /-- A path through a directory that cannot be searched. -/
  | denied
  /-- A path with a null character. -/
  | nullInPath
  /-- Text with a surrogate was to be written as UTF-8. -/
  | unencodable
  /-- An ignore pattern that cannot be read. -/
  | ignorePattern
  /-- An ignore pattern with a range of characters in the wrong order. -/
  | ignoreRange
  /-- An end tag in a text that was to be printed ends nothing. -/
  | markup
deriving DecidableEq

namespace Fault

/-- The result of a computation without state, or an end with its fault. -/
def raise {α σ : Type} : Except Fault α → EStateM Fault σ α
  | .ok a => pure a
  | .error fault => throw fault

/-- The members that pass a test that can fail; the first failure counts. -/
def filter {α : Type} (p : α → Except Fault Bool) : List α → Except Fault (List α)
  | [] => .ok []
  | x :: rest => do
    let holds ← p x
    let more ← filter p rest
    return if holds then x :: more else more

theorem mem_of_mem_filter {α : Type} {p : α → Except Fault Bool} {xs ys : List α} {x : α}
    (h : filter p xs = .ok ys) (mem : x ∈ ys) : x ∈ xs := by
  induction xs generalizing ys with
  | nil =>
      cases h
      cases mem
  | cons y rest ih =>
      simp only [filter, bind, Except.bind, pure, Except.pure] at h
      split at h
      · cases h
      · split at h
        · cases h
        · next more found =>
            have later : x ∈ more → x ∈ y :: rest := fun mem => .tail y (ih found mem)
            cases h
            split at mem
            · cases mem with
              | head => exact .head rest
              | tail _ mem => exact later mem
            · exact later mem

end Fault

end EnvReads
