import EnvReads.Proofs.Outcome
import EnvReads.Syntax.EnvAccess
import EnvReads.Syntax.AccessPath

/-!
# Property keys in JavaScript

JavaScript makes a text of every literal that is a key: the truth values are `true` and `false`,
null is `null`, and a number has its shortest digits, written positionally from 10^-6 up to 10^21
and without a fraction if it is an integer. The analysis spells truth values and many numbers in
other ways, so that it can take two keys for one, or one for two; keys that are names or texts it
reads as JavaScript does (`Node.memberKey?_eq_scriptKey?`).
-/

namespace EnvReads

namespace Double

/-- The spelling of numbers in JavaScript, where fractions of zero are left out. -/
def script : Spelling where
  leastPositional := -6
  beyondPositional := 21
  exponentWidth := 1
  nan := "NaN"
  infinity := "Infinity"

/-- The text of a number in JavaScript. -/
def scriptText (x : Double) : Text :=
  if x.isNonzero then
    let t := x.spell script
    if (".0" : Text).isSuffixOf t then t.take (t.length - 2) else t
  else
    "0"

/-- The double nearest to an integer. -/
def ofInt (n : Int) : Double :=
  ofRatio (n < 0) n.natAbs 1

example : (ofDecimal false 1 (-7)).scriptText = "1e-7" ∧
    (ofDecimal false 1 (-6)).scriptText = "0.000001" ∧
    (ofInt 9007199254740993).scriptText = "9007199254740992" ∧
    (ofDecimal false 15 20).scriptText = "1.5e+21" := by
  decide +kernel

end Double

namespace Node

/-- A number with the mark of a big integer, which is not rounded. -/
def isBigInteger (n : Node) : Bool :=
  ((n.field? "raw").bind Value.text?).any fun raw => raw.getLast? = some (CodePoint.ofChar 'n')

/-- The text that JavaScript makes of a literal that is a key. A literal whose value is null can be
another one that is not interpreted, as its source text shows. -/
def scriptText? (n : Node) : Option Text :=
  match n.value with
  | .text t => some t
  | .bool b => some (if b then "true" else "false")
  | .int i => some (if n.isBigInteger then Text.ofInt i else (Double.ofInt i).scriptText)
  | .float x => some x.scriptText
  | .null =>
    if (n.field? "raw").all fun raw => raw.text? = some ("null" : Text) then some "null" else none
  | .list _ | .record _ => none

/-- The key under which JavaScript inserts a property, if it is a name or a literal. -/
def scriptKey? (m : Node) : Option Value :=
  (m.child? "key").bind fun key =>
    if key.isIdentifier && !m.computed then key.name.present?
    else if key.kind = .literal then key.scriptText?.map .text
    else none

/-- Keys that are names or texts are read as JavaScript reads them. -/
theorem memberKey?_eq_scriptKey? {m : Node}
    (texts : ∀ key, m.child? "key" = some key → key.kind = .literal → key.value.text?.isSome) :
    m.memberKey? "key" = .ok m.scriptKey? := by
  rw [memberKey?, scriptKey?]
  cases child : m.child? "key" with
  | none => rfl
  | some key =>
      simp only [Option.elim_some, Option.bind_some, staticKey?]
      split
      · rfl
      · split
        · next literal =>
            obtain ⟨t, text⟩ := Option.isSome_iff_exists.mp (texts key child literal)
            cases value : key.value with
            | text t' => simp [scriptText?, value, Value.keyText?, Value.writable, Value.isWritable,
                Except.map]
            | null | bool _ | int _ | float _ | list _ | record _ =>
                simp [value, Value.text?] at text
        · rfl

end Node

end EnvReads
