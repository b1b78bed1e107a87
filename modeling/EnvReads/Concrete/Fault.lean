import EnvReads.Concrete.Escape
import EnvReads.Text.Quoted

/-!
# Faults of conversion

Why a concrete tree gives no syntax tree, and the words for it.
-/

namespace EnvReads

inductive ConcreteFault where
  /-- There is no grammar of this name. -/
  | unknownGrammar (name : Text)
  /-- The source does not follow the grammar; line and column of the first error. -/
  | syntaxError (line column : Nat)
  /-- A template literal stands where a call has its arguments. -/
  | taggedTemplate
  | escape (fault : EscapeFault)
  /-- A node lies outside the source. -/
  | outside
deriving DecidableEq

def ConcreteFault.message : ConcreteFault → Text
  | unknownGrammar name => name.quoted
  | syntaxError line column =>
    "Syntax error at line " ++ Text.ofNat line ++ ", column " ++ Text.ofNat column
  | taggedTemplate => "TreeConverter.make() got multiple values for argument 'tag'"
  | escape fault => fault.message
  | outside => "list index out of range"

end EnvReads
