import EnvReads.Fault
import EnvReads.Text

/-!
# Matchers

Ignore files are read with a library for their patterns. All that is known of it is what it is asked
for: it compiles the lines of an ignore file, which can fail, and then tells of paths whether these
rules ignore them. A path is given as text, a directory with a slash at its end.
-/

namespace EnvReads

structure Matcher where
  compile : List Text → Except Fault (Text → Bool)

end EnvReads
