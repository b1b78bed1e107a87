import EnvReads.Path
import EnvReads.Syntax.Span

/-!
# Declaration sites

One step of the evidence for the value of a computed key.
-/

namespace EnvReads

inductive SiteKind where
  /-- The value comes from a module. -/
  | moduleReference
  | literal (value : Value)
  | unresolved

structure Site where
  kind : SiteKind
  /-- The file of the step; for a module reference, the module. -/
  filename : Option Path
  span : Option Span

namespace Site

def moduleReference (path : Path) : Site :=
  ⟨.moduleReference, some path, none⟩

def literal (path : Path) (span : Option Span) (value : Value) : Site :=
  ⟨.literal value, some path, span⟩

def unresolved (path : Path) (span : Option Span) : Site :=
  ⟨.unresolved, some path, span⟩

/-- The site as a report shows it. -/
def toValue (root : Option Path) (site : Site) : Value :=
  let file : Fields :=
    [("filename", site.filename.elim .null fun p => .text (displayPath root p))]
  let loc : Fields := site.span.elim [] fun span => [("loc", span.toValue)]
  let value : Fields :=
    match site.kind with
    | .literal v => [("value", v)]
    | _ => []
  .record (file ++ loc ++ value)

end Site

end EnvReads
