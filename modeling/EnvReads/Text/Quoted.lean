import EnvReads.Text.Unprintable

/-!
# Quoted text

Text between quotes, as messages show file names: single quotes unless the text holds one and no
double quote; a backslash, the chosen quote and everything unprintable is escaped.
-/

namespace EnvReads

namespace Text

def quoteOf (t : Text) : CodePoint :=
  if t.contains CodePoint.apostrophe && !t.contains CodePoint.doubleQuote then
    CodePoint.doubleQuote
  else
    CodePoint.apostrophe

/-- One code point inside the given quotes. -/
def escapeIn (quote c : CodePoint) : Text :=
  if c = quote ∨ c = CodePoint.backslash then [CodePoint.backslash, c]
  else if c = '\n' then "\\n"
  else if c = '\r' then "\\r"
  else if c = '\t' then "\\t"
  else if c.isUnprintable then
    if c.val < 0x100 then ("\\x" : Text) ++ ofHex 2 c.val
    else if c.val < 0x10000 then ("\\u" : Text) ++ ofHex 4 c.val
    else ("\\U" : Text) ++ ofHex 8 c.val
  else [c]

def quoted (t : Text) : Text :=
  let quote := quoteOf t
  quote :: t.flatMap (escapeIn quote) ++ [quote]

end Text

end EnvReads
