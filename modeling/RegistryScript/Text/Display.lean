import RegistryScript.Text.Printable
import RegistryScript.Text.Quoted

/-! # Texts as messages show them

* `Text.display`: a text between quotes. Single quotes are used unless the text holds a single
  quote and no double quote. The backslash, the quote in use and what is not printable are written
  as escapes; other characters stand as they are.
-/

namespace RegistryScript
set_option autoImplicit false

/-- The escape of a code point that is not printable: as few as two, four or eight hexadecimal
digits, by its size. -/
def CodePoint.numericEscape (c : CodePoint) : Text :=
  if c.val < 0x100 then "\\x" ++ [hexDigit (c.val / 0x10), hexDigit (c.val % 0x10)]
  else if c.val < 0x10000 then "\\u" ++ hex4 c.val
  else "\\U" ++ hex4 (c.val / 0x10000) ++ hex4 (c.val % 0x10000)

def CodePoint.display (quote c : CodePoint) : Text :=
  if c = quote ∨ c = '\\' then ['\\', c]
  else if c = '\n' then "\\n"
  else if c = '\r' then "\\r"
  else if c = '\t' then "\\t"
  else if c.isPrintable then [c]
  else c.numericEscape

def Text.displayQuote (t : Text) : CodePoint :=
  if t.contains '\x27' && !t.contains '"' then '"' else '\x27'

def Text.display (t : Text) : Text :=
  [t.displayQuote] ++ t.flatMap (CodePoint.display t.displayQuote) ++ [t.displayQuote]

end RegistryScript
