/-! # Characters of ECMAScript source text

* `endsLine`: the four characters that end a line.
* `isSpace`: white space within a line.
* `isWordStart`, `isWordPart`: what identifier names are made of. Beyond the seven-bit range all
  characters but white space count; a finer choice is left to whoever writes the script.
-/

namespace RegistryScript.Grammar
set_option autoImplicit false

def endsLine (c : Char) : Bool := c = '\n' || c = '\r' || c = '\u2028' || c = '\u2029'

/-- White space other than line ends: tabs, form feeds, spaces of all widths and byte-order
marks. -/
def isSpace (c : Char) : Bool :=
  c = ' ' || c = '\t' || c = '\x0B' || c = '\x0C' || c = '\u00A0' || c = '\u1680' ||
    ('\u2000' ≤ c && c ≤ '\u200B') || c = '\u202F' || c = '\u205F' || c = '\u2060' ||
    c = '\u3000' || c = '\uFEFF'

def isWordStart (c : Char) : Bool :=
  c.isAlpha || c = '_' || c = '$' || ('\x7F' < c && !endsLine c && !isSpace c)

def isWordPart (c : Char) : Bool := isWordStart c || c.isDigit

def byteSize (cs : List Char) : Nat := cs.foldl (fun size c => size + c.utf8Size) 0

end RegistryScript.Grammar
