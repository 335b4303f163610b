import RegistryScript.Text.Units

/-! # Quoted texts

A quoted text is a double-quoted string literal of printable ASCII: what is not printable ASCII is
written by its UTF-16 code units, a surrogate pair standing for a code point beyond `0xFFFF`.

* `Text.quote`: the literal of a text. The double quote, the backslash and the five control
  characters with a letter of their own are written with a backslash, all else outside the
  printable range as `\u` and four lower-case hexadecimal digits.
-/

namespace RegistryScript
set_option autoImplicit false

def hexDigit (n : Nat) : CodePoint := CodePoint.ofChar (Nat.digitChar n)

def hex4 (n : Nat) : Text :=
  [hexDigit (n / 0x1000 % 0x10), hexDigit (n / 0x100 % 0x10), hexDigit (n / 0x10 % 0x10),
    hexDigit (n % 0x10)]

def unitEscape (unit : Nat) : Text := "\\u" ++ hex4 unit

def CodePoint.quoted (c : CodePoint) : Text :=
  if c = '"' then "\\\""
  else if c = '\\' then "\\\\"
  else if c = '\n' then "\\n"
  else if c = '\r' then "\\r"
  else if c = '\t' then "\\t"
  else if c = '\x08' then "\\b"
  else if c = '\x0C' then "\\f"
  else if 0x20 ≤ c.val ∧ c.val ≤ 0x7E then [c]
  else c.units16.flatMap unitEscape

def Text.quote (t : Text) : Text := "\"" ++ t.flatMap CodePoint.quoted ++ "\""

end RegistryScript
