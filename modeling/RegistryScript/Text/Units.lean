import RegistryScript.Text.CodePoint

/-! # UTF-16 code units

* `CodePoint.units16`: the one or two code units of a code point.
* `Text.units16`: the code units of a text, which is what a script sees of a string.
-/

namespace RegistryScript
set_option autoImplicit false

/-- The UTF-16 code units of a code point: itself, or a surrogate pair beyond `0xFFFF`. -/
def CodePoint.units16 (c : CodePoint) : List Nat :=
  if c.val < 0x10000 then [c.val]
  else [0xD800 + (c.val - 0x10000) / 0x400, 0xDC00 + (c.val - 0x10000) % 0x400]

def Text.units16 (t : Text) : List Nat := t.flatMap CodePoint.units16

end RegistryScript
