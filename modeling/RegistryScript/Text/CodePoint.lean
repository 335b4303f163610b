/-! # Text as a sequence of code points

Script text is a list of code points, surrogates included: an escape such as `\ud800` denotes a
lone surrogate, which is a code point but no `Char`.

* `CodePoint`: a number below `0x110000`; every `Char` is one (`CodePoint.ofChar`).
* `Text`: a list of code points; a string literal stands for its text wherever one is expected.
* `Text.cut`: the part between two offsets, both counted in code points and cut off at the end.
* `Text.offset`: the offset a signed index denotes, a negative one being counted from the end.
-/

namespace RegistryScript
set_option autoImplicit false

/-! ## Code points -/

/-- A Unicode code point, the surrogates `0xD800` to `0xDFFF` included. -/
abbrev CodePoint := Fin 0x110000

namespace CodePoint

def ofChar (c : Char) : CodePoint :=
  ⟨c.toNat, by
    have h : c.toNat.isValidChar := c.valid
    rcases h with h | h <;> omega⟩

instance : Coe Char CodePoint := ⟨ofChar⟩

def isSurrogate (c : CodePoint) : Bool := 0xD800 ≤ c.val && c.val ≤ 0xDFFF

/-- The character of a code point; a surrogate is shown as the replacement character. -/
def toChar (c : CodePoint) : Char :=
  if c.isSurrogate then '\uFFFD' else Char.ofNat c.val

def isAscii (c : CodePoint) : Bool := c.val < 0x80

def isDigit (c : CodePoint) : Bool := 0x30 ≤ c.val && c.val ≤ 0x39

def isLetter (c : CodePoint) : Bool :=
  (0x41 ≤ c.val && c.val ≤ 0x5A) || (0x61 ≤ c.val && c.val ≤ 0x7A)

end CodePoint

/-! ## Texts -/

abbrev Text := List CodePoint

namespace Text

def ofString (s : String) : Text := s.toList.map CodePoint.ofChar

instance : Coe String Text := ⟨ofString⟩

def toChars (t : Text) : List Char := t.map CodePoint.toChar

/-- The text between two offsets; what lies beyond the end is not there. -/
def cut (t : Text) (start stop : Nat) : Text := (t.take stop).drop start

/-- The offset of a signed index in a text of the given length: a negative index counts from the
end and stops at the beginning. -/
def offset (length : Nat) (index : Int) : Nat :=
  if index < 0 then (index + length).toNat else index.toNat

def join (separator : Text) : List Text → Text
  | [] => []
  | [t] => t
  | t :: rest => t ++ separator ++ join separator rest

end Text

end RegistryScript
