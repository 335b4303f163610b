import RegistryScript.Text.CodePoint

/-! # UTF-8

* `CodePoint.utf8`: the bytes of a code point. A surrogate is encoded like any other code point
  of its range, so that every text has an encoding.
* `Text.utf8`: the bytes of a text.
* `Text.utf8Index`: for each byte of the encoding, the index of the code point it belongs to, and
  one entry more for the end.
-/

namespace RegistryScript
set_option autoImplicit false

namespace CodePoint

def utf8Size (c : CodePoint) : Nat :=
  if c.val < 0x80 then 1 else if c.val < 0x800 then 2 else if c.val < 0x10000 then 3 else 4

/-- A continuation byte: the six bits of a value whose lowest bit counts `unit`. -/
def trailByte (value unit : Nat) : UInt8 := UInt8.ofNat (0x80 + value / unit % 0x40)

def utf8 (c : CodePoint) : List UInt8 :=
  let v := c.val
  if v < 0x80 then [UInt8.ofNat v]
  else if v < 0x800 then [UInt8.ofNat (0xC0 + v / 0x40), trailByte v 1]
  else if v < 0x10000 then [UInt8.ofNat (0xE0 + v / 0x1000), trailByte v 0x40, trailByte v 1]
  else
    [UInt8.ofNat (0xF0 + v / 0x40000), trailByte v 0x1000, trailByte v 0x40, trailByte v 1]

@[simp] theorem length_utf8 (c : CodePoint) : c.utf8.length = c.utf8Size := by
  simp only [utf8, utf8Size]
  split
  · rfl
  · split
    · rfl
    · split <;> rfl

end CodePoint

namespace Text

def utf8 (t : Text) : List UInt8 := t.flatMap CodePoint.utf8

def utf8Size : Text → Nat
  | [] => 0
  | c :: t => c.utf8Size + utf8Size t

theorem length_utf8 (t : Text) : t.utf8.length = t.utf8Size := by
  induction t with
  | nil => rfl
  | cons c t ih => simp_all [utf8, utf8Size]

/-- The index of the code point of each byte, the first code point having the given index, and the
index after the last one. -/
def utf8IndexFrom (first : Nat) : Text → List Nat
  | [] => [first]
  | c :: t => List.replicate c.utf8Size first ++ utf8IndexFrom (first + 1) t

def utf8Index (t : Text) : List Nat := utf8IndexFrom 0 t

def isAscii (t : Text) : Bool := t.all CodePoint.isAscii

end Text

end RegistryScript
