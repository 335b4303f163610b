import RegistryScript.Text.Blank

/-! # Hexadecimal numerals

* `Text.hexadecimal?`: the number a hexadecimal numeral denotes. A numeral may have blanks around
  it, a sign, the mark `0x` and single underscores between its digits.
-/

namespace RegistryScript
set_option autoImplicit false

/-- The value of a hexadecimal digit; the decimal digits of all scripts count. -/
def CodePoint.hexadecimalDigit? (c : CodePoint) : Option Nat :=
  if 0x41 ≤ c.val ∧ c.val ≤ 0x46 then some (c.val - 0x37)
  else if 0x61 ≤ c.val ∧ c.val ≤ 0x66 then some (c.val - 0x57)
  else c.decimalDigit?

namespace Text

/-- The number of digits with single underscores between them, behind digits that denote `value`;
`open_` tells that a digit has to follow. -/
def hexadecimalDigits? (value : Nat) (open_ : Bool) : Text → Option Nat
  | [] => if open_ then none else some value
  | c :: t =>
    if c = '_' then if open_ then none else hexadecimalDigits? value true t
    else
      match c.hexadecimalDigit? with
      | some digit => hexadecimalDigits? (16 * value + digit) false t
      | none => none

/-- A numeral without the mark `0x` and an underscore behind it. -/
def dropHexadecimalMark : Text → Text
  | digit :: mark :: t =>
    if digit.hexadecimalDigit? = some 0 ∧ (mark = 'x' ∨ mark = 'X') then
      match t with
      | c :: rest => if c = '_' then rest else t
      | [] => []
    else digit :: mark :: t
  | t => t

def trimBlanks (t : Text) : Text :=
  ((t.dropWhile CodePoint.isBlank).reverse.dropWhile CodePoint.isBlank).reverse

def hexadecimal? (t : Text) : Option Int :=
  let natural (t : Text) : Option Nat := hexadecimalDigits? 0 true t.dropHexadecimalMark
  match t.trimBlanks with
  | [] => none
  | c :: rest =>
    if c = '-' then (natural rest).map fun n => -(n : Int)
    else if c = '+' then (natural rest).map Int.ofNat
    else (natural (c :: rest)).map Int.ofNat

end Text

end RegistryScript
