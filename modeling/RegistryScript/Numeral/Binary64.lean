import RegistryScript.Text.Decimal

/-! # Double-precision numbers and their shortest numerals

* `Binary64`: a double-precision number, given by its bits.
* `Binary64.ofDecimal`: the nearest number to a decimal one.
* `Binary64.shortest`: the decimal with the fewest digits that reads back as the number, of several
  the nearest to it; found in exact arithmetic on the mantissa and the exponent.
* `Binary64.display`: its numeral, positional from `0.0001` to below `10 ^ 16` and with an exponent
  of at least two digits elsewhere. A whole number keeps a final `.0`.
-/

namespace RegistryScript
set_option autoImplicit false

structure Binary64 where
  /-- Sign, eleven bits of exponent and 52 bits of fraction, the sign highest. -/
  bits : UInt64
deriving DecidableEq, Repr

/-- A decimal number `digits * 10 ^ exponent`. -/
structure Decimal where
  digits : Nat
  exponent : Int
deriving DecidableEq, Repr

namespace Binary64

/-! ## Parts -/

def isNegative (x : Binary64) : Bool := x.bits.toNat / 0x8000000000000000 == 1

def exponentBits (x : Binary64) : Nat := x.bits.toNat / 0x10000000000000 % 0x800

def fraction (x : Binary64) : Nat := x.bits.toNat % 0x10000000000000

def isSpecial (x : Binary64) : Bool := x.exponentBits == 0x7FF

def isNaN (x : Binary64) : Bool := x.isSpecial && x.fraction != 0

def isZero (x : Binary64) : Bool := x.exponentBits == 0 && x.fraction == 0

/-- The magnitude of a finite number is `mantissa * 2 ^ exponent`. -/
def mantissa (x : Binary64) : Nat :=
  if x.exponentBits = 0 then x.fraction else x.fraction + 0x10000000000000

def exponent (x : Binary64) : Int := (max x.exponentBits 1 : Nat) - (1075 : Int)

/-- The number below is only half as far away as the number above. -/
def isBinade (x : Binary64) : Bool := x.fraction == 0 && 1 < x.exponentBits

/-! ## Reading -/

def infinity (negative : Bool) : Binary64 :=
  ⟨if negative then 0xFFF0000000000000 else 0x7FF0000000000000⟩

def nan : Binary64 := ⟨0x7FF8000000000000⟩

/-- The number nearest to a decimal one. Decimals far beyond the range are settled by their size
alone. -/
def ofDecimal (negative : Bool) (d : Decimal) : Binary64 :=
  let size : Int := (Nat.toDigits 10 d.digits).length + d.exponent
  let sign : UInt64 := if negative then 0x8000000000000000 else 0
  if d.digits = 0 ∨ size < -400 then ⟨sign⟩
  else if 400 < size then infinity negative
  else
    ⟨(Float.ofScientific d.digits (decide (d.exponent < 0)) d.exponent.natAbs).toBits ||| sign⟩

/-! ## The fewest digits -/

/-- Powers with an integer exponent, as a numerator and a denominator. -/
def power (base : Nat) (exponent : Int) : Nat × Nat :=
  (base.pow exponent.toNat, base.pow (-exponent).toNat)

def leadingExponent (num den : Nat) : Int :=
  if den ≤ num then (Nat.toDigits 10 (num / den)).length - 1
  else -(((List.range 400).find? fun j => decide (den ≤ num * Nat.pow 10 j)).getD 400 : Nat)

/-- The neighbour on the grid of multiples of `10 ^ grid` that reads back as the number, if one
does; of two the nearer one, and of two equally near the even one. The three products compare the
neighbour with the ends of the interval that reads back as the number, in quarters of the last
place; the ends belong to it if the mantissa is even. -/
def onGrid? (x : Binary64) (grid : Int) : Option Decimal :=
  let (two, half) := power 2 x.exponent
  let (ten, tenth) := power 10 grid
  let value := 4 * x.mantissa * two * tenth
  let unit := 4 * half * ten
  let low := (4 * x.mantissa - (if x.isBinade then 1 else 2)) * two * tenth
  let high := (4 * x.mantissa + 2) * two * tenth
  let reads (n : Nat) : Bool :=
    if x.mantissa % 2 = 0 then low ≤ n * unit && n * unit ≤ high
    else low < n * unit && n * unit < high
  let below := value / unit
  let above := below + 1
  let downwards := value - below * unit
  let upwards := above * unit - value
  match reads below, reads above with
  | true, true =>
    if downwards < upwards ∨ (downwards = upwards ∧ below % 2 = 0) then some ⟨below, grid⟩
    else some ⟨above, grid⟩
  | true, false => some ⟨below, grid⟩
  | false, true => some ⟨above, grid⟩
  | false, false => none

/-- The decimal with the fewest digits that reads back as a positive finite number. -/
def shortest (x : Binary64) : Decimal :=
  let (two, half) := power 2 x.exponent
  let leading := leadingExponent (x.mantissa * two) half
  ((List.range 17).findSome? fun n : Nat => x.onGrid? (leading - n)).getD ⟨x.mantissa, 0⟩

/-! ## Numerals -/

def significant (digits : Nat) : Text :=
  ((Text.ofNat digits).reverse.dropWhile fun c : CodePoint => c = '0').reverse

def layout (d : Decimal) : Text :=
  let digits := significant d.digits
  let point : Int := (Text.ofNat d.digits).length + d.exponent
  if 16 < point ∨ point ≤ -4 then
    let size := Text.ofNat (point - 1).natAbs
    let fraction : Text := if digits.length ≤ 1 then [] else "." ++ digits.drop 1
    digits.take 1 ++ fraction ++ (if point < 1 then "e-" else "e+") ++
      (if size.length < 2 then "0" ++ size else size)
  else if point ≤ 0 then "0." ++ List.replicate (-point).toNat ('0' : CodePoint) ++ digits
  else if digits.length ≤ point.toNat then
    digits ++ List.replicate (point.toNat - digits.length) ('0' : CodePoint) ++ ".0"
  else digits.take point.toNat ++ "." ++ digits.drop point.toNat

def display (nan infinity : Text) (x : Binary64) : Text :=
  if x.isNaN then nan
  else
    let sign : Text := if x.isNegative then "-" else ""
    sign ++
      (if x.isSpecial then infinity else if x.isZero then "0.0" else layout x.shortest)

end Binary64

end RegistryScript
