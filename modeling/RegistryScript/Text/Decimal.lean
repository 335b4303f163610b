import RegistryScript.Text.CodePoint

/-! # Decimal numerals

* `Text.ofNat`: the decimal digits of a natural number, without leading zeros.
* `Text.ofInt`: the same for an integer, a minus sign in front of a negative one.
-/

namespace RegistryScript
set_option autoImplicit false

namespace Text

def ofNat (n : Nat) : Text := (Nat.toDigits 10 n).map CodePoint.ofChar

def ofInt : Int → Text
  | .ofNat n => ofNat n
  | .negSucc n => "-" ++ ofNat (n + 1)

end Text

end RegistryScript
