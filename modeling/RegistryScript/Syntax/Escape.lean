import RegistryScript.Numeral.Hexadecimal
import RegistryScript.Text.Display

/-! # Escape sequences of string literals

* `decodeEscape`: the text an escape sequence stands for: a code point given by its hexadecimal
  digits, a control character with a letter of its own, nothing for a line continuation, and for
  any other sequence what follows the backslash.
* `EscapeError`: digits that denote no code point.
-/

namespace RegistryScript
set_option autoImplicit false

inductive EscapeError
  | notHexadecimal (digits : Text)
  | notACodePoint
  /-- The number does not even fit into 32 bits with a sign. -/
  | tooLarge
deriving DecidableEq, Repr

def EscapeError.message : EscapeError → Text
  | .notHexadecimal digits =>
    "invalid literal for int() with base 16: " ++ digits.display.take 200
  | .notACodePoint => "chr() arg not in range(0x110000)"
  | .tooLarge => "Python int too large to convert to C int"

def codePointOf (n : Int) : Except EscapeError CodePoint :=
  if n < -0x80000000 ∨ 0x80000000 ≤ n then .error .tooLarge
  else if h : 0 ≤ n ∧ n.toNat < 0x110000 then .ok ⟨n.toNat, h.2⟩
  else .error .notACodePoint

def codePointOfDigits (digits : Text) : Except EscapeError CodePoint :=
  match digits.hexadecimal? with
  | some n => codePointOf n
  | none => .error (.notHexadecimal digits)

def controlLetter? (c : CodePoint) : Option CodePoint :=
  if c = 'n' then some '\n'
  else if c = 't' then some '\t'
  else if c = 'r' then some '\r'
  else if c = 'b' then some '\x08'
  else if c = 'f' then some '\x0C'
  else if c = 'v' then some '\x0B'
  else if c = '0' then some '\x00'
  else none

/-- The text an escape sequence stands for, given what follows its first code point. -/
def decodeEscapeBody : Text → Except EscapeError Text
  | [] => .ok []
  | [c] =>
    match controlLetter? c with
    | some control => .ok [control]
    | none => if c = '\n' ∨ c = '\r' ∨ c = '\u2028' ∨ c = '\u2029' then .ok [] else .ok [c]
  | c :: d :: t =>
    if c = 'u' ∧ d = '\x7b' then do return [← codePointOfDigits t.dropLast]
    else if c = 'u' ∨ c = 'x' then do return [← codePointOfDigits (d :: t)]
    else if c = '\n' ∨ c = '\r' ∨ c = '\u2028' ∨ c = '\u2029' then .ok []
    else .ok (c :: d :: t)

def decodeEscape (sequence : Text) : Except EscapeError Text := decodeEscapeBody (sequence.drop 1)

end RegistryScript
