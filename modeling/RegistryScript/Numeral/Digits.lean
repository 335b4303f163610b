/-! # Runs of digits

* `isHex`, `isOctal`, `isBinary`: digits of the bases other than ten.
* `digitsLength`: how long a run of digits with single underscores between them is.
* `digitsValue`: the number such a run denotes.
-/

namespace RegistryScript
set_option autoImplicit false

def isHex (c : Char) : Bool := c.isDigit || ('a' ≤ c && c ≤ 'f') || ('A' ≤ c && c ≤ 'F')

def isOctal (c : Char) : Bool := '0' ≤ c && c ≤ '7'

def isBinary (c : Char) : Bool := c = '0' || c = '1'

/-- The number of characters of a run of digits with single underscores between them. The first
character has to be a digit for it to be one. -/
def digitsLength (isDigit : Char → Bool) : List Char → Nat
  | [] => 0
  | c :: cs =>
    if isDigit c || (c = '_' && cs.head?.any isDigit) then digitsLength isDigit cs + 1 else 0

def digitValue (c : Char) : Nat :=
  if c.isDigit then c.toNat - '0'.toNat
  else if 'a' ≤ c then c.toNat - 'a'.toNat + 10
  else c.toNat - 'A'.toNat + 10

def digitsValue (base : Nat) (cs : List Char) : Nat :=
  (cs.filter fun c => c ≠ '_').foldl (fun n c => base * n + digitValue c) 0

end RegistryScript
