import RegistryScript.Numeral.Binary64

/-! # Dynamic values

Options, stylesheets and module names arrive as values whose type is checked only when they are
used. A value is a scalar, a list, or a table with its entries in their order.

* `Value.typeName`: the name of a value's type, as messages give it.
* `Value.isTruthy`: a value that counts as something: not null, false, zero or empty.
* `Value.lookup?`: the entry of a key.
-/

namespace RegistryScript
set_option autoImplicit false

structure Date where
  year : Nat
  month : Nat
  day : Nat
deriving DecidableEq, Repr

structure Clock where
  hour : Nat
  minute : Nat
  second : Nat
  micro : Nat
deriving DecidableEq, Repr

inductive Value
  | null
  | bool (b : Bool)
  | int (n : Int)
  | float (x : Binary64)
  | text (t : Text)
  | date (d : Date)
  | clock (c : Clock)
  /-- A date and a time, with the distance from universal time in minutes if it is given. -/
  | moment (d : Date) (c : Clock) (zone : Option Int)
  | list (items : List Value)
  /-- Keys and their values; no key occurs twice. -/
  | table (entries : List (Text × Value))
deriving Inhabited

namespace Value

def typeName : Value → Text
  | .null => "NoneType"
  | .bool _ => "bool"
  | .int _ => "int"
  | .float _ => "float"
  | .text _ => "str"
  | .date _ => "datetime.date"
  | .clock _ => "datetime.time"
  | .moment _ _ _ => "datetime.datetime"
  | .list _ => "list"
  | .table _ => "dict"

/-- A value other than null, false, zero and the empty text, list and table. -/
def isTruthy : Value → Bool
  | .null => false
  | .bool b => b
  | .int n => n != 0
  | .float x => !x.isZero
  | .text t => !t.isEmpty
  | .list items => !items.isEmpty
  | .table entries => !entries.isEmpty
  | .date _ | .clock _ | .moment _ _ _ => true

def lookup? (key : Text) (entries : List (Text × Value)) : Option Value :=
  (entries.find? fun e => e.1 = key).map Prod.snd

end Value

end RegistryScript
