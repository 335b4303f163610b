import RegistryScript.Text.Display
import RegistryScript.Value.Basic

/-! # Values as messages show them

* `Value.display`: a text between quotes, numbers by their numerals, lists in brackets, tables in
  braces with a colon after each key.
* `Value.isShowable`: a value whose integers are short enough to be shown.
-/

namespace RegistryScript
set_option autoImplicit false

def Date.fields (d : Date) : List Nat := [d.year, d.month, d.day]

/-- The fields of a time of day; seconds and their fraction are left out if nothing but zeros
follows. -/
def Clock.fields (c : Clock) : List Nat :=
  if c.micro ≠ 0 then [c.hour, c.minute, c.second, c.micro]
  else if c.second ≠ 0 then [c.hour, c.minute, c.second]
  else [c.hour, c.minute]

/-- A distance from universal time, in minutes; the days are rounded down. -/
def displayZone (minutes : Int) : Text :=
  if minutes = 0 then "datetime.timezone.utc"
  else
    let seconds : Text := "seconds=" ++ Text.ofInt (minutes % 1440 * 60)
    let days : Text := if minutes < 0 then "days=" ++ Text.ofInt (minutes / 1440) ++ ", " else ""
    "datetime.timezone(datetime.timedelta(" ++ days ++ seconds ++ "))"

namespace Value

mutual

def display : Value → Text
  | .null => "None"
  | .bool true => "True"
  | .bool false => "False"
  | .int n => Text.ofInt n
  | .float x => x.display "nan" "inf"
  | .text t => t.display
  | .date d => "datetime.date(" ++ Text.join ", " (d.fields.map Text.ofNat) ++ ")"
  | .clock c => "datetime.time(" ++ Text.join ", " (c.fields.map Text.ofNat) ++ ")"
  | .moment d c zone =>
    let zone := zone.elim [] fun z => [("tzinfo=" : Text) ++ displayZone z]
    "datetime.datetime(" ++ Text.join ", " ((d.fields ++ c.fields).map Text.ofNat ++ zone) ++ ")"
  | .list items => "[" ++ Text.join ", " (displayItems items) ++ "]"
  | .table entries => "\x7b" ++ Text.join ", " (displayEntries entries) ++ "\x7d"

def displayItems : List Value → List Text
  | [] => []
  | item :: items => item.display :: displayItems items

def displayEntries : List (Text × Value) → List Text
  | [] => []
  | (key, value) :: entries => (key.display ++ ": " ++ value.display) :: displayEntries entries

end

mutual

/-- No integer in the value has more than 4300 digits; longer ones are not shown. -/
def isShowable : Value → Bool
  | .int n => (Text.ofNat n.natAbs).length ≤ 4300
  | .list items => itemsShowable items
  | .table entries => entriesShowable entries
  | .null | .bool _ | .float _ | .text _ | .date _ | .clock _ | .moment _ _ _ => true

def itemsShowable : List Value → Bool
  | [] => true
  | item :: items => item.isShowable && itemsShowable items

def entriesShowable : List (Text × Value) → Bool
  | [] => true
  | (_, value) :: entries => value.isShowable && entriesShowable entries

end

end Value

end RegistryScript
