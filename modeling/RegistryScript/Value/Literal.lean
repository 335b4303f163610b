import RegistryScript.Text.Quoted
import RegistryScript.Value.Basic

/-! # Values as script literals

* `Value.literal`: the literal of a value in a script: a quoted text, a numeral, a list in brackets
  or a table in braces. A comma and a colon are followed by a space.
-/

namespace RegistryScript
set_option autoImplicit false

namespace Value

mutual

/-- The literal of a value. Dates and times have none; they are written as null. -/
def literal : Value → Text
  | .null => "null"
  | .bool true => "true"
  | .bool false => "false"
  | .int n => Text.ofInt n
  | .float x => x.display "NaN" "Infinity"
  | .text t => t.quote
  | .date _ | .clock _ | .moment _ _ _ => "null"
  | .list items => "[" ++ Text.join ", " (literalItems items) ++ "]"
  | .table entries => "\x7b" ++ Text.join ", " (literalEntries entries) ++ "\x7d"

def literalItems : List Value → List Text
  | [] => []
  | item :: items => item.literal :: literalItems items

def literalEntries : List (Text × Value) → List Text
  | [] => []
  | (key, value) :: entries => (key.quote ++ ": " ++ value.literal) :: literalEntries entries

end

end Value

end RegistryScript
