import RegistryScript.Overlay.Basic
import RegistryScript.Syntax.Escape

/-! # Faults of a pass

* `Fault`: why a step over a syntax tree cannot be completed. Trees that are not of the shape of
  the grammar lack children, or have spans that leave the text.
* `Fault.message`: what is reported.
-/

namespace RegistryScript
set_option autoImplicit false

inductive Wanted
  | kind | children
deriving DecidableEq, Repr

inductive Fault
  | edit (e : EditError)
  | escape (e : EscapeError)
  /-- A span leaves the text, or the last of no nodes is asked for. -/
  | outside
  | missing (wanted : Wanted)
deriving DecidableEq, Repr

def Fault.message : Fault → Text
  | .edit e => e.message
  | .escape e => e.message
  | .outside => "list index out of range"
  | .missing .kind => "'NoneType' object has no attribute 'type'"
  | .missing .children => "'NoneType' object has no attribute 'named_children'"

end RegistryScript
