import RegistryScript.Script.Basic
import RegistryScript.Text.Blank

/-! # Diagnostics

* `Diagnostic`: a place in a script where its text does not parse, and what is wrong there.
* `Script.diagnostics`: one diagnostic for each error or missing node that lies in no other one, in
  the order of their positions.
* `Script.parsed`: a script whose tree has no errors.
-/

namespace RegistryScript
set_option autoImplicit false

structure Diagnostic where
  position : Position
  message : Text
deriving DecidableEq, Repr

def Diagnostic.render (d : Diagnostic) : Text :=
  Text.ofNat d.position.line ++ ":" ++ Text.ofNat d.position.column ++ ": " ++ d.message

structure ParseError where
  moduleId : Text
  diagnostics : List Diagnostic
deriving DecidableEq, Repr

def ParseError.message (e : ParseError) : Text :=
  "Syntax error in " ++ e.moduleId ++ ": " ++ Text.join "; " (e.diagnostics.map Diagnostic.render)

namespace Script

def missingDiagnostic (s : Script) (n : Node) : Except Fault Diagnostic := do
  return ⟨s.text.position (← s.startOf n), "Missing " ++ n.kind.name⟩

/-- The diagnostic of an error: the beginning of its first line. -/
def errorDiagnostic (s : Script) (n : Node) : Except Fault Diagnostic := do
  let position := s.text.position (← s.startOf n)
  let shown : Text := (← s.textOf n).firstLine.take 30
  return ⟨position, "Unexpected " ++ shown.display⟩

mutual

/-- The diagnostics of the outermost errors and missing nodes of a tree. Of the children of a node
the last one comes first. -/
def collect (s : Script) : Node → Except Fault (List Diagnostic)
  | n@⟨kind, _, _, _, _, isMissing, children⟩ =>
    if isMissing then do return [← s.missingDiagnostic n]
    else if kind = .error then do return [← s.errorDiagnostic n]
    else s.collectBackwards children

def collectBackwards (s : Script) : List Node → Except Fault (List Diagnostic)
  | [] => .ok []
  | n :: ns => do
    let behind ← s.collectBackwards ns
    if n.hasError then return behind ++ (← s.collect n) else return behind

end

def noLater (a b : Position) : Bool := a.line < b.line || (a.line = b.line && a.column ≤ b.column)

def diagnostics (s : Script) : Except Fault (List Diagnostic) := do
  if s.root.hasError then
    return (← s.collect s.root).mergeSort fun a b => noLater a.position b.position
  else return []

end Script

end RegistryScript
