import RegistryScript.Script.Basic

/-! # String literals and module names in a tree

* `Script.stringValue`: the text a string literal stands for: its fragments as they are, its escape
  sequences decoded.
* `Script.exportName`: a name written as an identifier or as a string.
* `Node.source?`: the literal that names the module of an import or export statement.
-/

namespace RegistryScript
set_option autoImplicit false

namespace Script

def partValue (s : Script) (part : Node) : Except Fault Text := do
  let text ← s.textOf part
  if part.kind = .escapeSequence then (decodeEscape text).mapError .escape else return text

def stringValue (s : Script) (literal : Node) : Except Fault Text := do
  return (← literal.namedChildren.mapM s.partValue).flatten

def exportName (s : Script) (name : Node) : Except Fault Text :=
  if name.kind = .string then s.stringValue name else s.textOf name

end Script

/-- The literal that names the module of a statement: the child in that role, or else the first
string. -/
def Node.source? (statement : Node) : Option Node :=
  (statement.child? .source).or (statement.namedChildOfKind? .string)

end RegistryScript
