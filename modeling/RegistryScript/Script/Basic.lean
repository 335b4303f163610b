import RegistryScript.Fault
import RegistryScript.Syntax.Node
import RegistryScript.Text.Utf8

/-! # Scripts: a text and its syntax tree

Nodes cover spans of bytes of the UTF-8 encoding, edits are addressed by code points. A script
keeps the table that leads from the one to the other, unless the text is of the seven-bit range and
the two agree.

* `Script.startOf`, `Script.stopOf`, `Script.textOf`: where a node starts and ends, and its text.
* `Script.statements`: the statements at the top of the script.
* `Text.position`: the line and the column of an offset, both counted from one.
-/

namespace RegistryScript
set_option autoImplicit false

structure Script where
  text : Text
  root : Node
  /-- The index of the code point of each byte; absent if bytes and code points are counted
  alike. -/
  offsets : Option (Array Nat)

namespace Script

def ofTree (text : Text) (root : Node) : Script :=
  { text, root, offsets := if text.isAscii then none else some text.utf8Index.toArray }

def offsetOf (s : Script) (byte : Nat) : Except Fault Nat :=
  match s.offsets with
  | none => .ok byte
  | some table =>
    match table[byte]? with
    | some offset => .ok offset
    | none => .error .outside

def startOf (s : Script) (n : Node) : Except Fault Nat := s.offsetOf n.start

def stopOf (s : Script) (n : Node) : Except Fault Nat := s.offsetOf n.stop

def textOf (s : Script) (n : Node) : Except Fault Text := do
  return s.text.cut (← s.startOf n) (← s.stopOf n)

/-- The statements at the top of a script: the named nodes other than comments and the line that
names the interpreter. -/
def statements (s : Script) : List Node :=
  s.root.namedChildren.filter fun n => !n.kind.isNoStatement

end Script

structure Position where
  line : Nat
  column : Nat
deriving DecidableEq, Repr

/-- The position of an offset: one line more than line feeds in front of it, one column more than
code points between it and the last of them. -/
def Text.position (t : Text) (offset : Nat) : Position :=
  let before := t.take offset
  let line := before.reverse.takeWhile fun c : CodePoint => c ≠ '\n'
  { line := before.count ('\n' : CodePoint) + 1
    column := offset - (before.length - line.length) + 1 }

end RegistryScript
