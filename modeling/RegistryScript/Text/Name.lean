import RegistryScript.Text.CodePoint

/-! # Names and dotted paths

* `Text.isName`: an ASCII identifier name: a letter, `_` or `$`, then letters, digits, `_` and `$`.
* `Text.isNameLine`, `Text.isPathLine`: a name, or names joined by single dots, with at most one
  line feed after it. This is the test that generated code is guarded by.
-/

namespace RegistryScript
set_option autoImplicit false

namespace CodePoint

def isNameStart (c : CodePoint) : Bool := c.isLetter || c = '_' || c = '$'

def isNamePart (c : CodePoint) : Bool := c.isNameStart || c.isDigit

end CodePoint

namespace Text

def isName : Text → Bool
  | [] => false
  | c :: t => c.isNameStart && t.all CodePoint.isNamePart

def splitAt (separator : CodePoint) : Text → List Text
  | [] => [[]]
  | c :: t =>
    if c = separator then [] :: splitAt separator t
    else
      match splitAt separator t with
      | [] => [[c]]
      | part :: parts => (c :: part) :: parts

def dropFinalLineFeed : Text → Text
  | [] => []
  | [c] => if c = '\n' then [] else [c]
  | c :: d :: t => c :: dropFinalLineFeed (d :: t)

/-- A name, a line feed behind it being let pass. -/
def isNameLine (t : Text) : Bool := t.dropFinalLineFeed.isName

/-- Names joined by single dots, a line feed behind them being let pass. -/
def isPathLine (t : Text) : Bool := (t.dropFinalLineFeed.splitAt '.').all isName

end Text

end RegistryScript
