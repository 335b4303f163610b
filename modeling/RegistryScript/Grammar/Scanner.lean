import RegistryScript.Grammar.Character
import RegistryScript.Grammar.Token
import RegistryScript.Numeral.Digits

/-! # Scanning ECMAScript tokens

All functions here read characters from the front of a list and count bytes.

* `skipTrivia`: passes over white space and comments, and remembers the comments and whether a
  line ended.
* `scanToken`: reads one token. Whether a slash starts a regular expression, and a closing brace
  goes on with a template, only the grammar can tell; for these cases there are
* `regexLength?`, `scanTemplate`: the rest of a regular expression, and of a template up to its end
  or its next substitution.
-/

namespace RegistryScript.Grammar
set_option autoImplicit false

/-! ## White space and comments -/

structure Trivia where
  rest : List Char
  offset : Nat
  newline : Bool
  comments : List (Nat × Nat)

inductive Between
  | blank
  | lineComment (start : Nat)
  | blockComment (start : Nat)
  /-- In front of the last character of a mark. -/
  | mark (next : Option Nat)

def skipTrivia (newline : Bool) (comments : List (Nat × Nat)) (offset : Nat) :
    Between → List Char → Option Trivia
  | .blank, [] => some ⟨[], offset, newline, comments.reverse⟩
  | .blank, c :: cs =>
    if endsLine c then skipTrivia true comments (offset + c.utf8Size) .blank cs
    else if isSpace c then skipTrivia newline comments (offset + c.utf8Size) .blank cs
    else if c = '/' ∧ cs.head? = some '/' then
      skipTrivia newline comments (offset + 1) (.lineComment offset) cs
    else if c = '/' ∧ cs.head? = some '*' then
      skipTrivia newline comments (offset + 1) (.mark (some offset)) cs
    else some ⟨c :: cs, offset, newline, comments.reverse⟩
  | .lineComment start, [] => some ⟨[], offset, newline, ((start, offset) :: comments).reverse⟩
  | .lineComment start, c :: cs =>
    if endsLine c then
      skipTrivia true ((start, offset) :: comments) (offset + c.utf8Size) .blank cs
    else skipTrivia newline comments (offset + c.utf8Size) (.lineComment start) cs
  | .blockComment _, [] => none
  | .blockComment start, c :: cs =>
    if c = '*' ∧ cs.head? = some '/' then
      skipTrivia newline ((start, offset + 2) :: comments) (offset + 1) (.mark none) cs
    else
      skipTrivia (newline || endsLine c) comments (offset + c.utf8Size) (.blockComment start) cs
  | .mark _, [] => none
  | .mark (some start), _ :: cs =>
    skipTrivia newline comments (offset + 1) (.blockComment start) cs
  | .mark none, _ :: cs => skipTrivia newline comments (offset + 1) .blank cs

/-! ## Escapes -/

def unicodeEscapeLength? : List Char → Option Nat
  | 'u' :: '\x7b' :: cs =>
    let digits := cs.takeWhile isHex
    if digits.isEmpty then none
    else if (cs.drop digits.length).head? = some '\x7d' then some (digits.length + 3)
    else none
  | 'u' :: a :: b :: c :: d :: _ => if [a, b, c, d].all isHex then some 5 else none
  | _ => none

/-- A character that belongs to an escape sequence if a carriage return or a question mark stands
between the backslash and it. -/
def closesEscape (c : Char) : Bool := c = '\n' || c = '\u2028' || c = '\u2029'

def escapeLength? : List Char → Option Nat
  | [] => none
  | 'x' :: a :: b :: _ => if isHex a && isHex b then some 3 else none
  | c :: cs =>
    if c = 'x' then none
    else if c = 'u' then unicodeEscapeLength? (c :: cs)
    else if isOctal c then some (((c :: cs).take 3).takeWhile isOctal).length
    else if (c = '\r' ∨ c = '?') ∧ cs.head?.any closesEscape then some 2
    else some 1

/-! ## Words and numbers -/

/-- The number of characters of an identifier name; the given number of characters belong to an
escape that was begun. -/
def wordLength : Nat → List Char → Nat
  | _, [] => 0
  | skip + 1, _ :: cs => wordLength skip cs + 1
  | 0, c :: cs =>
    if isWordPart c then wordLength 0 cs + 1
    else if c = '\\' then
      match unicodeEscapeLength? cs with
      | some n => wordLength n cs + 1
      | none => 0
    else 0

def exponentLength (cs : List Char) : Nat :=
  match cs with
  | mark :: sign :: rest =>
    if mark = 'e' ∨ mark = 'E' then
      if (sign = '+' ∨ sign = '-') ∧ rest.head?.any Char.isDigit then
        digitsLength Char.isDigit rest + 2
      else if sign.isDigit then digitsLength Char.isDigit (sign :: rest) + 1
      else 0
    else 0
  | _ => 0

def markedLength? (isDigit : Char → Bool) (cs : List Char) : Option Nat :=
  if cs.head?.any isDigit then
    let n := digitsLength isDigit cs
    some (if (cs.drop n).head? = some 'n' then n + 3 else n + 2)
  else none

/-- The number of characters of a decimal number: digits, perhaps a fraction, perhaps an exponent
or the mark of an integer. -/
def decimalLength (cs : List Char) : Nat :=
  let whole := digitsLength Char.isDigit cs
  match cs.drop whole with
  | 'n' :: _ => whole + 1
  | '.' :: rest =>
    let fraction := if rest.head?.any Char.isDigit then digitsLength Char.isDigit rest else 0
    whole + 1 + fraction + exponentLength (rest.drop fraction)
  | rest => whole + exponentLength rest

def numberLength? (cs : List Char) : Option Nat := do
  let n ←
    match cs with
    | '0' :: mark :: rest =>
      if mark = 'x' ∨ mark = 'X' then markedLength? isHex rest
      else if mark = 'o' ∨ mark = 'O' then markedLength? isOctal rest
      else if mark = 'b' ∨ mark = 'B' then markedLength? isBinary rest
      else some (decimalLength cs)
    | _ => some (decimalLength cs)
  if (cs.drop n).head?.any isWordPart then none else some n

/-! ## Strings -/

/-- Adds raw characters to the pieces of a string, the latest piece first. -/
def extendRaw (offset size : Nat) : List Piece → List Piece
  | [] => [⟨false, offset, offset + size⟩]
  | p :: ps =>
    if p.isEscape then ⟨false, offset, offset + size⟩ :: p :: ps
    else { p with stop := offset + size } :: ps

/-- Adds characters to the escape sequence the pieces of a string start with, the latest piece
being first. -/
def extendEscape (offset size : Nat) : List Piece → List Piece
  | [] => []
  | p :: ps => { p with stop := offset + size } :: ps

/-- The pieces of a string up to its closing quote, the characters behind it and the number of
bytes in front of them. The given number of characters belong to an escape that was begun. -/
def stringPieces (quote : Char) :
    Nat → Nat → List Piece → List Char → Option (List Piece × Nat × List Char)
  | _, _, _, [] => none
  | skip + 1, offset, pieces, c :: cs =>
    stringPieces quote skip (offset + c.utf8Size) (extendEscape offset c.utf8Size pieces) cs
  | 0, offset, pieces, c :: cs =>
    if c = quote then some (pieces.reverse, offset + 1, cs)
    else if c = '\n' ∨ c = '\r' then none
    else if c = '\\' then
      match escapeLength? cs with
      | some n => stringPieces quote n (offset + 1) (⟨true, offset, offset + 1⟩ :: pieces) cs
      | none => none
    else
      stringPieces quote 0 (offset + c.utf8Size) (extendRaw offset c.utf8Size pieces) cs

/-! ## Templates and regular expressions -/

/-- A template up to its end or its next substitution: whether it ends, the characters behind and
the number of bytes in front of them. -/
def scanTemplate : Nat → Nat → List Char → Option (Bool × Nat × List Char)
  | _, _, [] => none
  | skip + 1, offset, c :: cs => scanTemplate skip (offset + c.utf8Size) cs
  | 0, offset, c :: cs =>
    if c = '\x60' then some (true, offset + 1, cs)
    else if c = '$' ∧ cs.head? = some '\x7b' then some (false, offset + 2, cs.drop 1)
    else if c = '\\' then
      match escapeLength? cs with
      | some n => scanTemplate n (offset + 1) cs
      | none => none
    else scanTemplate 0 (offset + c.utf8Size) cs

/-- The number of characters of a regular expression behind its first slash, flags included. The
flags tell whether a backslash stands in front, and whether the scan is in a class. -/
def regexLength? (escaped inClass : Bool) : List Char → Option Nat
  | [] => none
  | c :: cs =>
    if endsLine c then none
    else if escaped then (regexLength? false inClass cs).map (· + 1)
    else if c = '\\' then (regexLength? true inClass cs).map (· + 1)
    else if c = '[' then (regexLength? false true cs).map (· + 1)
    else if c = ']' then (regexLength? false false cs).map (· + 1)
    else if c = '/' && !inClass then some (wordLength 0 cs + 1)
    else (regexLength? false inClass cs).map (· + 1)

/-! ## Tokens -/

structure Lexeme where
  token : Token
  size : Nat
  rest : List Char

def Lexeme.ofLength (token : Token) (n : Nat) (cs : List Char) : Lexeme :=
  ⟨token, byteSize (cs.take n), cs.drop n⟩

def scanToken (offset : Nat) : List Char → Option Lexeme
  | [] => some ⟨.endOfText, 0, []⟩
  | c :: cs =>
    if isWordStart c || c = '\\' then
      let n := wordLength 0 (c :: cs)
      if n = 0 then none
      else some (.ofLength (.word (Keyword.ofWord? ((c :: cs).take n))) n (c :: cs))
    else if c.isDigit || (c = '.' && cs.head?.any Char.isDigit) then do
      let n ← numberLength? (c :: cs)
      return .ofLength .number n (c :: cs)
    else if c = '"' ∨ c = '\x27' then do
      let (pieces, stop, rest) ← stringPieces c 0 (offset + 1) [] cs
      return ⟨.string pieces, stop - offset, rest⟩
    else if c = '#' then
      if cs.head?.any fun d => isWordStart d || d = '\\' then
        some (.ofLength .privateName (wordLength 0 cs + 1) (c :: cs))
      else none
    else do
      let (s, rest) ← Symbol.scan? (c :: cs)
      return ⟨.symbol s, (c :: cs).length - rest.length, rest⟩

end RegistryScript.Grammar
