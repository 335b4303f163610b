import RegistryScript.Grammar.Scanner
import RegistryScript.Syntax.Node

/-! # Parsers over tokens

* `Reading`: how far a text has been read: the current token with its span, and the characters
  behind it. Tokens are read one at a time, since the grammar decides how the next one is scanned.
* `Parser`: an action on a reading that may fail.
* `Goal`, `Rules`: the symbols of the grammar that refer to each other, and a parser for each of
  them. A rule of the grammar is a function of the parsers of the symbols it mentions.
-/

namespace RegistryScript.Grammar
set_option autoImplicit false

/-! ## Readings -/

structure Reading where
  token : Token
  start : Nat
  stop : Nat
  newline : Bool
  here : List Char
  rest : List Char
  /-- The number of bytes up to the end of the token before. -/
  last : Nat
  comments : List (Nat × Nat)

abbrev Parser := StateT Reading Option

def Reading.next? (offset last : Nat) (newline : Bool) (comments : List (Nat × Nat))
    (cs : List Char) : Option Reading := do
  let trivia ← skipTrivia newline [] offset .blank cs
  let lexeme ← scanToken trivia.offset trivia.rest
  return { token := lexeme.token, start := trivia.offset, stop := trivia.offset + lexeme.size,
           newline := trivia.newline, here := trivia.rest, rest := lexeme.rest, last,
           comments := trivia.comments.reverse ++ comments }

/-! ## Steps -/

def advance : Parser Unit := fun r => do
  let r ← Reading.next? r.stop r.stop false r.comments r.rest
  return ((), r)

def advanceFrom (stop : Nat) (cs : List Char) : Parser Unit := fun r => do
  let r ← Reading.next? stop stop false r.comments cs
  return ((), r)

def current : Parser Token := do return (← get).token

/-- The reading at the next token. The current token stays the current one. -/
def peek : Parser Reading := fun r => do
  let next ← Reading.next? r.stop r.stop false r.comments r.rest
  return (next, r)

def here : Parser Nat := do return (← get).start

def afterNewline : Parser Bool := do return (← get).newline

def atSymbol (s : Symbol) : Parser Bool := do return (← current) = .symbol s

def atKeyword (k : Keyword) : Parser Bool := do return (← current) = .word (some k)

def skipSymbol (s : Symbol) : Parser Bool := do
  if ← atSymbol s then
    advance
    return true
  else return false

def skipKeyword (k : Keyword) : Parser Bool := do
  if ← atKeyword k then
    advance
    return true
  else return false

def expect (s : Symbol) : Parser Unit := do guard (← skipSymbol s)

def expectKeyword (k : Keyword) : Parser Unit := do guard (← skipKeyword k)

/-- Ends a statement: with a semicolon, or in front of a closing brace, the end of the text or a
token on a new line. -/
def endStatement : Parser Unit := do
  if ← skipSymbol .semicolon then return
  let r ← get
  guard (r.newline || r.token = .symbol .closeBrace || r.token = .endOfText)

/-! ## Nodes -/

def close (kind : Kind) (start : Nat) (children : List Node) : Parser Node := do
  return { kind, start, stop := (← get).last, children }

def leaf (kind : Kind) : Parser Node := do
  let start ← here
  advance
  close kind start []

def leafToken (kind : Kind) : Parser Node := do
  return { (← leaf kind) with isNamed := false }

def isNameToken : Token → Bool
  | .word none => true
  | .word (some k) => k.isName
  | _ => false

def identifier : Parser Node := do
  let token ← current
  guard (isNameToken token)
  leaf (if token = .word (some .undefinedWord) then .undefined else .identifier)

def anyWord (kind : Kind) : Parser Node := do
  match ← current with
  | .word _ => leaf kind
  | _ => failure

def pieceNode (p : Piece) : Node :=
  { kind := if p.isEscape then .escapeSequence else .stringFragment
    start := p.start
    stop := p.stop }

def string : Parser Node := do
  match ← current with
  | .string pieces => return { (← leaf .string) with children := pieces.map pieceNode }
  | _ => failure

/-! ## Repetition -/

def repeatUntil {α : Type} (atEnd : Parser Bool) (item : Parser α) : Nat → Parser (List α)
  | 0 => failure
  | n + 1 => do
    if ← atEnd then return []
    let x ← item
    return x :: (← repeatUntil atEnd item n)

/-- Items with commas between them up to a closing symbol, which is passed over; a comma may stand
behind the last item. -/
def commaList {α : Type} (closing : Symbol) (item : Parser α) : Nat → Parser (List α)
  | 0 => failure
  | n + 1 => do
    if ← skipSymbol closing then return []
    let x ← item
    if ← skipSymbol .comma then return x :: (← commaList closing item n)
    expect closing
    return [x]

/-! ## The grammar's symbols -/

/-- A symbol of the grammar that rules refer to. `allowIn` tells whether `in` is an operator. -/
inductive Goal
  | expression (allowIn : Bool)
  | assignment (allowIn : Bool)
  | operation (precedence : Nat) (allowIn : Bool)
  | unary
  | leftHandSide
  | constructed
  | target
  | statement
  | block

/-- A parser for each symbol, and a bound on the number of repetitions. -/
structure Rules where
  parse : Goal → Parser Node
  bound : Nat

namespace Rules

def list {α : Type} (g : Rules) (closing : Symbol) (item : Parser α) : Parser (List α) :=
  commaList closing item g.bound

def upTo {α : Type} (g : Rules) (closing : Symbol) (item : Parser α) : Parser (List α) := do
  let items ← repeatUntil (atSymbol closing) item g.bound
  expect closing
  return items

end Rules

end RegistryScript.Grammar
