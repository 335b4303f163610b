/-! # Tokens of ECMAScript

* `Keyword`: the words the grammar mentions, those that may also be used as names included.
* `Symbol`: the punctuators, the grave accent that opens a template among them.
* `Token`: a token as the grammar sees it. What a name, a number or a string says is left to the
  span of its token; a string keeps the spans of its parts.
-/

namespace RegistryScript.Grammar
set_option autoImplicit false

/-! ## Keywords -/

inductive Keyword
  | breakWord | caseWord | catchWord | classWord | constWord | continueWord | debuggerWord
  | defaultWord | deleteWord | doWord | elseWord | enumWord | exportWord | extendsWord | falseWord
  | finallyWord | forWord | functionWord | ifWord | importWord | inWord | instanceofWord | newWord
  | nullWord | returnWord | superWord | switchWord | thisWord | throwWord | trueWord | tryWord
  | typeofWord | varWord | voidWord | whileWord | withWord | awaitWord | yieldWord | asWord
  | asyncWord | fromWord | getWord | letWord | metaWord | ofWord | setWord | staticWord
  | targetWord | undefinedWord
deriving DecidableEq, Repr

namespace Keyword

def spellings : List (String × Keyword) :=
  [("break", .breakWord), ("case", .caseWord), ("catch", .catchWord), ("class", .classWord),
   ("const", .constWord), ("continue", .continueWord), ("debugger", .debuggerWord),
   ("default", .defaultWord), ("delete", .deleteWord), ("do", .doWord), ("else", .elseWord),
   ("enum", .enumWord), ("export", .exportWord), ("extends", .extendsWord), ("false", .falseWord),
   ("finally", .finallyWord), ("for", .forWord), ("function", .functionWord), ("if", .ifWord),
   ("import", .importWord), ("in", .inWord), ("instanceof", .instanceofWord), ("new", .newWord),
   ("null", .nullWord), ("return", .returnWord), ("super", .superWord), ("switch", .switchWord),
   ("this", .thisWord), ("throw", .throwWord), ("true", .trueWord), ("try", .tryWord),
   ("typeof", .typeofWord), ("var", .varWord), ("void", .voidWord), ("while", .whileWord),
   ("with", .withWord), ("await", .awaitWord), ("yield", .yieldWord), ("as", .asWord),
   ("async", .asyncWord), ("from", .fromWord), ("get", .getWord), ("let", .letWord),
   ("meta", .metaWord), ("of", .ofWord), ("set", .setWord), ("static", .staticWord),
   ("target", .targetWord), ("undefined", .undefinedWord)]

def ofWord? (word : List Char) : Option Keyword :=
  (spellings.find? fun e => e.1.toList = word).map Prod.snd

def isName : Keyword → Bool
  | .asWord | .asyncWord | .fromWord | .getWord | .letWord | .metaWord | .ofWord | .setWord
  | .staticWord | .targetWord | .undefinedWord => true
  | _ => false

end Keyword

/-! ## Symbols -/

inductive Symbol
  | openBrace | closeBrace | openParen | closeParen | openBracket | closeBracket | dot | ellipsis
  | semicolon | comma | colon | question | optionalDot | arrow | backtick | less | greater
  | lessEqual | greaterEqual | equal | notEqual | identical | notIdentical | plus | minus | times
  | divide | modulo | power | increment | decrement | shiftLeft | shiftRight | shiftRightZero
  | bitAnd | bitOr | bitXor | not | bitNot | logicalAnd | logicalOr | coalesce | assign
  | plusAssign | minusAssign | timesAssign | divideAssign | moduloAssign | powerAssign
  | shiftLeftAssign | shiftRightAssign | shiftRightZeroAssign | bitAndAssign | bitOrAssign
  | bitXorAssign | andAssign | orAssign | coalesceAssign
deriving DecidableEq, Repr

namespace Symbol

def spellings : List (String × Symbol) :=
  [(">>>=", .shiftRightZeroAssign), ("...", .ellipsis), ("===", .identical),
   ("!==", .notIdentical), (">>>", .shiftRightZero), ("**=", .powerAssign),
   ("<<=", .shiftLeftAssign), (">>=", .shiftRightAssign), ("&&=", .andAssign), ("||=", .orAssign),
   ("??=", .coalesceAssign), ("?.", .optionalDot), ("=>", .arrow), ("<=", .lessEqual),
   (">=", .greaterEqual), ("==", .equal), ("!=", .notEqual), ("**", .power), ("++", .increment),
   ("--", .decrement), ("<<", .shiftLeft), (">>", .shiftRight), ("&&", .logicalAnd),
   ("||", .logicalOr), ("??", .coalesce), ("+=", .plusAssign), ("-=", .minusAssign),
   ("*=", .timesAssign), ("/=", .divideAssign), ("%=", .moduloAssign), ("&=", .bitAndAssign),
   ("|=", .bitOrAssign), ("^=", .bitXorAssign), ("\x7b", .openBrace), ("\x7d", .closeBrace),
   ("(", .openParen), (")", .closeParen), ("[", .openBracket), ("]", .closeBracket), (".", .dot),
   (";", .semicolon), (",", .comma), (":", .colon), ("?", .question), ("\x60", .backtick),
   ("<", .less), (">", .greater), ("+", .plus), ("-", .minus), ("*", .times), ("/", .divide),
   ("%", .modulo), ("&", .bitAnd), ("|", .bitOr), ("^", .bitXor), ("!", .not), ("~", .bitNot),
   ("=", .assign)]

/-- The longest symbol some characters start with, and the characters behind it. A question mark
is no part of `?.` in front of a digit. -/
def scan? (cs : List Char) : Option (Symbol × List Char) :=
  match cs with
  | '?' :: '.' :: c :: rest => if c.isDigit then some (.question, '.' :: c :: rest) else find cs
  | _ => find cs
where
  find (cs : List Char) : Option (Symbol × List Char) :=
    (spellings.find? fun e => e.1.toList.isPrefixOf cs).map fun e => (e.2, cs.drop e.1.length)

end Symbol

/-! ## Tokens -/

structure Piece where
  isEscape : Bool
  start : Nat
  stop : Nat
deriving DecidableEq, Repr

inductive Token
  | word (keyword : Option Keyword)
  | privateName
  | number
  | string (pieces : List Piece)
  | symbol (s : Symbol)
  | endOfText
deriving DecidableEq, Repr

end RegistryScript.Grammar
