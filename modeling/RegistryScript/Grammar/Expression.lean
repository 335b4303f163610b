import RegistryScript.Grammar.Function

/-! # Expressions

Each rule is a function of the parsers of the symbols it mentions.

* `primary`: names, literals, functions, classes and whatever stands in parentheses.
* `leftHandSideRule`: accesses and calls behind a primary expression.
* `unaryRule`, `operationRule`: operators, by precedence.
* `assignmentRule`: conditional expressions, assignments and arrow functions.
* `expressionRule`: expressions with commas between them.
-/

namespace RegistryScript.Grammar
set_option autoImplicit false

/-! ## Literals -/

def spreadable (g : Rules) : Parser Node := do
  let start ← here
  if ← skipSymbol .ellipsis then
    let e ← g.parse (.assignment true)
    close .spreadElement start [e]
  else g.parse (.assignment true)

/-- A property of an object: a method, a key with a value, a name alone, or what is spread. A name
with a default value is let pass; only in a pattern may it stay. -/
def property (g : Rules) : Parser Node := do
  if ← atSymbol .ellipsis then return ← spreadable g
  let start ← here
  let modified ← methodModifiers
  let isName := isNameToken (← current)
  let key ← propertyName g
  if modified || (← atSymbol .openParen) then methodRest g key start
  else if ← skipSymbol .colon then
    let value ← g.parse (.assignment true)
    close .pair start [key.withRole (.other "key"), value.withRole .value]
  else
    guard isName
    if ← skipSymbol .assign then
      let right ← g.parse (.assignment true)
      let left := { key with kind := .shorthandPropertyIdentifierPattern }
      close .objectAssignmentPattern start [left.withRole .left, right.withRole .right]
    else return { key with kind := .shorthandPropertyIdentifier }

/-- The substitutions of a template from behind a place in it on; the closing mark of each is the
current token when its expression has been read. -/
def templateRest (g : Rules) : Nat → Nat → List Char → Parser (List Node)
  | 0, _, _ => failure
  | n + 1, offset, cs => do
    match scanTemplate 0 offset cs with
    | none => failure
    | some (true, stop, rest) =>
      advanceFrom stop rest
      return []
    | some (false, stop, rest) =>
      advanceFrom stop rest
      let e ← g.parse (.expression true)
      guard (← atSymbol .closeBrace)
      let r ← get
      let substitution : Node :=
        { kind := .templateSubstitution, start := stop - 2, stop := r.stop, children := [e] }
      return substitution :: (← templateRest g n r.stop r.rest)

def template (g : Rules) : Parser Node := do
  let r ← get
  guard (r.token = .symbol .backtick)
  let substitutions ← templateRest g g.bound r.stop r.rest
  close .templateString r.start substitutions

def regex : Parser Node := do
  let r ← get
  match regexLength? false false (r.here.drop 1) with
  | none => failure
  | some n =>
    advanceFrom (r.start + byteSize (r.here.take (n + 1))) (r.here.drop (n + 1))
    close .regex r.start []

/-! ## Parentheses -/

def guardArrow : Parser Unit := do guard ((← atSymbol .arrow) && !(← afterNewline))

/-- Items in parentheses: the expressions and, if it shows that they are parameters, the last
parameter. -/
def parenthesizedItems (g : Rules) : Nat → Parser (List Node × Bool)
  | 0 => failure
  | n + 1 => do
    if ← skipSymbol .closeParen then return ([], true)
    if ← atSymbol .ellipsis then
      let last ← restElement g
      expect .closeParen
      return ([last], true)
    let item ← g.parse (.assignment true)
    if ← skipSymbol .comma then
      let (items, isParameters) ← parenthesizedItems g n
      return (item :: items, isParameters)
    expect .closeParen
    return ([item], false)

def sequenceOf : List Node → Option Node
  | [] => none
  | [e] => some e
  | first :: rest =>
    some { kind := .sequenceExpression
           start := first.start
           stop := (rest.getLast?.getD first).stop
           children := first :: rest }

/-- The patterns among items in parentheses; the rest of the parameters is one already. -/
def toParameterItems (items : List Node) : Option (List Node) :=
  items.mapM fun n => if n.kind = .restPattern then some n else toPattern n

/-- Whatever stands in parentheses. Without an item, with a comma behind the last one and with a
rest they are parameters, and an arrow has to follow. -/
def parenthesized (g : Rules) : Parser Node := do
  let start ← here
  expect .openParen
  let (items, isParameters) ← parenthesizedItems g g.bound
  if isParameters then
    let patterns ← (toParameterItems items : Option (List Node))
    let parameters ← close .formalParameters start patterns
    guardArrow
    return parameters
  else
    let e ← (sequenceOf items : Option Node)
    close .parenthesizedExpression start [e]

/-! ## Primary expressions -/

def keywordPrimary (g : Rules) (k : Keyword) : Parser Node := do
  let start ← here
  match k with
  | .thisWord => leaf .thisExpression
  | .superWord => leaf .superExpression
  | .trueWord => leaf .trueLiteral
  | .falseWord => leaf .falseLiteral
  | .nullWord => leaf .nullLiteral
  | .functionWord =>
    advance
    functionRest g functionValue start
  | .classWord =>
    advance
    classRest g .classExpression start
  | .asyncWord =>
    if ← atAsyncFunction then
      advance
      advance
      functionRest g functionValue start
    else identifier
  | _ => identifier

def privateOperand : Parser Node := do
  let name ← leaf .privatePropertyIdentifier
  guard (← atKeyword .inWord)
  return name

def primary (g : Rules) : Parser Node := do
  let start ← here
  match ← current with
  | .word (some k) => keywordPrimary g k
  | .word none => identifier
  | .number => leaf .number
  | .string _ => string
  | .privateName => privateOperand
  | .symbol .backtick => template g
  | .symbol .divide | .symbol .divideAssign => regex
  | .symbol .openParen => parenthesized g
  | .symbol .openBracket =>
    advance
    let items ← arrayElements (spreadable g) g.bound
    close .array start items
  | .symbol .openBrace =>
    advance
    let properties ← g.list .closeBrace (property g)
    close .object start properties
  | _ => failure

/-! ## Accesses and calls -/

def accessedName : Parser Node := do
  match ← current with
  | .word _ => leaf .propertyIdentifier
  | .privateName => leaf .privatePropertyIdentifier
  | _ => failure

def argumentList (g : Rules) : Parser Node := do
  let start ← here
  expect .openParen
  let items ← g.list .closeParen (spreadable g)
  close .arguments start items

def access (g : Rules) (object : Node) : Parser Node := do
  let object := object.withRole .object
  if ← skipSymbol .openBracket then
    let index ← g.parse (.expression true)
    expect .closeBracket
    close .subscriptExpression object.start [object, index.withRole (.other "index")]
  else
    let name ← accessedName
    close .memberExpression object.start [object, name.withRole (.other "property")]

def call (g : Rules) (callee : Node) : Parser Node := do
  let arguments ← argumentList g
  close .callExpression callee.start [callee.withRole .function, arguments.withRole .arguments]

def taggedTemplate (g : Rules) (callee : Node) : Parser Node := do
  let text ← template g
  close .callExpression callee.start [callee.withRole .function, text.withRole .arguments]

def accesses (g : Rules) (allowCalls : Bool) : Nat → Node → Parser Node
  | 0, _ => failure
  | n + 1, e => do
    match ← current with
    | .symbol .dot =>
      advance
      guard !(← atSymbol .openBracket)
      accesses g allowCalls n (← access g e)
    | .symbol .openBracket => accesses g allowCalls n (← access g e)
    | .symbol .backtick => accesses g allowCalls n (← taggedTemplate g e)
    | .symbol .openParen =>
      if allowCalls then accesses g allowCalls n (← call g e) else return e
    | .symbol .optionalDot =>
      if !allowCalls then return e
      advance
      if ← atSymbol .openParen then accesses g allowCalls n (← call g e)
      else if ← atSymbol .backtick then failure
      else accesses g allowCalls n (← access g e)
    | _ => return e

/-- What `new` creates an object of: an access without calls, or another creation. Without
arguments a creation has no optional access behind it. -/
def constructedRule (g : Rules) : Parser Node := do
  let start ← here
  if ← skipKeyword .newWord then
    if ← skipSymbol .dot then
      expectKeyword .targetWord
      let e ← close .metaProperty start []
      accesses g false g.bound e
    else
      let callee ← g.parse .constructed
      if ← atSymbol .openParen then
        let arguments ← argumentList g
        let e ← close .newExpression start [callee, arguments.withRole .arguments]
        accesses g false g.bound e
      else
        guard !(← atSymbol .optionalDot)
        close .newExpression start [callee]
  else accesses g false g.bound (← primary g)

def importExpression (g : Rules) : Parser Node := do
  let start ← here
  let keyword ← leaf .importCallee
  if ← skipSymbol .dot then
    expectKeyword .metaWord
    close .metaProperty start []
  else call g keyword

def leftHandSideRule (g : Rules) : Parser Node := do
  let e ←
    match ← current with
    | .word (some .newWord) => constructedRule g
    | .word (some .importWord) => importExpression g
    | _ => primary g
  if e.kind = .formalParameters then return e else accesses g true g.bound e

/-! ## Operators -/

def isUnaryOperator : Token → Bool
  | .symbol .not | .symbol .bitNot | .symbol .plus | .symbol .minus
  | .word (some .typeofWord) | .word (some .voidWord) | .word (some .deleteWord) => true
  | _ => false

def isUpdateOperator : Token → Bool
  | .symbol .increment | .symbol .decrement => true
  | _ => false

def applied (g : Rules) (kind : Kind) : Parser Node := do
  let start ← here
  advance
  let operand ← g.parse .unary
  close kind start [operand]

def unaryRule (g : Rules) : Parser Node := do
  let token ← current
  if isUnaryOperator token then applied g .unaryExpression
  else if isUpdateOperator token then applied g .updateExpression
  else if token = .word (some .awaitWord) then applied g .awaitExpression
  else
    let e ← g.parse .leftHandSide
    if isUpdateOperator (← current) && !(← afterNewline) then
      advance
      close .updateExpression e.start [e]
    else return e

def precedence? (allowIn : Bool) : Token → Option Nat
  | .symbol .coalesce => some 1
  | .symbol .logicalOr => some 2
  | .symbol .logicalAnd => some 3
  | .symbol .bitOr => some 4
  | .symbol .bitXor => some 5
  | .symbol .bitAnd => some 6
  | .symbol .equal | .symbol .notEqual | .symbol .identical | .symbol .notIdentical => some 7
  | .symbol .less | .symbol .greater | .symbol .lessEqual | .symbol .greaterEqual
  | .word (some .instanceofWord) => some 8
  | .word (some .inWord) => if allowIn then some 8 else none
  | .symbol .shiftLeft | .symbol .shiftRight | .symbol .shiftRightZero => some 9
  | .symbol .plus | .symbol .minus => some 10
  | .symbol .times | .symbol .divide | .symbol .modulo => some 11
  | .symbol .power => some 12
  | _ => none

/-- The operations behind a left operand, with operators of at least the given precedence. An
exponent may be a power itself; all other operators take their operands from left to right. -/
def operations (g : Rules) (lowest : Nat) (allowIn : Bool) : Nat → Node → Parser Node
  | 0, _ => failure
  | n + 1, left => do
    match precedence? allowIn (← current) with
    | none => return left
    | some p =>
      if p < lowest then return left
      else
        advance
        let right ← g.parse (.operation (if p = 12 then p else p + 1) allowIn)
        let e ← close .binaryExpression left.start [left.withRole .left, right.withRole .right]
        operations g lowest allowIn n e

def operationRule (g : Rules) (lowest : Nat) (allowIn : Bool) : Parser Node := do
  let left ← g.parse .unary
  if left.kind = .formalParameters then return left
  else operations g lowest allowIn g.bound left

/-! ## Assignments and arrow functions -/

def isAugmentedAssignment : Token → Bool
  | .symbol s =>
    match s with
    | .plusAssign | .minusAssign | .timesAssign | .divideAssign | .moduloAssign | .powerAssign
    | .shiftLeftAssign | .shiftRightAssign | .shiftRightZeroAssign | .bitAndAssign | .bitOrAssign
    | .bitXorAssign | .andAssign | .orAssign | .coalesceAssign => true
    | _ => false
  | _ => false

def arrowRest (g : Rules) (allowIn : Bool) (start : Nat) (parameters : Node) : Parser Node := do
  guardArrow
  advance
  let body ← if ← atSymbol .openBrace then g.parse .block else g.parse (.assignment allowIn)
  close .arrowFunction start [parameters, body.withRole .body]

def arrowParameters (left : Node) : Option Node :=
  match left.kind with
  | .identifier | .undefined => some (left.withRole .parameter)
  | .formalParameters => some (left.withRole .parameters)
  | .parenthesizedExpression => (toParameters left).map fun n => n.withRole .parameters
  | .callExpression => do
    let callee ← left.child? .function
    let arguments ← left.child? .arguments
    if callee.kind = .identifier && arguments.kind = .arguments then
      (toParameters arguments).map fun n => n.withRole .parameters
    else none
  | _ => none

/-- The current token and the next are `async` and the only parameter of an arrow function. -/
def atAsyncParameter : Parser Bool := do
  if ← atKeyword .asyncWord then
    let next ← peek
    return isNameToken next.token && !next.newline
  else return false

def yieldExpression (g : Rules) (allowIn : Bool) : Parser Node := do
  let start ← here
  advance
  if ← afterNewline then close .yieldExpression start []
  else if ← skipSymbol .times then
    let e ← g.parse (.assignment allowIn)
    close .yieldExpression start [e]
  else
    match ← current with
    | .symbol .closeParen | .symbol .closeBracket | .symbol .closeBrace | .symbol .comma
    | .symbol .semicolon | .symbol .colon | .word (some .inWord) | .word (some .ofWord)
    | .endOfText => close .yieldExpression start []
    | _ =>
      let e ← g.parse (.assignment allowIn)
      close .yieldExpression start [e]

def conditional (g : Rules) (allowIn : Bool) : Parser Node := do
  let test ← g.parse (.operation 1 allowIn)
  if ← skipSymbol .question then
    let yes ← g.parse (.assignment true)
    expect .colon
    let no ← g.parse (.assignment allowIn)
    close .ternaryExpression test.start [test, yes, no]
  else return test

/-- The callee of a call is the word `async`, which is where the call starts. -/
def isAsyncCall (token : Token) (e : Node) : Bool :=
  token = .word (some .asyncWord) && e.kind = .callExpression

def assignmentRule (g : Rules) (allowIn : Bool) : Parser Node := do
  let start ← here
  let first ← current
  if first = .word (some .yieldWord) then yieldExpression g allowIn
  else if ← atAsyncParameter then
    advance
    let parameter ← identifier
    arrowRest g allowIn start (parameter.withRole .parameter)
  else
    let left ← conditional g allowIn
    match ← current with
    | .symbol .arrow =>
      guard (left.kind ≠ .callExpression || isAsyncCall first left)
      let parameters ← (arrowParameters left : Option Node)
      arrowRest g allowIn start parameters
    | .symbol .assign =>
      let left ← (toAssigned left : Option Node)
      advance
      let right ← g.parse (.assignment allowIn)
      close .assignmentExpression start [left.withRole .left, right.withRole .right]
    | token =>
      if isAugmentedAssignment token then
        guard (isSimpleTarget left)
        advance
        let right ← g.parse (.assignment allowIn)
        close .augmentedAssignmentExpression start [left.withRole .left, right.withRole .right]
      else return left

def moreExpressions (g : Rules) (allowIn : Bool) : Nat → Parser (List Node)
  | 0 => failure
  | n + 1 => do
    if ← skipSymbol .comma then
      let e ← g.parse (.assignment allowIn)
      return e :: (← moreExpressions g allowIn n)
    else return []

def expressionRule (g : Rules) (allowIn : Bool) : Parser Node := do
  let first ← g.parse (.assignment allowIn)
  let rest ← moreExpressions g allowIn g.bound
  (sequenceOf (first :: rest) : Option Node)

end RegistryScript.Grammar
