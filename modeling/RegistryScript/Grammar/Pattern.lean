import RegistryScript.Grammar.Parser

/-! # Patterns

A pattern in front of `=`, `=>`, `of` or `in` is read as an expression, since what it is shows only
behind it.

* `toPattern`: the pattern that an expression is, if it is one.
* `toAssigned`: the target of an assignment that an expression is; parentheses may stand around a
  simple one.
* `targetRule`: the rule of names and patterns in declarations and parameters, which are known to be
  patterns from the start.
* `parameterList`: the parameters of a function.
-/

namespace RegistryScript.Grammar
set_option autoImplicit false

/-! ## Expressions as patterns -/

mutual

def toPattern : Node → Option Node
  | n@⟨kind, _, _, _, _, _, children⟩ =>
    match kind with
    | .identifier | .undefined | .memberExpression | .subscriptExpression
    | .objectAssignmentPattern => some n
    | .shorthandPropertyIdentifier =>
      some { n with kind := .shorthandPropertyIdentifierPattern }
    | .array => do return { n with kind := .arrayPattern, children := ← toPatterns children }
    | .object => do return { n with kind := .objectPattern, children := ← toPatterns children }
    | .spreadElement => do return { n with kind := .restPattern, children := ← toPatterns children }
    | .pair => do return { n with kind := .pairPattern, children := ← toPatternValue children }
    | .assignmentExpression => some { n with kind := .assignmentPattern }
    | _ => none

def toPatterns : List Node → Option (List Node)
  | [] => some []
  | n :: ns => do return (← toPattern n) :: (← toPatterns ns)

def toPatternValue : List Node → Option (List Node)
  | [] => some []
  | n :: ns => do
    let n ← if n.role = some .value then toPattern n else some n
    return n :: (← toPatternValue ns)

end

def isSimpleTarget : Node → Bool
  | ⟨kind, _, _, _, _, _, children⟩ =>
    match kind, children with
    | .identifier, _ | .undefined, _ | .memberExpression, _ | .subscriptExpression, _ => true
    | .parenthesizedExpression, [n] => isSimpleTarget n
    | _, _ => false

/-- The target of an assignment that an expression is. An assignment is none. -/
def toAssigned (n : Node) : Option Node :=
  if isSimpleTarget n then some n
  else if n.kind = .array || n.kind = .object then toPattern n
  else none

/-- The parameters of an arrow function that an expression in parentheses, or the arguments of a
call, are. -/
def toParameters (n : Node) : Option Node := do
  let items :=
    match n.children with
    | [e] => if e.kind = .sequenceExpression then e.children else [e]
    | es => es
  return { n with kind := .formalParameters, children := ← toPatterns items }

/-! ## Keys -/

def propertyName (g : Rules) : Parser Node := do
  match ← current with
  | .word _ => leaf .propertyIdentifier
  | .privateName => leaf .privatePropertyIdentifier
  | .number => leaf .number
  | .string _ => string
  | .symbol .openBracket =>
    let start ← here
    advance
    let e ← g.parse (.assignment true)
    expect .closeBracket
    close .computedPropertyName start [e]
  | _ => failure

/-! ## Declared names and patterns -/

def element (g : Rules) : Parser Node := do
  let start ← here
  let left ← g.parse .target
  if ← skipSymbol .assign then
    let right ← g.parse (.assignment true)
    close .assignmentPattern start [left.withRole .left, right.withRole .right]
  else return left

def restElement (g : Rules) : Parser Node := do
  let start ← here
  expect .ellipsis
  let target ← g.parse .target
  close .restPattern start [target]

def parameter (g : Rules) : Parser Node := do
  if ← atSymbol .ellipsis then restElement g else element g

/-- The elements of an array pattern; nothing may stand between two commas. -/
def arrayElements {α : Type} (item : Parser α) : Nat → Parser (List α)
  | 0 => failure
  | n + 1 => do
    if ← skipSymbol .closeBracket then return []
    if ← skipSymbol .comma then return ← arrayElements item n
    let x ← item
    if ← skipSymbol .comma then return x :: (← arrayElements item n)
    expect .closeBracket
    return [x]

def propertyElement (g : Rules) : Parser Node := do
  if ← atSymbol .ellipsis then return ← restElement g
  let start ← here
  let isName := isNameToken (← current)
  let key ← propertyName g
  if ← skipSymbol .colon then
    let value ← element g
    close .pairPattern start [key.withRole (.other "key"), value.withRole .value]
  else
    guard isName
    let name := { key with kind := .shorthandPropertyIdentifierPattern }
    if ← skipSymbol .assign then
      let right ← g.parse (.assignment true)
      close .objectAssignmentPattern start [name.withRole .left, right.withRole .right]
    else return name

def targetRule (g : Rules) : Parser Node := do
  let start ← here
  match ← current with
  | .symbol .openBracket =>
    advance
    let items ← arrayElements (parameter g) g.bound
    close .arrayPattern start items
  | .symbol .openBrace =>
    advance
    let items ← g.list .closeBrace (propertyElement g)
    close .objectPattern start items
  | _ => identifier

def parameterList (g : Rules) : Parser Node := do
  let start ← here
  expect .openParen
  let items ← g.list .closeParen (parameter g)
  close .formalParameters start items

end RegistryScript.Grammar
