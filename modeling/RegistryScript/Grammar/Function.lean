import RegistryScript.Grammar.Pattern

/-! # Functions and classes

* `functionRest`: a function from behind its keyword on.
* `methodRest`: a method from its parameters on.
* `classRest`: a class from behind its keyword on.
-/

namespace RegistryScript.Grammar
set_option autoImplicit false

/-! ## Functions -/

/-- How the kind of a function depends on whether it is a generator. -/
structure FunctionKinds where
  plain : Kind
  generator : Kind

def declaredFunction : FunctionKinds := ⟨.functionDeclaration, .generatorFunctionDeclaration⟩

def functionValue : FunctionKinds := ⟨.functionExpression, .generatorFunction⟩

def ownName? : Parser (List Node) := do
  if isNameToken (← current) then return [(← identifier).withRole .name] else return []

def functionRest (g : Rules) (kinds : FunctionKinds) (start : Nat) : Parser Node := do
  let isGenerator ← skipSymbol .times
  let name ← ownName?
  let parameters ← parameterList g
  let body ← g.parse .block
  close (if isGenerator then kinds.generator else kinds.plain) start
    (name ++ [parameters.withRole .parameters, body.withRole .body])

def atAsyncFunction : Parser Bool := do
  if ← atKeyword .asyncWord then
    let next ← peek
    return next.token = .word (some .functionWord) && !next.newline
  else return false

def methodRest (g : Rules) (name : Node) (start : Nat) : Parser Node := do
  let parameters ← parameterList g
  let body ← g.parse .block
  close .methodDefinition start
    [name.withRole .name, parameters.withRole .parameters, body.withRole .body]

/-! ## Properties with modifiers -/

def startsPropertyName : Token → Bool
  | .word _ | .privateName | .number | .string _ | .symbol .openBracket => true
  | _ => false

/-- The current token is a keyword that modifies what follows it: a property name, or the mark of
a generator. For `async` it has to follow on the same line. -/
def atModifier (k : Keyword) : Parser Bool := do
  if ← atKeyword k then
    let next ← peek
    let follows :=
      startsPropertyName next.token ||
        (k ≠ .getWord && k ≠ .setWord && next.token = .symbol .times)
    return follows && !(k = .asyncWord && next.newline)
  else return false

def methodModifiers : Parser Bool := do
  if ← atModifier .getWord then advance; return true
  else if ← atModifier .setWord then advance; return true
  else if ← atModifier .asyncWord then
    advance
    let _ ← skipSymbol .times
    return true
  else skipSymbol .times

/-! ## Classes -/

def fieldRest (g : Rules) (name : Node) (start : Nat) : Parser Node := do
  let value ←
    if ← skipSymbol .assign then
      let e ← g.parse (.assignment true)
      pure [e.withRole .value]
    else pure []
  let field ← close .fieldDefinition start (name.withRole (.other "property") :: value)
  endStatement
  return field

def methodOrField (g : Rules) (start : Nat) : Parser Node := do
  let modified ← methodModifiers
  let name ← propertyName g
  if modified || (← atSymbol .openParen) then methodRest g name start
  else fieldRest g name start

def classMember (g : Rules) : Parser Node := do
  let start ← here
  if ← atKeyword .staticWord then
    let next ← peek
    if next.token = .symbol .openBrace then
      advance
      let body ← g.parse .block
      return ← close .classStaticBlock start [body.withRole .body]
    if startsPropertyName next.token || next.token = .symbol .times then advance
  methodOrField g start

def classMembers (g : Rules) : Nat → Parser (List Node)
  | 0 => failure
  | n + 1 => do
    if ← skipSymbol .closeBrace then return []
    if ← skipSymbol .semicolon then return ← classMembers g n
    let member ← classMember g
    return member :: (← classMembers g n)

def heritage? (g : Rules) : Parser (List Node) := do
  let start ← here
  if ← skipKeyword .extendsWord then
    let e ← g.parse .leftHandSide
    return [← close .classHeritage start [e]]
  else return []

def classRest (g : Rules) (kind : Kind) (start : Nat) : Parser Node := do
  let name ← ownName?
  let heritage ← heritage? g
  let bodyStart ← here
  expect .openBrace
  let members ← classMembers g g.bound
  let body ← close .classBody bodyStart members
  close kind start (name ++ heritage ++ [body.withRole .body])

end RegistryScript.Grammar
