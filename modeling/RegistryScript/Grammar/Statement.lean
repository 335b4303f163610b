import RegistryScript.Grammar.Expression

/-! # Statements

* `statementRule`: the rule of statements and declarations, imports and exports left out.
* `blockRule`: statements in braces.
* `declarationRest`: a declaration by `const`, `let` or `var` from behind its keyword on.
-/

namespace RegistryScript.Grammar
set_option autoImplicit false

/-! ## Declarations -/

def declarator (g : Rules) (allowIn : Bool) : Parser Node := do
  let start ← here
  let name ← g.parse .target
  if ← skipSymbol .assign then
    let value ← g.parse (.assignment allowIn)
    close .variableDeclarator start [name.withRole .name, value.withRole .value]
  else close .variableDeclarator start [name.withRole .name]

def declarators (g : Rules) (allowIn : Bool) : Nat → Parser (List Node)
  | 0 => failure
  | n + 1 => do
    let d ← declarator g allowIn
    if ← skipSymbol .comma then return d :: (← declarators g allowIn n) else return [d]

/-- The keyword of a declaration that is the current token. `let` is one only in front of a name or
a pattern. -/
def declarationKeyword? : Parser (Option Kind) := do
  match ← current with
  | .word (some .varWord) => return some .variableDeclaration
  | .word (some .constWord) => return some .lexicalDeclaration
  | .word (some .letWord) =>
    let next ← peek
    let declares :=
      isNameToken next.token || next.token = .symbol .openBracket ||
        next.token = .symbol .openBrace
    return if declares then some .lexicalDeclaration else none
  | _ => return none

def declaration (g : Rules) (kind : Kind) : Parser Node := do
  let start ← here
  advance
  let items ← declarators g true g.bound
  endStatement
  close kind start items

/-! ## Branches -/

def parenthesizedHead (g : Rules) : Parser Node := do
  let start ← here
  expect .openParen
  let e ← g.parse (.expression true)
  expect .closeParen
  close .parenthesizedExpression start [e]

def ifStatement (g : Rules) (start : Nat) : Parser Node := do
  let test ← parenthesizedHead g
  let yes ← g.parse .statement
  let elseStart ← here
  if ← skipKeyword .elseWord then
    let no ← g.parse .statement
    let clause ← close .elseClause elseStart [no]
    close .ifStatement start [test, yes, clause]
  else close .ifStatement start [test, yes]

def atCaseEnd : Parser Bool := do
  return (← atKeyword .caseWord) || (← atKeyword .defaultWord) || (← atSymbol .closeBrace)

def switchCase (g : Rules) : Parser Node := do
  let start ← here
  if ← skipKeyword .defaultWord then
    expect .colon
    let statements ← repeatUntil atCaseEnd (g.parse .statement) g.bound
    close .switchDefault start statements
  else
    expectKeyword .caseWord
    let value ← g.parse (.expression true)
    expect .colon
    let statements ← repeatUntil atCaseEnd (g.parse .statement) g.bound
    close .switchCase start (value.withRole .value :: statements)

def switchStatement (g : Rules) (start : Nat) : Parser Node := do
  let value ← parenthesizedHead g
  let bodyStart ← here
  expect .openBrace
  let cases ← g.upTo .closeBrace (switchCase g)
  let body ← close .switchBody bodyStart cases
  close .switchStatement start [value, body.withRole .body]

/-! ## Loops -/

def forInRest (g : Rules) (start : Nat) (head : List Node) : Parser Node := do
  let right ←
    if ← skipKeyword .ofWord then g.parse (.assignment true)
    else
      expectKeyword .inWord
      g.parse (.expression true)
  expect .closeParen
  let body ← g.parse .statement
  close .forInStatement start (head ++ [right.withRole .right, body.withRole .body])

def forRest (g : Rules) (start : Nat) (initializer : List Node) : Parser Node := do
  expect .semicolon
  let test ← if ← atSymbol .semicolon then pure [] else pure [← g.parse (.expression true)]
  expect .semicolon
  let step ← if ← atSymbol .closeParen then pure [] else pure [← g.parse (.expression true)]
  expect .closeParen
  let body ← g.parse .statement
  close .forStatement start (initializer ++ test ++ step ++ [body.withRole .body])

def atForIn : Parser Bool := do return (← atKeyword .ofWord) || (← atKeyword .inWord)

def forDeclaration (g : Rules) (start : Nat) (kind : Kind) : Parser Node := do
  let keyword ← leafToken kind
  let items ← declarators g false g.bound
  if ← atForIn then
    match items with
    | [d] =>
      let name ← (d.child? .name : Option Node)
      let value := (d.child? .value).toList
      forInRest g start ([keyword.withRole .kind, name.withRole .left] ++ value)
    | _ => failure
  else
    let d ← close kind keyword.start items
    forRest g start [d.withRole .initializer]

def forStatement (g : Rules) (start : Nat) : Parser Node := do
  let _ ← skipKeyword .awaitWord
  expect .openParen
  if ← atSymbol .semicolon then forRest g start []
  else
    match ← declarationKeyword? with
    | some kind => forDeclaration g start kind
    | none =>
      let e ← g.parse (.expression false)
      if ← atForIn then
        let target ← (toAssigned e : Option Node)
        forInRest g start [target.withRole .left]
      else
        let statement : Node :=
          { kind := .expressionStatement, start := e.start, stop := e.stop, children := [e] }
        forRest g start [statement.withRole .initializer]

def whileStatement (g : Rules) (start : Nat) : Parser Node := do
  let test ← parenthesizedHead g
  let body ← g.parse .statement
  close .whileStatement start [test, body.withRole .body]

/-- A loop that checks its condition last. A semicolon behind it belongs to it. -/
def doStatement (g : Rules) (start : Nat) : Parser Node := do
  let body ← g.parse .statement
  expectKeyword .whileWord
  let test ← parenthesizedHead g
  let _ ← skipSymbol .semicolon
  close .doStatement start [body.withRole .body, test]

/-! ## Jumps and errors -/

def jump (kind : Kind) (start : Nat) : Parser Node := do
  let label ←
    if isNameToken (← current) && !(← afterNewline) then pure [← leaf .statementIdentifier]
    else pure []
  endStatement
  close kind start label

def atStatementEnd : Parser Bool := do
  let r ← get
  return r.newline || r.token = .symbol .semicolon || r.token = .symbol .closeBrace ||
    r.token = .endOfText

def returnStatement (g : Rules) (start : Nat) : Parser Node := do
  let value ← if ← atStatementEnd then pure [] else pure [← g.parse (.expression true)]
  endStatement
  close .returnStatement start value

/-- An error that is raised; its value starts on the same line. -/
def throwStatement (g : Rules) (start : Nat) : Parser Node := do
  guard !(← afterNewline)
  let value ← g.parse (.expression true)
  endStatement
  close .throwStatement start [value]

def catchClause (g : Rules) : Parser (List Node) := do
  let start ← here
  if ← skipKeyword .catchWord then
    let parameter ←
      if ← skipSymbol .openParen then
        let p ← g.parse .target
        expect .closeParen
        pure [p.withRole .parameter]
      else pure []
    let body ← g.parse .block
    return [← close .catchClause start (parameter ++ [body.withRole .body])]
  else return []

def finallyClause (g : Rules) : Parser (List Node) := do
  let start ← here
  if ← skipKeyword .finallyWord then
    let body ← g.parse .block
    return [← close .finallyClause start [body.withRole .body]]
  else return []

def tryStatement (g : Rules) (start : Nat) : Parser Node := do
  let body ← g.parse .block
  let clauses := (← catchClause g) ++ (← finallyClause g)
  guard !clauses.isEmpty
  close .tryStatement start (body.withRole .body :: clauses)

def withStatement (g : Rules) (start : Nat) : Parser Node := do
  let object ← parenthesizedHead g
  let body ← g.parse .statement
  close .withStatement start [object, body.withRole .body]

/-! ## Statements -/

def blockRule (g : Rules) : Parser Node := do
  let start ← here
  expect .openBrace
  let statements ← g.upTo .closeBrace (g.parse .statement)
  close .statementBlock start statements

def expressionStatement (g : Rules) : Parser Node := do
  let start ← here
  let first ← current
  let e ← g.parse (.expression true)
  if e.kind = .identifier && isNameToken first && (← atSymbol .colon) then
    advance
    let body ← g.parse .statement
    close .labeledStatement start
      [{ e with kind := .statementIdentifier }, body.withRole .body]
  else
    endStatement
    close .expressionStatement start [e]

def keywordStatement (g : Rules) (k : Keyword) : Parser Node := do
  let start ← here
  match k with
  | .ifWord => advance; ifStatement g start
  | .forWord => advance; forStatement g start
  | .whileWord => advance; whileStatement g start
  | .doWord => advance; doStatement g start
  | .switchWord => advance; switchStatement g start
  | .tryWord => advance; tryStatement g start
  | .withWord => advance; withStatement g start
  | .throwWord => advance; throwStatement g start
  | .returnWord => advance; returnStatement g start
  | .breakWord => advance; jump .breakStatement start
  | .continueWord => advance; jump .continueStatement start
  | .debuggerWord => advance; endStatement; close .debuggerStatement start []
  | .functionWord => advance; functionRest g declaredFunction start
  | .classWord => advance; classRest g .classDeclaration start
  | .asyncWord =>
    if ← atAsyncFunction then
      advance
      advance
      functionRest g declaredFunction start
    else expressionStatement g
  | _ =>
    match ← declarationKeyword? with
    | some kind => declaration g kind
    | none => expressionStatement g

def statementRule (g : Rules) : Parser Node := do
  match ← current with
  | .word (some k) => keywordStatement g k
  | .symbol .openBrace => g.parse .block
  | .symbol .semicolon => leaf .emptyStatement
  | _ => expressionStatement g

end RegistryScript.Grammar
