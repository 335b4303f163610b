import RegistryScript.Grammar.Statement

/-! # Modules

* `importStatement`, `exportStatement`: the statements that only the top of a module has.
* `parseModule`: the syntax tree of a module, if it has one. It consists of the statements, with the
  comments put into the innermost nodes around them.
-/

namespace RegistryScript.Grammar
set_option autoImplicit false

/-! ## Parts of imports and exports -/

def source : Parser Node := do return (← string).withRole .source

def attributes (g : Rules) : Parser (List Node) := do
  let start ← here
  if (← atKeyword .withWord) && !(← afterNewline) then
    advance
    expect .openBrace
    let items ← g.list .closeBrace (property g)
    return [← close .importAttribute start items]
  else return []

def exportedName : Parser Node := do
  match ← current with
  | .string _ => string
  | _ => anyWord .identifier

/-- The name of an exported thing in an export; the bare word `default` is a mere token. -/
def exportedNameOrDefault : Parser Node := do
  if ← atKeyword .defaultWord then leafToken .defaultKeyword else exportedName

def importSpecifier : Parser Node := do
  let start ← here
  let first ← current
  let name ← exportedName
  if ← skipKeyword .asWord then
    let given ← identifier
    close .importSpecifier start [name.withRole .name, given.withRole .givenName]
  else
    guard (isNameToken first)
    close .importSpecifier start [name.withRole .name]

def exportSpecifier : Parser Node := do
  let start ← here
  let name ← exportedNameOrDefault
  if ← skipKeyword .asWord then
    let given ← exportedNameOrDefault
    close .exportSpecifier start [name.withRole .name, given.withRole .givenName]
  else close .exportSpecifier start [name.withRole .name]

/-! ## Imports -/

def importedNames (g : Rules) : Parser Node := do
  let start ← here
  if ← skipSymbol .times then
    expectKeyword .asWord
    let name ← identifier
    close .namespaceImport start [name]
  else
    expect .openBrace
    let items ← g.list .closeBrace importSpecifier
    close .namedImports start items

def importClause (g : Rules) : Parser Node := do
  let start ← here
  if isNameToken (← current) then
    let name ← identifier
    if ← skipSymbol .comma then
      let names ← importedNames g
      close .importClause start [name, names]
    else close .importClause start [name]
  else
    let names ← importedNames g
    close .importClause start [names]

def importStatement (g : Rules) : Parser Node := do
  let start ← here
  let keyword ← leafToken .importCallee
  let clause ←
    match ← current with
    | .string _ => pure []
    | _ =>
      let clause ← importClause g
      expectKeyword .fromWord
      pure [clause]
  let module ← source
  let extra ← attributes g
  endStatement
  close .importStatement start ([keyword] ++ clause ++ [module] ++ extra)

/-! ## Exports -/

def forwardedFrom (g : Rules) : Parser (List Node) := do
  expectKeyword .fromWord
  let module ← source
  return module :: (← attributes g)

def exportAll (g : Rules) (start : Nat) (keyword : Node) : Parser Node := do
  let starStart ← here
  expect .times
  let name ←
    if ← skipKeyword .asWord then
      let name ← exportedNameOrDefault
      pure [← close .namespaceExport starStart [name]]
    else pure []
  let rest ← forwardedFrom g
  endStatement
  close .exportStatement start (keyword :: name ++ rest)

def exportList (g : Rules) (start : Nat) (keyword : Node) : Parser Node := do
  let clauseStart ← here
  expect .openBrace
  let items ← g.list .closeBrace exportSpecifier
  let clause ← close .exportClause clauseStart items
  let rest ← if ← atKeyword .fromWord then forwardedFrom g else pure []
  endStatement
  close .exportStatement start (keyword :: clause :: rest)

/-- A function or class behind `default` is a declaration if it has a name and a value otherwise. -/
def asDefault (value : Kind) (n : Node) : Node :=
  if (n.child? .name).isSome then n.withRole .declaration
  else { n with kind := value, role := some .value }

def defaultFunction (g : Rules) (start : Nat) : Parser Node := do
  advance
  let f ← functionRest g declaredFunction start
  return asDefault
    (if f.kind = .functionDeclaration then .functionExpression else .generatorFunction) f

def exportDefault (g : Rules) (start : Nat) (keyword : Node) : Parser Node := do
  let marker ← leafToken .defaultKeyword
  let valueStart ← here
  let target ←
    if ← atKeyword .functionWord then defaultFunction g valueStart
    else if ← atAsyncFunction then
      advance
      defaultFunction g valueStart
    else if ← skipKeyword .classWord then
      let c ← classRest g .classDeclaration valueStart
      pure (asDefault .classExpression c)
    else
      let e ← g.parse (.assignment true)
      endStatement
      pure (e.withRole .value)
  close .exportStatement start [keyword, marker, target]

def exportDeclaration (g : Rules) (start : Nat) (keyword : Node) : Parser Node := do
  let d ← g.parse .statement
  guard (d.kind.isVariableDeclaration || d.kind.isNamedDeclaration)
  close .exportStatement start [keyword, d.withRole .declaration]

def exportStatement (g : Rules) : Parser Node := do
  let start ← here
  let keyword ← leafToken .exportKeyword
  match ← current with
  | .symbol .times => exportAll g start keyword
  | .symbol .openBrace => exportList g start keyword
  | .word (some .defaultWord) => exportDefault g start keyword
  | _ => exportDeclaration g start keyword

/-! ## Modules -/

def moduleItem (g : Rules) : Parser Node := do
  match ← current with
  | .word (some .exportWord) => exportStatement g
  | .word (some .importWord) =>
    let next ← peek
    if next.token = .symbol .openParen || next.token = .symbol .dot then g.parse .statement
    else importStatement g
  | _ => g.parse .statement

def rule (g : Rules) : Goal → Parser Node
  | .expression allowIn => expressionRule g allowIn
  | .assignment allowIn => assignmentRule g allowIn
  | .operation precedence allowIn => operationRule g precedence allowIn
  | .unary => unaryRule g
  | .leftHandSide => leftHandSideRule g
  | .constructed => constructedRule g
  | .target => targetRule g
  | .statement => statementRule g
  | .block => blockRule g

def parser : Nat → Goal → Parser Node
  | 0, _ => failure
  | n + 1, goal => rule ⟨parser n, n⟩ goal

def moduleItems (bound : Nat) : Parser (List Node) :=
  repeatUntil (do return (← current) = .endOfText) (moduleItem ⟨parser bound, bound⟩) bound

/-! ## Comments -/

mutual

/-- Puts a comment into the innermost node around it. -/
def insertComment (comment : Node) : Node → Node
  | ⟨kind, start, stop, role, isNamed, isMissing, children⟩ =>
    ⟨kind, start, stop, role, isNamed, isMissing, insertAmong comment children⟩

def insertAmong (comment : Node) : List Node → List Node
  | [] => [comment]
  | n :: ns =>
    if comment.stop ≤ n.start then comment :: n :: ns
    else if comment.start < n.stop then insertComment comment n :: ns
    else n :: insertAmong comment ns

end

def commentNode (span : Nat × Nat) : Node :=
  { kind := .comment, start := span.1, stop := span.2 }

/-! ## Leftovers -/

mutual

/-- No name with a default value is left in an object that turned out to be no pattern. -/
def isSettled : Node → Bool
  | ⟨kind, _, _, _, _, _, children⟩ =>
    !(kind = .object && children.any fun n => n.kind = .objectAssignmentPattern) &&
      areSettled children

def areSettled : List Node → Bool
  | [] => true
  | n :: ns => isSettled n && areSettled ns

end

/-! ## Texts -/

def interpreterLine (cs : List Char) : List Node × List Char :=
  match cs with
  | '#' :: '!' :: _ =>
    let line := cs.takeWhile fun c => !endsLine c
    ([{ kind := .hashBangLine, start := 0, stop := byteSize line }], cs.drop line.length)
  | _ => ([], cs)

/-- Enough for any text of the given length: between two tokens only so many symbols of the grammar
are opened. -/
def depthBound (length : Nat) : Nat := 16 * (length + 2)

def parseModule (cs : List Char) : Option Node := do
  let (line, rest) := interpreterLine cs
  let offset := byteSize cs - byteSize rest
  let r ← Reading.next? offset 0 true [] rest
  let (items, r) ← (moduleItems (depthBound cs.length)).run r
  guard (areSettled items)
  let comments := r.comments.reverse.map commentNode
  let children := comments.foldl (fun ns c => insertAmong c ns) items
  return { kind := .program, start := 0, stop := byteSize cs, children := line ++ children }

end RegistryScript.Grammar
