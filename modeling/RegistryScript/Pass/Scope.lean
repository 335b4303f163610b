import RegistryScript.Syntax.BoundNames

/-! # Inner scopes of a script

* `Script.scopeNames`: the names that a node declares for what is inside it: parameters and hoisted
  variables of a function, declarations of a block, of a `switch`, of the head of a loop, of a catch
  clause, and the own name of a function or class expression.
* `Script.blockNames`: the names that the statements of a block declare.
* `Script.hoistedNames`: the names of the variables declared anywhere in a function body, functions
  and classes inside it left out.

The names are lists that stand for sets: what counts is whether a name is among them.
-/

namespace RegistryScript
set_option autoImplicit false

namespace Script

/-! ## Blocks and bodies -/

def statementNames (s : Script) (statement : Node) : Except Fault (List Text) :=
  if statement.kind.isVariableDeclaration then s.declaratorNames statement
  else if statement.kind.isNamedDeclaration then s.ownName statement
  else .ok []

def blockNames (s : Script) (statements : List Node) : Except Fault (List Text) := do
  return (← statements.mapM s.statementNames).flatten

mutual

def hoistedIn (s : Script) : Node → Except Fault (List Text)
  | n@⟨kind, _, _, _, _, _, children⟩ =>
    if kind.isFunction || kind.isClass then .ok []
    else do
      -- the head of a `for`-`in` loop holds no declaration node, so its variable is not found here
      let here ← if kind = .variableDeclaration then s.declaratorNames n else .ok []
      return here ++ (← s.hoistedAmong children)

/-- The names of the variables declared in the named nodes of a list, the last node first. -/
def hoistedAmong (s : Script) : List Node → Except Fault (List Text)
  | [] => .ok []
  | n :: ns => do
    let behind ← s.hoistedAmong ns
    if n.isNamed then return behind ++ (← s.hoistedIn n) else return behind

end

def hoistedNames (s : Script) (body : Node) : Except Fault (List Text) :=
  s.hoistedAmong body.children

/-! ## Scopes -/

def functionNames (s : Script) (n : Node) : Except Fault (List Text) := do
  let parameters ←
    match n.child? .parameters with
    | some list => list.namedChildren.mapM s.boundNames
    | none => .ok []
  let parameter ← s.boundNames? (n.child? .parameter)
  let own ← if n.kind.isFunctionExpression then s.ownName n else .ok []
  let hoisted ←
    match n.child? .body with
    | some body => if body.kind = .statementBlock then s.hoistedNames body else .ok []
    | none => .ok []
  return parameters.flatten ++ parameter ++ own ++ hoisted

/-- The names that a node declares for its inside. -/
def scopeNames (s : Script) (n : Node) : Except Fault (List Text) :=
  if n.kind.isFunction then s.functionNames n
  else
    match n.kind with
    | .classExpression => s.ownName n
    | .statementBlock | .classStaticBlock => s.blockNames n.namedChildren
    | .switchBody => do
      return (← n.namedChildren.mapM fun c => s.blockNames c.namedChildren).flatten
    | .forStatement =>
      match n.child? .initializer with
      | some initializer => s.blockNames [initializer]
      | none => .ok []
    | .forInStatement =>
      if (n.child? .kind).isSome then s.boundNames? (n.child? .left) else .ok []
    | .catchClause => s.boundNames? (n.child? .parameter)
    | _ => .ok []

end Script

end RegistryScript
