import Mathlib
import RegistryScript.Proofs.Scoping.Static

/-! # The shape of modules

What the grammar of modules lets stand where, as far as scopes depend on it. Each condition is about
a node and one of its children, and can be checked.

* `Node.isTarget`: a declaration binds names by it.
* `Node.takesPattern`: a pattern may stand at a place of a node.
* `Node.takesStatement`: a statement may stand at a place of a node.
* `Script.IsModule`: a script whose tree has the shape of a module.
-/

namespace RegistryScript
set_option autoImplicit false

def Kind.isStatementPart : Kind → Bool
  | .variableDeclaration | .ifStatement | .elseClause | .forStatement | .forInStatement
  | .whileStatement | .doStatement | .switchStatement | .switchBody | .switchCase | .switchDefault
  | .tryStatement | .catchClause | .finallyClause | .labeledStatement | .statementBlock
  | .withStatement => true
  | _ => false

/-- A kind of node with nothing inside: comments, the line that names the interpreter and the parts
of strings. -/
def Kind.isLeaf : Kind → Bool
  | .comment | .hashBangLine | .stringFragment | .escapeSequence => true
  | _ => false

namespace Node

/-! ## Targets of declarations -/

mutual

/-- A target of a declaration, a part of one, or a comment. -/
def isTarget : Node → Bool
  | ⟨kind, _, _, _, _, _, children⟩ =>
    match kind with
    | .identifier | .shorthandPropertyIdentifierPattern | .undefined | .comment => true
    | .objectPattern | .arrayPattern | .restPattern => areTargets children
    | .pairPattern => isTargetIn .value children
    | .assignmentPattern | .objectAssignmentPattern => isTargetIn .left children
    | _ => false

def areTargets : List Node → Bool
  | [] => true
  | n :: ns => (!n.isNamed || n.isTarget) && areTargets ns

def isTargetIn (role : Role) : List Node → Bool
  | [] => true
  | n :: ns => if n.role = some role then n.isTarget else isTargetIn role ns

end

def declaresByTargets (n : Node) : Bool :=
  if n.kind = .variableDeclarator then (n.child? .name).all isTarget
  else if n.kind.isFunction then
    ((n.child? .parameters).all fun list => list.namedChildren.all isTarget) &&
      (n.child? .parameter).all isTarget
  else if n.kind = .forInStatement then (n.child? .kind).isNone || (n.child? .left).all isTarget
  else n.kind ≠ .catchClause || (n.child? .parameter).all isTarget

/-! ## Places -/

def takesPattern (n : Node) (i : Nat) : Bool :=
  match n.kind with
  | .objectPattern | .arrayPattern | .restPattern | .formalParameters => true
  | .pairPattern => n.isChildAt .value i
  | .assignmentPattern | .objectAssignmentPattern | .forInStatement | .assignmentExpression =>
    n.isChildAt .left i
  | .variableDeclarator => n.isChildAt .name i
  | .catchClause => n.isChildAt .parameter i
  | _ => false

def takesName (n : Node) (i : Nat) : Bool :=
  match n.kind with
  | .pairPattern => n.isChildAt .value i
  | .assignmentPattern | .objectAssignmentPattern => n.isChildAt .left i || n.isChildAt .right i
  | _ => true

/-- A child may stand in a node as far as object patterns go: they consist of properties. -/
def takesProperty (n c : Node) : Bool :=
  match c.kind with
  | .pairPattern | .objectAssignmentPattern => n.kind = .objectPattern
  | .restPattern | .shorthandPropertyIdentifierPattern | .comment => true
  | _ => n.kind ≠ .objectPattern || !c.isNamed

/-- A statement of a kind may stand at a place of a node: in another statement, at the top of the
module, or as the block of a function or of a class. -/
def takesStatement (n : Node) (i : Nat) (kind : Kind) : Bool :=
  if n.kind.isFunction then n.isChildAt .body i && kind = .statementBlock
  else
    n.kind.isStatementPart || n.kind = .program || n.kind = .exportStatement ||
      n.kind = .classStaticBlock

/-- A child may stand at a place of a node as far as statements go: exports stand at the top of the
module, and the module stands in no node. -/
def takesItem (n : Node) (i : Nat) (c : Node) : Bool :=
  match c.kind with
  | .program => false
  | .exportStatement => n.kind = .program
  | kind => !kind.isStatementPart || n.takesStatement i kind

def takes (n : Node) (i : Nat) (c : Node) : Bool :=
  (!c.kind.isPattern || n.takesPattern i) && (!c.kind.isNameUse || n.takesName i) &&
    n.takesProperty c && n.takesItem i c

/-- Nothing stands inside tokens and leaves, and names are no tokens. -/
def isPlain (n : Node) : Bool :=
  (n.isNamed || (n.children.isEmpty && !n.kind.isNameUse)) && (!n.kind.isLeaf || n.children.isEmpty)

def isShaped (n : Node) : Bool :=
  n.isPlain && n.declaresByTargets && n.indexed.all fun e => n.takes e.1 e.2

end Node

structure Script.IsModule (s : Script) : Prop where
  program : s.root.kind = .program
  shaped : s.root.all Node.isShaped = true

end RegistryScript
