import Mathlib
import RegistryScript.Pass.References
import RegistryScript.Proofs.Script.Span

/-! # Static scoping of modules

Which declaration an identifier refers to is told by the tree alone. Around an identifier stand
nodes, each entered at the place of one of its children, and a node declares names for some of its
places only: the parameters of a function are seen in its parameters and its body, but not in the
computed key of a method, and its variables are seen in the body alone.

* `Script.nameAt`: the name an identifier stands for, escapes resolved.
* `Node.targets`: the identifiers that a declaration target binds.
* `Script.varsOf`: the variables of a body, those declared in the heads of loops among them.
* `Script.declaredAt`: the identifiers that a node declares for what stands at one of its places.
* `Trail.isBinding`, `Script.isReference`: an identifier declares a name, or it refers to one.
* `Script.resolvesInside`: a declaration around an identifier has its name.
-/

namespace RegistryScript
set_option autoImplicit false

/-! ## Written names -/

namespace Text

def unicodeEscape? : Text → Option (CodePoint × Nat)
  | u :: mark :: rest =>
    if u ≠ 'u' then none
    else if mark = '\x7b' then
      let digits := rest.takeWhile fun c : CodePoint => c ≠ '\x7d'
      (codePointOfDigits digits).toOption.map fun c => (c, digits.length + 3)
    else (codePointOfDigits (mark :: rest.take 3)).toOption.map fun c => (c, 5)
  | _ => none

/-- A text with its Unicode escapes resolved, when so many code points of an escape are to be passed
over first. -/
def unescapedFrom : Nat → Text → Text
  | _, [] => []
  | k + 1, _ :: t => unescapedFrom k t
  | 0, c :: t =>
    match if c = '\\' then unicodeEscape? t else none with
    | some (decoded, k) => decoded :: unescapedFrom k t
    | none => c :: unescapedFrom 0 t

/-- The name that a written identifier stands for. -/
def unescaped (t : Text) : Text := unescapedFrom 0 t

end Text

def Script.nameAt (s : Script) (n : Node) : Text := (s.textAt n).unescaped

/-! ## Declared identifiers -/

namespace Node

mutual

def targets : Node → List Node
  | n@⟨kind, _, _, _, _, _, children⟩ =>
    match kind with
    | .identifier | .shorthandPropertyIdentifierPattern => [n]
    | .objectPattern | .arrayPattern | .restPattern => targetsAmong children
    | .pairPattern => targetsIn .value children
    | .assignmentPattern | .objectAssignmentPattern => targetsIn .left children
    | _ => []

def targetsAmong : List Node → List Node
  | [] => []
  | n :: ns => if n.isNamed then n.targets ++ targetsAmong ns else targetsAmong ns

def targetsIn (role : Role) : List Node → List Node
  | [] => []
  | n :: ns => if n.role = some role then n.targets else targetsIn role ns

end

def targetsAt (n : Node) (role : Role) : List Node := ((n.child? role).map targets).getD []

def ownNames (n : Node) : List Node := (n.child? .name).toList

def declared (n : Node) : List Node :=
  (n.namedChildren.filter fun c => c.kind = .variableDeclarator).flatMap fun c => c.targetsAt .name

def parameters (n : Node) : List Node :=
  ((n.child? .parameters).map fun list => list.namedChildren.flatMap targets).getD [] ++
    n.targetsAt .parameter

/-- What a statement declares for the block it stands in by `let`, `const`, `class` or
`function`. -/
def lexicals (n : Node) : List Node :=
  if n.kind = .lexicalDeclaration then n.declared
  else if n.kind.isNamedDeclaration then n.ownNames else []

/-! ## Variables -/

mutual

/-- A node and the named nodes inside it, functions and classes left out with all they hold. -/
def region : Node → List Node
  | n@⟨kind, _, _, _, _, _, children⟩ =>
    if kind.isFunction || kind.isClass then [] else n :: regionAmong children

def regionAmong : List Node → List Node
  | [] => []
  | n :: ns => if n.isNamed then n.region ++ regionAmong ns else regionAmong ns

end

def bodyBlock? (n : Node) : Option Node := (n.child? .body).filter fun c => c.kind = .statementBlock

def statementVariables (n : Node) : List Node :=
  if n.kind = .variableDeclaration then n.declared else []

end Node

namespace Script

variable (s : Script)

def headVariables (n : Node) : List Node :=
  if n.kind = .forInStatement && (n.child? .kind).any (fun c => s.textAt c = "var") then
    n.targetsAt .left
  else []

/-- The variables that are declared in a node, but not in a function or class inside it. -/
def varsOf (n : Node) : List Node :=
  n.region.flatMap fun c => c.statementVariables ++ s.headVariables c

/-! ## Scopes -/

def declaredInFunction (n : Node) (i : Nat) : List Node :=
  (if n.kind.isFunctionExpression then n.ownNames else []) ++
    (if n.isChildAt .name i then [] else n.parameters) ++
    (if n.isChildAt .body i then (n.bodyBlock?.map s.varsOf).getD [] else [])

/-- The identifiers that a node declares for what stands at one of its places. The name of a class
declaration is declared by the block around it. -/
def declaredAt (n : Node) (i : Nat) : List Node :=
  if n.kind.isFunction then s.declaredInFunction n i
  else
    match n.kind with
    | .classExpression => n.ownNames
    | .statementBlock => n.namedChildren.flatMap Node.lexicals
    | .classStaticBlock => n.namedChildren.flatMap Node.lexicals ++ s.varsOf n
    | .switchBody => n.namedChildren.flatMap fun c => c.namedChildren.flatMap Node.lexicals
    | .forStatement => ((n.child? .initializer).map Node.lexicals).getD []
    | .forInStatement =>
      if (n.child? .kind).any (fun c => s.textAt c ≠ "var") then n.targetsAt .left else []
    | .catchClause => n.targetsAt .parameter
    | _ => []

end Script

/-! ## References -/

def Trail.isBinding : Trail → Bool
  | [] => false
  | (n, i) :: trail =>
    match n.kind with
    | .objectPattern | .arrayPattern | .restPattern => isBinding trail
    | .pairPattern => n.isChildAt .value i && isBinding trail
    | .assignmentPattern | .objectAssignmentPattern => n.isChildAt .left i && isBinding trail
    | .variableDeclarator => n.isChildAt .name i
    | .formalParameters => true
    | .catchClause => n.isChildAt .parameter i
    | .forInStatement => n.isChildAt .left i && (n.child? .kind).isSome
    | _ => (n.kind.isFunction || n.kind.isClass) && (n.isChildAt .name i || n.isChildAt .parameter i)

/-- A place of a node where references may stand: not in an import, and in an export only in what is
declared there or is the exported value. -/
def Node.holdsReferences (n : Node) (i : Nat) : Bool :=
  match n.kind with
  | .importStatement | .exportClause | .namespaceExport => false
  | .exportStatement => n.isChildAt .declaration i || n.isChildAt .value i
  | _ => true

namespace Script

variable (s : Script) (trail : Trail) (n : Node)

def isReference : Bool :=
  n.kind.isNameUse && !trail.isBinding && trail.all fun e => e.1.holdsReferences e.2

/-- The node that a trail leads to reads a name, or it is an identifier that is assigned to. -/
def isRead : Bool := isReference trail n && n.kind ≠ .shorthandPropertyIdentifierPattern

def resolvesInside : Prop := ∃ e ∈ trail, ∃ m ∈ s.declaredAt e.1 e.2, s.nameAt m = s.nameAt n

/-- The variables at the top of the module, exported ones among them. -/
def moduleVariables : List Node := s.varsOf s.root

end Script

end RegistryScript
