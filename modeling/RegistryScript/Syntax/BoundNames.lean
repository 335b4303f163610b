import RegistryScript.Script.Basic

/-! # Names that declarations bind

* `boundIdentifiers`: the identifier nodes that a declaration target binds, in their order. Keys,
  computed keys and default values bind nothing.
* `Script.boundNames`: their texts.
* `Script.declaredNames`: the names that a declaration introduces.
-/

namespace RegistryScript
set_option autoImplicit false

/-! ## Targets -/

def accessBase : Node → Except Fault Node
  | n@⟨kind, _, _, _, _, _, children⟩ =>
    if kind = .memberExpression then baseOfObject children else .ok n
where
  baseOfObject : List Node → Except Fault Node
    | [] => .error (.missing .kind)
    | n :: ns => if n.role = some .object then accessBase n else baseOfObject ns

mutual

/-- The identifiers that a declaration target binds. Of a chain of member accesses it is the
object it starts from. -/
def boundIdentifiers : Node → Except Fault (List Node)
  | n@⟨kind, _, _, _, _, _, children⟩ =>
    match kind with
    | .identifier | .shorthandPropertyIdentifierPattern => .ok [n]
    | .memberExpression => do
      let base ← accessBase n
      return if base.kind = .identifier then [base] else []
    | .objectPattern => boundInProperties children
    | .arrayPattern | .restPattern => boundInElements children
    | .assignmentPattern => boundInRole .left children
    | _ => .ok []

/-- The identifiers that the parts of an object pattern bind. -/
def boundInProperties : List Node → Except Fault (List Node)
  | [] => .ok []
  | n@⟨kind, _, _, _, isNamed, _, children⟩ :: ns => do
    let here ←
      if isNamed then
        match kind with
        | .pairPattern => boundInRole .value children
        | .objectAssignmentPattern => boundInRole .left children
        | .restPattern | .shorthandPropertyIdentifierPattern => boundIdentifiers n
        | _ => .ok []
      else .ok []
    return here ++ (← boundInProperties ns)

def boundInElements : List Node → Except Fault (List Node)
  | [] => .ok []
  | n :: ns => do
    let here ← if n.isNamed then boundIdentifiers n else .ok []
    return here ++ (← boundInElements ns)

def boundInRole (role : Role) : List Node → Except Fault (List Node)
  | [] => .ok []
  | n :: ns => if n.role = some role then boundIdentifiers n else boundInRole role ns

end

namespace Script

def boundNames (s : Script) (target : Node) : Except Fault (List Text) := do
  (← boundIdentifiers target).mapM s.textOf

def boundNames? (s : Script) : Option Node → Except Fault (List Text)
  | none => .ok []
  | some target => s.boundNames target

def declaratorNames (s : Script) (declaration : Node) : Except Fault (List Text) := do
  let declarators := declaration.namedChildren.filter fun n => n.kind = .variableDeclarator
  return (← declarators.mapM fun n => s.boundNames? (n.child? .name)).flatten

def ownName (s : Script) (n : Node) : Except Fault (List Text) := do
  match n.child? .name with
  | none => return []
  | some name => return [← s.textOf name]

def declaredNames (s : Script) (declaration : Node) : Except Fault (List Text) :=
  if declaration.kind.isVariableDeclaration then s.declaratorNames declaration
  else s.ownName declaration

end Script

end RegistryScript
