import RegistryScript.Pass.Basic
import RegistryScript.Syntax.BoundNames
import RegistryScript.Syntax.Literal

/-! # Registering exports

* `registerExports`: turns each export statement into registrations. An exported declaration and a
  named default stay as plain declarations; any other default becomes an assignment to the module's
  record; what only names exports is deleted.
-/

namespace RegistryScript
set_option autoImplicit false

/-- A default export of this kind keeps its own name if it has one. -/
def Kind.mayBeNamedDefault (k : Kind) : Bool :=
  k.isNamedDeclaration || k.isFunctionExpression || k = .classExpression

def registerDefault (s : Script) (names : Settings) (n : Node) (start : Nat) : Pass Unit := do
  let target ← Pass.demand ((n.child? .declaration).or (n.child? .value))
  match if target.kind.mayBeNamedDefault then target.child? .name else none with
  | some name =>
    Pass.edit (Overlay.delete start (← s.startOf target))
    Pass.queue "default" (← s.textOf name)
  | none =>
    let stop ← s.startOf target
    Pass.edit (Overlay.replace start stop (names.moduleBinding ++ ".default = "))
    -- nothing is queued: the assignment registers the value
    modify fun draft => { draft with exportNames := draft.exportNames ++ [("default" : Text)] }

/-- Registers an exported declaration, which stays without what stands in front of it. -/
def registerDeclaration (s : Script) (declaration : Node) (start : Nat) : Pass Unit := do
  (← s.declaredNames declaration).forM fun name => Pass.queue name name
  Pass.edit (Overlay.delete start (← s.startOf declaration))

/-- Registers the names of an export clause. With a record they are read from it, without one they
are names of the script or of its imports. -/
def registerSpecifier (s : Script) (recordId : Option Text) (n : Node) : Pass Unit := do
  let name ← s.exportName (← Pass.demand (n.child? .name))
  let exported ←
    match n.child? .givenName with
    | some given => s.exportName given
    | none => pure name
  match recordId with
  | some id => Pass.queue exported (memberAccess id name)
  | none => Pass.queue exported (((← get).imports.expression? name).getD name)

def registerClause (s : Script) (recordId : Option Text) (clause : Node) : Pass Unit :=
  (clause.namedChildren.filter fun c => c.kind = .exportSpecifier).forM
    (registerSpecifier s recordId)

def namespaceName? (n : Node) : Except Fault (Option Node) :=
  match n.namedChildOfKind? .namespaceExport with
  | some clause =>
    match clause.namedChildren.getLast? with
    | some name => .ok (some name)
    | none => .error .outside
  | none => .ok (n.namedChildOfKind? .identifier)

/-- Registers exports of another module: listed ones, all of them under one name, or all of them
under their own names. -/
def registerForwarded (s : Script) (names : Settings) (n source : Node) : Pass Unit := do
  let specifier ← s.stringValue source
  let recordId ← Pass.recordFor names specifier
  let name? ← namespaceName? n
  match n.namedChildOfKind? .exportClause, name? with
  | some clause, _ => registerClause s (some recordId) clause
  | none, some name => Pass.queue (← s.exportName name) recordId
  | none, none =>
    modify fun draft => { draft with exports := draft.exports ++ [.star recordId specifier] }

def registerNamed (s : Script) (names : Settings) (n : Node) : Pass Unit := do
  match n.source? with
  | some source => registerForwarded s names n source
  | none => (n.namedChildOfKind? .exportClause).forM (registerClause s none)
  Pass.deleteNode s n

def registerExport (s : Script) (names : Settings) (n : Node) : Pass Unit := do
  let start ← s.startOf ((n.childOfKind? .exportKeyword).getD n)
  if (n.childOfKind? .defaultKeyword).isSome then registerDefault s names n start
  else
    match n.child? .declaration with
    | some declaration => registerDeclaration s declaration start
    | none => registerNamed s names n

def registerExports (s : Script) (names : Settings) : Pass Unit :=
  (s.statements.filter fun n => n.kind = .exportStatement).forM (registerExport s names)

end RegistryScript
