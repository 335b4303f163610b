import RegistryScript.Pass.Basic
import RegistryScript.Syntax.Literal

/-! # Collecting imports

* `collectImports`: enters the modules and names of all import statements into the import table
  and deletes the statements. A statement without names still gets a record, so that the module is
  looked up.
-/

namespace RegistryScript
set_option autoImplicit false

/-- Binds the name of an import specifier: the exported name, or the one behind `as`. -/
def bindSpecifier (s : Script) (names : Settings) (specifier : Text) (n : Node) : Pass Unit := do
  let imported ← s.exportName (← Pass.demand (n.child? .name))
  let localName ←
    match n.child? .givenName with
    | some given => s.textOf given
    | none => pure imported
  Pass.bind names localName specifier (some imported)

def bindPart (s : Script) (names : Settings) (specifier : Text) (n : Node) : Pass Unit :=
  match n.kind with
  | .identifier => do Pass.bind names (← s.textOf n) specifier (some "default")
  | .namespaceImport =>
    (n.namedChildren.filter fun c => c.kind = .identifier).forM fun c => do
      Pass.bind names (← s.textOf c) specifier none
  | .namedImports =>
    (n.namedChildren.filter fun c => c.kind = .importSpecifier).forM
      (bindSpecifier s names specifier)
  | _ => pure ()

def collectImport (s : Script) (names : Settings) (n : Node) : Pass Unit := do
  let specifier ←
    match n.source? with
    | some source => s.stringValue source
    | none => throw (.missing .children)
  let _ ← Pass.recordFor names specifier
  (n.namedChildren.filter fun c => c.kind = .importClause).forM fun clause =>
    clause.namedChildren.forM (bindPart s names specifier)
  Pass.deleteNode s n

def collectImports (s : Script) (names : Settings) : Pass Unit :=
  (s.statements.filter fun n => n.kind = .importStatement).forM (collectImport s names)

end RegistryScript
