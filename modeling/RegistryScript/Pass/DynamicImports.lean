import RegistryScript.Pass.Basic
import RegistryScript.Syntax.Literal

/-! # Dynamic imports

* `redirectImports`: lets dynamic imports of relative modules go through the registry: the callee
  becomes the registry's loader and the specifier the key of the module. Other dynamic imports stay
  as they are.
-/

namespace RegistryScript
set_option autoImplicit false

def Node.isDynamicImport (n : Node) : Bool :=
  n.kind = .callExpression &&
    match n.child? .function with
    | some callee => callee.kind = .importCallee
    | none => false

def Node.callArguments (call : Node) : List Node :=
  match call.child? .arguments with
  | some arguments => arguments.namedChildren.filter fun n => n.kind ≠ .comment
  | none => []

def redirectImport (s : Script) (names : Settings) (call : Node) : Pass Unit := do
  match call.child? .function, call.callArguments with
  | some callee, [argument] =>
    if argument.kind = .string then
      let specifier ← s.stringValue argument
      if isRelative specifier then
        Pass.replaceNode s callee names.dynamicImportHelper
        Pass.replaceNode s argument (registryKey specifier).quote
        modify fun draft => { draft with dynamicImports := draft.dynamicImports + 1 }
    else
      -- the call stays; its text is read for the log
      let _ ← s.textOf call
  | _, _ =>
    let _ ← s.textOf call

/-- Redirects the dynamic imports of all statements but imports; the number of all imports
redirected so far. -/
def redirectImports (s : Script) (names : Settings) : Pass Nat := do
  (s.statements.filter fun n => n.kind ≠ .importStatement).forM fun statement =>
    (statement.descendants.filter Node.isDynamicImport).forM (redirectImport s names)
  return (← get).dynamicImports

end RegistryScript
