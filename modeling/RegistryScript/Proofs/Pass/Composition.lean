import Mathlib
import RegistryScript.Pass.Imports
import RegistryScript.Proofs.Conflict.Reading

/-! # Actions made up of others

What the passes find in imports and exports they enter into the table and the queue, and they do so
by actions that are made up of a few others. What carries over from the parts of an action to the
whole, and holds of these few, therefore holds of all of them.

* `Composes`: something holds of an action when it holds of its parts.
* `Composes.forM`: it holds of a loop then.
* `Composes.bindClauses`: the names of an import statement.
* `Composes.registerClause`, `Composes.registerForwarded`: the names of an export statement.
-/

namespace RegistryScript
set_option autoImplicit false

/-- Something holds of an action when it holds of its parts, and of all actions that only read the
tree. -/
structure Composes (P : ∀ α : Type, Pass α → Prop) : Prop where
  of_pure : ∀ {α : Type} (a : α), P α (pure a)
  of_lift : ∀ {α : Type} {r : Except Fault α}, Harmless r → P α (liftM r)
  of_bind : ∀ {α β : Type} {x : Pass α} {f : α → Pass β}, P α x → (∀ a, P β (f a)) → P β (x >>= f)

def queueSpecified (recordId : Option Text) (name exported : Text) : Pass Unit :=
  match recordId with
  | some id => Pass.queue exported (memberAccess id name)
  | none => do Pass.queue exported (((← get).imports.expression? name).getD name)

namespace Composes

variable {P : ∀ α : Type, Pass α → Prop} (h : Composes P) {s : Script} {names : Settings}
include h

theorem forM {α : Type} {f : α → Pass PUnit} (hf : ∀ a, P PUnit (f a)) (l : List α) :
    P PUnit (l.forM f) := by
  induction l with
  | nil => exact h.of_pure _
  | cons a l ih => exact h.of_bind (hf a) fun _ => ih

/-! ## Imports -/

section Imports

variable {specifier : Text}
  (hbind : ∀ localName imported, P Unit (Pass.bind names localName specifier imported))
include hbind

theorem bindSpecifier (n : Node) : P Unit (bindSpecifier s names specifier n) := by
  refine h.of_bind (h.of_lift (harmless_demand _)) fun name =>
    h.of_bind (h.of_lift (harmless_exportName s name)) fun imported => ?_
  cases n.child? .givenName with
  | none => exact hbind _ _
  | some given => exact h.of_bind (h.of_lift (harmless_textOf s given)) fun _ => hbind _ _

theorem bindPart (n : Node) : P Unit (bindPart s names specifier n) := by
  unfold RegistryScript.bindPart
  cases n.kind with
  | identifier => exact h.of_bind (h.of_lift (harmless_textOf s n)) fun _ => hbind _ _
  | namespaceImport =>
    exact h.forM (fun c => h.of_bind (h.of_lift (harmless_textOf s c)) fun _ => hbind _ _) _
  | namedImports => exact h.forM (h.bindSpecifier hbind) _
  | _ => exact h.of_pure _

theorem bindClauses (clauses : List Node) : P Unit (clauses.forM fun clause =>
    clause.namedChildren.forM (RegistryScript.bindPart s names specifier)) :=
  h.forM (fun clause => h.forM (h.bindPart hbind) clause.namedChildren) clauses

end Imports

/-! ## Exports -/

section Exports

variable (hqueue : ∀ exported expression, P Unit (Pass.queue exported expression))
  (hlocal : ∀ exported name, P Unit (do
    Pass.queue exported (((← get).imports.expression? name).getD name)))
include hqueue hlocal

omit h in
theorem queueSpecified (recordId : Option Text) (name exported : Text) :
    P Unit (queueSpecified recordId name exported) := by
  cases recordId with
  | some id => exact hqueue _ _
  | none => exact hlocal _ _

theorem registerSpecifier (recordId : Option Text) (n : Node) :
    P Unit (registerSpecifier s recordId n) := by
  have hregister := Composes.queueSpecified hqueue hlocal recordId
  refine h.of_bind (h.of_lift (harmless_demand _)) fun node =>
    h.of_bind (h.of_lift (harmless_exportName s node)) fun name => ?_
  cases n.child? .givenName with
  | none => exact h.of_bind (h.of_pure _) fun exported => hregister name exported
  | some given =>
    exact h.of_bind (h.of_lift (harmless_exportName s given)) fun exported => hregister name exported

theorem registerClause (recordId : Option Text) (clause : Node) :
    P Unit (registerClause s recordId clause) :=
  h.forM (h.registerSpecifier hqueue hlocal recordId) _

theorem registerForwarded
    (hrecord : ∀ specifier, P Text (Pass.recordFor names specifier))
    (hstar : ∀ recordId specifier, P Unit (modify fun draft =>
      { draft with exports := draft.exports ++ [.star recordId specifier] }))
    (n source : Node) : P Unit (registerForwarded s names n source) := by
  refine h.of_bind (h.of_lift (harmless_stringValue s source)) fun specifier =>
    h.of_bind (hrecord specifier) fun recordId =>
      h.of_bind (h.of_lift (harmless_namespaceName? n)) fun name? => ?_
  split
  · exact h.registerClause hqueue hlocal _ _
  · exact h.of_bind (h.of_lift (harmless_exportName s _)) fun _ => hqueue _ _
  · exact hstar _ _

end Exports

end Composes

end RegistryScript
