import Mathlib
import RegistryScript.Proofs.Commutation.Region
import RegistryScript.Transform

/-! # What the passes read and write

* `registry`, `rebinding`, `calling`: the regions of the passes: the imports and exports, the
  bindings with the constants, and the number of redirected imports.
* `confined_collectImports`, `confined_registerExports`, `confined_rebindReferences`,
  `confined_redirectImports`: each pass is confined to its region.
-/

namespace RegistryScript
set_option autoImplicit false

namespace Region

def registry : Region where
  records := true
  bindings := true
  exports := true

def rebinding : Region where
  bindings := true
  constants := true

def calling : Region where
  calls := true

end Region

open Region

variable {base : Text} {s : Script} {names : Settings}

/-! ## Imports and exports -/

theorem confined_recordFor (specifier : Text) :
    Confined base registry (Pass.recordFor names specifier) := by
  intro d id d' hd h
  obtain ⟨hid, rfl⟩ := Prod.mk.inj (Eq.symm h)
  exact ⟨⟨hd.consistent, hd.base_eq⟩, fun f _ => .inl ⟨f.overlay, by rw [Except.ok.inj hid]; rfl⟩⟩

theorem confined_bindName (localName specifier : Text) (imported : Option Text) :
    Confined base registry (Pass.bind names localName specifier imported) :=
  confined_modify (fun _ _ => rfl) fun _ => rfl

theorem confined_queue (exported expression : Text) :
    Confined base registry (Pass.queue exported expression) :=
  confined_modify (fun _ _ => rfl) fun _ => rfl

theorem confined_collectImport (n : Node) : Confined base registry (collectImport s names n) := by
  have hrest : ∀ specifier, Confined base registry (do
      let _ ← Pass.recordFor names specifier
      (n.namedChildren.filter fun c => c.kind = .importClause).forM fun clause =>
        clause.namedChildren.forM (bindPart s names specifier)
      Pass.deleteNode s n) := fun specifier =>
    confined_bind (confined_recordFor specifier) fun _ =>
      confined_bind (composes_confined.bindClauses (fun _ _ => confined_bindName _ _ _) _)
        fun _ => confined_deleteNode n
  unfold collectImport
  cases n.source? with
  | none => exact confined_bind (confined_throw _) hrest
  | some source => exact confined_bind (confined_lift _) hrest

theorem confined_collectImports : Confined base registry (collectImports s names) :=
  composes_confined.forM confined_collectImport _

theorem confined_queueLocal (exported name : Text) : Confined base registry (do
    Pass.queue exported (((← get).imports.expression? name).getD name)) :=
  confined_get_bind (fun _ _ => rfl) fun _ => confined_queue _ _

theorem confined_registerClause (recordId : Option Text) (clause : Node) :
    Confined base registry (registerClause s recordId clause) :=
  composes_confined.registerClause confined_queue confined_queueLocal recordId clause

theorem confined_registerForwarded (n source : Node) :
    Confined base registry (registerForwarded s names n source) :=
  composes_confined.registerForwarded confined_queue confined_queueLocal confined_recordFor
    (fun _ _ => confined_modify (fun _ _ => rfl) fun _ => rfl) n source

theorem confined_registerDefault (n : Node) (start : Nat) :
    Confined base registry (registerDefault s names n start) := by
  refine confined_bind (confined_lift _) fun target => ?_
  split
  · exact confined_bind (confined_lift _) fun stop => confined_bind (confined_edit (.delete _ _))
      fun _ => confined_bind (confined_lift _) fun name => confined_queue _ _
  · exact confined_bind (confined_lift _) fun stop =>
      confined_bind (confined_edit (.replace _ _ _)) fun _ =>
        confined_modify (fun _ _ => rfl) fun _ => rfl

theorem confined_registerDeclaration (declaration : Node) (start : Nat) :
    Confined base registry (registerDeclaration s declaration start) :=
  confined_bind (confined_lift _) fun _ =>
    confined_bind (composes_confined.forM (fun name => confined_queue name name) _) fun _ =>
      confined_bind (confined_lift _) fun _ => confined_edit (.delete _ _)

theorem confined_registerNamed (n : Node) : Confined base registry (registerNamed s names n) := by
  unfold registerNamed
  cases n.source? with
  | some source =>
    exact confined_bind (confined_registerForwarded n source) fun _ => confined_deleteNode n
  | none =>
    cases n.namedChildOfKind? .exportClause with
    | none => exact confined_bind (confined_pure _) fun _ => confined_deleteNode n
    | some clause =>
      exact confined_bind (confined_registerClause none clause) fun _ => confined_deleteNode n

theorem confined_registerExport (n : Node) : Confined base registry (registerExport s names n) := by
  refine confined_bind (confined_lift _) fun start => ?_
  by_cases hd : (n.childOfKind? .defaultKeyword).isSome = true
  · rw [if_pos hd]
    exact confined_registerDefault n start
  · rw [if_neg hd]
    cases n.child? .declaration with
    | some declaration => exact confined_registerDeclaration declaration start
    | none => exact confined_registerNamed n

theorem confined_registerExports : Confined base registry (registerExports s names) :=
  composes_confined.forM confined_registerExport _

/-! ## References -/

theorem confined_declareConstant (statement : Node) (name expression : Text) :
    Confined base rebinding (declareConstant s statement name expression) := by
  refine confined_get_bind (fun _ _ => rfl) fun d => ?_
  by_cases hin : d.helperConstants.contains name = true
  · rw [if_pos hin]
    exact confined_pure _
  · rw [if_neg hin]
    exact confined_bind (confined_modify (fun _ _ => rfl) fun _ => rfl) fun _ =>
      confined_bind (confined_lift _) fun start => confined_edit (.insertBefore _ _)

theorem confined_expandShorthand (n : Node) (expression : Text) :
    Confined base rebinding (expandShorthand s n expression) :=
  confined_bind (confined_lift _) fun _ => confined_edit (.insertAfter _ _)

theorem confined_rebind (statement n : Node) (index : Nat) (ancestors : List Node)
    (name expression : Text) :
    Confined base rebinding (rebind s statement n index ancestors name expression) := by
  unfold rebind
  split
  · exact confined_bind (confined_expandShorthand n expression) fun _ => confined_pure _
  · split
    · exact confined_bind (confined_expandShorthand n expression) fun _ => confined_pure _
    · exact confined_pure _
  · split
    · exact confined_pure _
    · split
      · exact confined_bind (confined_declareConstant statement name expression) fun _ =>
          confined_pure _
      · exact confined_bind (confined_replaceNode n expression) fun _ => confined_pure _

theorem confined_visitNode (statement : Node) (around : Surroundings) (index : Nat) (n : Node) :
    Confined base rebinding (visitNode s statement around index n) := by
  unfold visitNode
  by_cases hname : n.kind.isNameUse = true
  · simp only [hname, Bool.not_true, Bool.false_eq_true, if_false]
    refine confined_bind (confined_lift _) fun name => confined_get_bind (fun _ _ => rfl) fun d => ?_
    cases d.imports.get? name with
    | none => exact confined_pure _
    | some binding =>
      simp only
      split
      · exact confined_pure _
      · exact confined_rebind _ _ _ _ _ _
  · simp only [hname, Bool.not_false, if_true]
    exact confined_pure _

theorem confined_walk {r : Region} {visit : Surroundings → Nat → Node → Pass Bool}
    (hvisit : ∀ around index n, Confined base r (visit around index n)) (around : Surroundings)
    (count : Nat) (tasks : List Task) :
    Confined base r (walk visit (fun n => liftM (s.scopeNames n)) around count tasks) := by
  induction around, count, tasks using walk.induct with
  | case1 around count =>
    rw [walk]
    exact confined_pure _
  | case2 around count tasks ih =>
    rw [walk]
    exact ih
  | case3 around count tasks ih =>
    rw [walk]
    exact ih
  | case4 around count index n tasks skipped inside =>
    rw [walk]
    refine confined_bind (hvisit around index n) fun isReference => ?_
    have hskipped := skipped isReference
    have hinside := inside isReference
    by_cases hw : n.walkedChildren.isEmpty = true
    · cases isReference <;> simp only [hw, if_true] <;> exact hskipped
    · cases isReference <;> simp only [hw] <;>
        exact confined_bind (confined_lift _) fun names => hinside names

theorem confined_rebindStatement (count : Nat) (statement : Node) :
    Confined base rebinding (rebindStatement s count statement) :=
  confined_foldlM (fun count (_, _, ancestors) => confined_bind
    (confined_walk (confined_visitNode statement) { ancestors } count _) fun _ =>
      confined_pure _) _ _

theorem confined_rebindReferences : Confined base rebinding (rebindReferences s) := by
  refine confined_get_bind (fun _ _ => rfl) fun d => ?_
  split
  · exact confined_pure _
  · exact confined_foldlM confined_rebindStatement _ _

/-! ## Dynamic imports -/

theorem confined_redirectImport (call : Node) :
    Confined base calling (redirectImport s names call) := by
  have hskip : Confined base calling (do let _ ← s.textOf call : Pass Unit) :=
    confined_bind (confined_lift _) fun _ => confined_pure _
  unfold redirectImport
  split
  · next callee argument _ _ =>
    split
    · refine confined_bind (confined_lift _) fun specifier => ?_
      split
      · exact confined_bind (confined_replaceNode callee _) fun _ =>
          confined_bind (confined_replaceNode argument _) fun _ =>
            confined_modify (fun _ _ => rfl) fun _ => rfl
      · exact confined_pure _
    · exact hskip
  · exact hskip

theorem confined_redirectImports : Confined base calling (redirectImports s names) :=
  confined_bind (composes_confined.forM (fun _ =>
    composes_confined.forM confined_redirectImport _) _) fun _ =>
    confined_get_bind (fun _ _ => rfl) fun _ => confined_pure _

end RegistryScript
