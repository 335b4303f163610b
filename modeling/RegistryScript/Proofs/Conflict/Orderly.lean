import Mathlib
import RegistryScript.Proofs.Conflict.Reading
import RegistryScript.Proofs.Pass.Passes
import RegistryScript.Proofs.References.Log

/-! # Passes that keep out of the way of their own edits

A pass meets a conflict only if one of its edits touches an earlier one. So it meets none as long as
the edits made before it and its own, in their order, leave room for one another.

* `Peaceful`: an action that meets no conflict on any draft.
* `Orderly`: an action that meets none if the edits that it makes leave room for one another and
  the earlier ones for them.
* `orderly_bind`, `orderly_forM`: how this is made up of the parts of an action.
* `orderly_collectImports`, `orderly_registerExports`, `orderly_rebindReferences`,
  `orderly_redirectImports`: it holds of the four passes.
-/

namespace RegistryScript
set_option autoImplicit false

open Edit

variable {α β : Type} {s : Script} {names : Settings} {d d' : Draft} {es es' : List Edit}

/-! ## Actions without edits -/

/-- An action meets no conflict, whatever the draft is. -/
def Peaceful (x : Pass α) : Prop := ∀ d f d', outcome x d = (.error f, d') → f.isConflict = false

namespace Peaceful

theorem of_pure (a : α) : Peaceful (pure a : Pass α) := fun _ _ _ h => nomatch (Prod.mk.inj h).1

theorem of_throw {f : Fault} (hf : f.isConflict = false) : Peaceful (throw f : Pass α) := by
  intro d f' d' h
  rw [← Except.error.inj (Prod.mk.inj h).1]
  exact hf

theorem of_lift {r : Except Fault α} (hr : Harmless r) : Peaceful (liftM r : Pass α) :=
  fun _ f _ h => hr f (Prod.mk.inj h).1

theorem of_get : Peaceful (get : Pass Draft) := fun _ _ _ h => nomatch (Prod.mk.inj h).1

theorem of_modify (f : Draft → Draft) : Peaceful (modify f : Pass PUnit) :=
  fun _ _ _ h => nomatch (Prod.mk.inj h).1

theorem of_bind {x : Pass α} {f : α → Pass β} (hx : Peaceful x) (hf : ∀ a, Peaceful (f a)) :
    Peaceful (x >>= f) := by
  intro d e d' h
  rcases hrun : outcome x d with ⟨e' | a, d₁⟩
  · rw [outcome_bind_of_error hrun] at h
    exact hx d e d₁ (by rw [hrun, Except.error.inj (Prod.mk.inj h).1])
  · rw [outcome_bind_of_ok hrun] at h
    exact hf a d₁ e d' h

end Peaceful

theorem composes_peaceful : Composes @Peaceful := ⟨.of_pure, .of_lift, .of_bind⟩

/-! ## Actions with edits -/

/-- An action meets no conflict on a draft of a script, if the given edits, which it makes, leave
room for one another and the edits made before leave room for them. -/
def Orderly (s : Script) (x : Pass α) (d : Draft) (es : List Edit) : Prop :=
  ∀ before, (Overlay.ofText s.text).Takes before d.overlay → (before ++ es).Pairwise leavesRoom →
    ∀ f d', outcome x d = (.error f, d') → f.isConflict = false

theorem Peaceful.orderly {x : Pass α} (hx : Peaceful x) : Orderly s x d es :=
  fun _ _ _ f d' h => hx d f d' h

theorem orderly_edit (e : Edit) : Orderly s (Pass.edit e.run) d [e] := by
  intro before htakes hroom f d' h
  rw [outcome_edit] at h
  rcases hrun : outcome e.run d.overlay with ⟨err | _, o⟩
  · rw [hrun] at h
    have hoverlap := htakes.isOverlap_eq_false
      (fun e' he' => (List.pairwise_append.1 hroom).2.2 e' he' e List.mem_cons_self) hrun
    rw [← Except.error.inj (Prod.mk.inj h).1]
    exact hoverlap
  · rw [hrun] at h
    exact nomatch (Prod.mk.inj h).1

theorem orderly_bind {x : Pass α} {f : α → Pass β} (hx : Orderly s x d es)
    (hf : ∀ a d', Succeeds x d a d' →
      d.overlay.Takes es d'.overlay ∧ Orderly s (f a) d' es') :
    Orderly s (x >>= f) d (es ++ es') := by
  intro before htakes hroom e d' h
  rw [← List.append_assoc] at hroom
  rcases hrun : outcome x d with ⟨e' | a, d₁⟩
  · rw [outcome_bind_of_error hrun] at h
    exact hx before htakes (List.pairwise_append.1 hroom).1 e d₁
      (by rw [hrun, Except.error.inj (Prod.mk.inj h).1])
  · rw [outcome_bind_of_ok hrun] at h
    obtain ⟨htakes', hrest⟩ := hf a d₁ hrun
    exact hrest (before ++ es) (htakes.append htakes') hroom e d' h

theorem orderly_bind_of_keeps {x : Pass α} {f : α → Pass β} (hx : Peaceful x) (hk : KeepsText x)
    (hf : ∀ a d', Succeeds x d a d' → Orderly s (f a) d' es) : Orderly s (x >>= f) d es :=
  have hx' : Orderly s x d [] := hx.orderly
  orderly_bind hx' fun a d' h => ⟨(hk.becomes h).takes, hf a d' h⟩

theorem orderly_bind_last {x : Pass α} {f : α → Pass β} (hx : Orderly s x d es)
    (hf : ∀ a, Peaceful (f a)) : Orderly s (x >>= f) d es := by
  intro before htakes hroom e d' h
  rcases hrun : outcome x d with ⟨e' | a, d₁⟩
  · rw [outcome_bind_of_error hrun] at h
    exact hx before htakes hroom e d₁ (by rw [hrun, Except.error.inj (Prod.mk.inj h).1])
  · rw [outcome_bind_of_ok hrun] at h
    exact hf a d₁ e d' h

theorem orderly_forM {f : α → Pass PUnit} {g : α → List Edit} {l : List α}
    (hf : ∀ a ∈ l, ∀ d, Orderly s (f a) d (g a))
    (hlog : ∀ a ∈ l, ∀ d d', Succeeds (f a) d () d' → d.Becomes (g a) d') :
    Orderly s (l.forM f) d (l.flatMap g) := by
  induction l generalizing d with
  | nil => exact (Peaceful.of_pure _).orderly
  | cons a l ih =>
    rw [List.flatMap_cons]
    exact orderly_bind (hf a List.mem_cons_self d) fun _ d' h =>
      ⟨(hlog a List.mem_cons_self d d' h).takes, ih (fun b hb => hf b (List.mem_cons_of_mem a hb))
        fun b hb => hlog b (List.mem_cons_of_mem a hb)⟩

theorem orderly_lift_bind {r : Except Fault α} {f : α → Pass β} (hr : Harmless r)
    (hf : ∀ a, r = .ok a → Orderly s (f a) d es) : Orderly s (liftM r >>= f) d es :=
  orderly_bind_of_keeps (.of_lift hr) (.of_lift r) fun a d' h => by
    obtain ⟨hok, rfl⟩ := succeeds_lift.1 h
    exact hf a hok

theorem orderly_startOf_bind {n : Node} {f : Nat → Pass β} (hf : Orderly s (f (s.startAt n)) d es) :
    Orderly s (liftM (s.startOf n) >>= f) d es :=
  orderly_lift_bind (harmless_startOf s n) fun a ha => by
    rw [Script.startOf_eq ha]
    exact hf

theorem orderly_stopOf_bind {n : Node} {f : Nat → Pass β} (hf : Orderly s (f (s.stopAt n)) d es) :
    Orderly s (liftM (s.stopOf n) >>= f) d es :=
  orderly_lift_bind (harmless_stopOf s n) fun a ha => by
    rw [Script.stopOf_eq ha]
    exact hf

theorem orderly_deleteNode (n : Node) :
    Orderly s (Pass.deleteNode s n) d [.delete (s.startAt n) (s.stopAt n)] :=
  orderly_startOf_bind (orderly_stopOf_bind (orderly_edit (.delete _ _)))

theorem orderly_replaceNode (n : Node) (text : Text) :
    Orderly s (Pass.replaceNode s n text) d [.replace (s.startAt n) (s.stopAt n) text] :=
  orderly_startOf_bind (orderly_stopOf_bind (orderly_edit (.replace _ _ text)))

/-! ## Imports -/

theorem peaceful_recordFor (specifier : Text) : Peaceful (Pass.recordFor names specifier) :=
  fun _ _ _ h => nomatch (Prod.mk.inj h).1

theorem peaceful_bindClauses (specifier : Text) (clauses : List Node) :
    Peaceful (clauses.forM fun clause =>
      clause.namedChildren.forM (bindPart s names specifier)) :=
  composes_peaceful.bindClauses (fun _ _ => .of_modify _) clauses

theorem orderly_collectImport (n : Node) :
    Orderly s (collectImport s names n) d [.delete (s.startAt n) (s.stopAt n)] := by
  have hbehind : ∀ specifier d, Orderly s (do
      let _ ← Pass.recordFor names specifier
      (n.namedChildren.filter fun c => c.kind = .importClause).forM fun clause =>
        clause.namedChildren.forM (bindPart s names specifier)
      Pass.deleteNode s n) d [.delete (s.startAt n) (s.stopAt n)] := by
    intro specifier d
    refine orderly_bind_of_keeps (peaceful_recordFor specifier) (keepsText_recordFor names specifier)
      fun _ d' _ => orderly_bind_of_keeps (peaceful_bindClauses specifier _)
        (keepsText_bindClauses specifier _) fun _ d' _ => orderly_deleteNode n
  unfold collectImport
  cases n.source? with
  | none =>
    exact orderly_bind_of_keeps (.of_throw rfl) (.of_throw _) fun specifier d' _ =>
      hbehind specifier d'
  | some source =>
    exact orderly_lift_bind (harmless_stringValue s source) fun specifier _ => hbehind specifier d

theorem orderly_collectImports : Orderly s (collectImports s names) d
    ((s.statements.filter fun n => n.kind = .importStatement).flatMap fun n =>
      [.delete (s.startAt n) (s.stopAt n)]) :=
  orderly_forM (fun n _ _ => orderly_collectImport n) fun _ _ _ _ h => collectImport_log h

/-! ## Exports -/

theorem peaceful_queue (exported expression : Text) : Peaceful (Pass.queue exported expression) :=
  .of_modify _

theorem peaceful_queueLocal (exported name : Text) : Peaceful (do
    Pass.queue exported (((← get).imports.expression? name).getD name)) :=
  .of_bind .of_get fun _ => peaceful_queue _ _

theorem peaceful_registerClause (recordId : Option Text) (clause : Node) :
    Peaceful (registerClause s recordId clause) :=
  composes_peaceful.registerClause peaceful_queue peaceful_queueLocal recordId clause

theorem peaceful_registerForwarded (n source : Node) :
    Peaceful (registerForwarded s names n source) :=
  composes_peaceful.registerForwarded peaceful_queue peaceful_queueLocal peaceful_recordFor
    (fun _ _ => .of_modify _) n source

theorem orderly_assignDefault {target : Node} {start : Nat} {text : Text} :
    Orderly s (do
      let stop ← liftM (s.startOf target)
      Pass.edit (Overlay.replace start stop text)
      modify fun draft => { draft with exportNames := draft.exportNames ++ [("default" : Text)] } :
        Pass PUnit) d [.replace start (s.startAt target) text] :=
  orderly_startOf_bind (orderly_bind_last (orderly_edit (.replace _ _ text)) fun _ => .of_modify _)

theorem orderly_registerDefault {n : Node} (hd : (n.childOfKind? .defaultKeyword).isSome = true) :
    Orderly s (registerDefault s names n (s.exportStart n)) d (exportEdits s names n) := by
  refine orderly_lift_bind (harmless_demand _) fun target htarget => ?_
  have hdefault : n.defaultTarget? = some target := demand_eq_ok htarget
  rw [exportEdits, if_pos hd, hdefault]
  by_cases hk : target.kind.mayBeNamedDefault = true
  · rw [if_pos hk]
    cases hc : target.child? .name with
    | some name =>
      have hkeeps : target.keepsName = true := by rw [Node.keepsName, hk, hc]; rfl
      simp only [hkeeps, if_true]
      exact orderly_startOf_bind (orderly_bind_last (orderly_edit (.delete _ _)) fun _ =>
        .of_bind (.of_lift (harmless_textOf s name)) fun _ => peaceful_queue _ _)
    | none =>
      have hkeeps : target.keepsName = false := by rw [Node.keepsName, hk, hc]; rfl
      simp only [hkeeps, Bool.false_eq_true, if_false]
      exact orderly_assignDefault
  · rw [if_neg hk]
    rw [Bool.not_eq_true] at hk
    simp only [Node.keepsName, hk, Bool.false_and, Bool.false_eq_true, if_false]
    exact orderly_assignDefault

theorem orderly_registerDeclaration {declaration : Node} {start : Nat} :
    Orderly s (registerDeclaration s declaration start) d
      [.delete start (s.startAt declaration)] :=
  orderly_lift_bind (harmless_declaredNames s declaration) fun bound _ =>
    orderly_bind_of_keeps (composes_peaceful.forM (fun name => peaceful_queue name name) bound)
      (composes_keepsText.forM (fun name => keepsText_queue name name) bound) fun _ _ _ =>
        orderly_startOf_bind (orderly_edit (.delete _ _))

theorem orderly_registerNamed (n : Node) :
    Orderly s (registerNamed s names n) d [.delete (s.startAt n) (s.stopAt n)] := by
  unfold registerNamed
  cases n.source? with
  | some source =>
    exact orderly_bind_of_keeps (peaceful_registerForwarded n source)
      (keepsText_registerForwarded n source) fun _ _ _ => orderly_deleteNode n
  | none =>
    cases hc : n.namedChildOfKind? .exportClause with
    | none =>
      exact orderly_bind_of_keeps (.of_pure _) (.of_pure _) fun _ _ _ => orderly_deleteNode n
    | some clause =>
      exact orderly_bind_of_keeps (peaceful_registerClause none clause)
        (keepsText_registerClause none clause) fun _ _ _ => orderly_deleteNode n

theorem orderly_registerExport (n : Node) :
    Orderly s (registerExport s names n) d (exportEdits s names n) := by
  refine orderly_startOf_bind ?_
  by_cases hd : (n.childOfKind? .defaultKeyword).isSome = true
  · rw [if_pos hd]
    exact orderly_registerDefault hd
  · rw [if_neg hd, exportEdits, if_neg hd]
    cases n.child? .declaration with
    | some declaration => exact orderly_registerDeclaration
    | none => exact orderly_registerNamed n

theorem orderly_registerExports : Orderly s (registerExports s names) d
    ((s.statements.filter fun n => n.kind = .exportStatement).flatMap (exportEdits s names)) :=
  orderly_forM (fun n _ _ => orderly_registerExport n) fun _ _ _ _ h => registerExport_log h

/-! ## Dynamic imports -/

theorem orderly_redirectImport (call : Node) :
    Orderly s (redirectImport s names call) d (redirectEdits s names call) := by
  have hskip : ∀ es, Orderly s (do let _ ← s.textOf call : Pass Unit) d es := fun es =>
    Peaceful.orderly (.of_bind (.of_lift (harmless_textOf s call)) fun _ => .of_pure _)
  unfold redirectImport redirectEdits
  cases call.child? .function with
  | none => exact hskip _
  | some callee =>
    rcases call.callArguments with _ | ⟨argument, _ | ⟨second, rest⟩⟩
    · exact hskip _
    · by_cases hk : argument.kind = .string
      · simp only [if_pos hk]
        refine orderly_lift_bind (harmless_stringValue s argument) fun specifier hv => ?_
        have hat : s.stringAt argument = specifier := by rw [Script.stringAt, hv]; rfl
        simp only [hat, hk, decide_true, Bool.true_and]
        by_cases hr : isRelative specifier = true
        · rw [if_pos hr, if_pos hr]
          have hcallee := @orderly_replaceNode s d callee names.dynamicImportHelper
          exact orderly_bind hcallee fun _ d₁ h₁ => ⟨(succeeds_replaceNode h₁).1,
            orderly_bind_last (orderly_replaceNode argument _) fun _ => .of_modify _⟩
        · rw [if_neg hr]
          exact (Peaceful.of_pure _).orderly
      · simp only [if_neg hk]
        exact hskip _
    · exact hskip _

theorem orderly_redirectImports : Orderly s (redirectImports s names) d
    (s.dynamicImports.flatMap (redirectEdits s names)) := by
  rw [Script.dynamicImports, List.flatMap_assoc]
  refine orderly_bind_last (orderly_forM (fun statement _ d => ?_) fun statement _ d d' h => ?_)
    fun _ => .of_bind .of_get fun _ => .of_pure _
  · exact orderly_forM (fun call _ _ => orderly_redirectImport call)
      fun _ _ _ _ h => (redirectImport_log h).1
  · exact becomes_of_forM (fun _ _ _ _ h => (redirectImport_log h).1) h

/-! ## References -/

section References

variable {v : Visit} {name expression : Text}

theorem orderly_expandShorthand (n : Node) (expression : Text) :
    Orderly s (expandShorthand s n expression) d
      [.insertAfter (s.stopAt n) (": " ++ expression)] :=
  orderly_stopOf_bind (orderly_edit (.insertAfter _ _))

theorem orderly_declareConstant (statement : Node) :
    Orderly s (declareConstant s statement name expression) d
      (if d.helperConstants.contains name then []
        else [.insertBefore (s.startAt statement) (Script.constantText name expression)]) := by
  refine orderly_bind_of_keeps .of_get .of_get fun d₂ d₁ hget => ?_
  obtain ⟨rfl, rfl⟩ := succeeds_get.1 hget
  by_cases hin : d₁.helperConstants.contains name = true
  · rw [if_pos hin]
    exact (Peaceful.of_pure _).orderly
  · rw [if_neg hin, if_neg hin]
    have hdeclared : ∀ f, Orderly s (modify f : Pass PUnit) d₁ [] := fun f =>
      (Peaceful.of_modify f).orderly
    refine orderly_bind (hdeclared _) fun _ d₃ hmodify => ⟨?_, ?_⟩
    · rw [succeeds_modify.1 hmodify]
      exact Overlay.takes_nil
    · exact orderly_startOf_bind (orderly_edit (.insertBefore _ _))

theorem orderly_rebind
    (hr : s.rebinding? d.imports v.trail v.node = Script.rebindingTo? v.trail v.node name expression) :
    Orderly s (rebind s v.statement v.node v.trail.place v.trail.nodes name expression) d
      (s.visitEdits d.imports d.helperConstants v) := by
  rw [Script.visitEdits, hr]
  unfold rebind Script.rebindingTo?
  by_cases hshorthand : v.node.kind = .shorthandPropertyIdentifier
  · simp only [hshorthand]
    exact orderly_bind_last (orderly_expandShorthand _ _) fun _ => .of_pure _
  by_cases hpattern : v.node.kind = .shorthandPropertyIdentifierPattern
  · simp only [hpattern]
    by_cases hassigned : inAssignedPattern v.trail.nodes = true
    · simp only [hassigned, if_true]
      exact orderly_bind_last (orderly_expandShorthand _ _) fun _ => .of_pure _
    · simp only [hassigned, if_false, Bool.false_eq_true]
      exact (Peaceful.of_pure _).orderly
  by_cases hdeclares : declaresName v.trail.place v.trail.nodes = true
  · simp only [hdeclares, if_true]
    exact (Peaceful.of_pure _).orderly
  by_cases hsuper : (isSuperclass v.trail.place v.trail.nodes && !expression.isNameLine) = true
  · simp only [hdeclares, hsuper, if_true, if_false, Bool.false_eq_true]
    exact orderly_bind_last (orderly_declareConstant _) fun _ => .of_pure _
  · simp only [hdeclares, hsuper, if_false, Bool.false_eq_true]
    exact orderly_bind_last (orderly_replaceNode _ _) fun _ => .of_pure _

theorem orderly_visitNode {around : Surroundings} (ha : s.Surrounds around v.trail) :
    Orderly s (visitNode s v.statement around v.trail.place v.node) d
      (s.visitEdits d.imports d.helperConstants v) := by
  unfold visitNode
  by_cases hname : v.node.kind.isNameUse = true
  · simp only [hname, Bool.not_true, Bool.false_eq_true, if_false]
    refine orderly_lift_bind (harmless_textOf s v.node) fun name htext => ?_
    obtain rfl := Script.textOf_eq htext
    refine orderly_bind_of_keeps .of_get .of_get fun d₂ d₁ hget => ?_
    obtain ⟨rfl, rfl⟩ := succeeds_get.1 hget
    cases hbinding : d₁.imports.get? (s.textAt v.node) with
    | none => exact (Peaceful.of_pure _).orderly
    | some binding =>
      simp only [ha.scopes]
      by_cases hhides : s.hides v.trail (s.textAt v.node) = true
      · rw [if_pos hhides]
        exact (Peaceful.of_pure _).orderly
      · rw [if_neg hhides, ha.ancestors]
        refine orderly_rebind ?_
        rw [Script.rebinding?, hname, hbinding]
        simp only [hhides, Bool.not_true, Bool.false_eq_true, if_false]
  · simp only [hname, Bool.not_false, if_true]
    exact (Peaceful.of_pure _).orderly

end References

theorem orderly_bind_rebinds {x : Pass α} {f : α → Pass β} {vs ws : List Visit}
    (hx : Orderly s x d (s.rebindEdits d.imports d.helperConstants vs))
    (hlog : ∀ a d', Succeeds x d a d' → ∃ k, Rebinds s d vs k d')
    (hf : ∀ a d', Succeeds x d a d' →
      Orderly s (f a) d' (s.rebindEdits d'.imports d'.helperConstants ws)) :
    Orderly s (x >>= f) d (s.rebindEdits d.imports d.helperConstants (vs ++ ws)) := by
  rw [Script.rebindEdits_append]
  refine orderly_bind hx fun a d' h => ?_
  obtain ⟨k, hr⟩ := hlog a d' h
  refine ⟨hr.takes, ?_⟩
  rw [← hr.constants, ← hr.imports]
  exact hf a d' h

theorem orderly_walkAmong {statement parent : Node} {ns : List Node} {around : Surroundings}
    {trail : Trail} {count first : Nat}
    (ih : ∀ n ∈ ns, ∀ first count d, Orderly s (walkReferences s statement around count first n) d
      (s.rebindEdits d.imports d.helperConstants (visitsIn statement ((parent, first) :: trail) n)))
    (hlog : ∀ n ∈ ns, ∀ first count d k d',
      Succeeds (walkReferences s statement around count first n) d k d' →
        ∃ r, k = count + r ∧ Rebinds s d (visitsIn statement ((parent, first) :: trail) n) r d') :
    Orderly s (walkAmong (visitNode s statement) (fun n => liftM (s.scopeNames n)) around count first
      ns) d (s.rebindEdits d.imports d.helperConstants (visitsAmong statement parent trail first ns)) := by
  induction ns generalizing count first d with
  | nil =>
    rw [walkAmong]
    exact (Peaceful.of_pure _).orderly
  | cons n ns ihs =>
    rw [visitsAmong, walkAmong]
    have hrest : ∀ {d count first}, _ := fun {d count first} => @ihs d count first
      (fun c hc => ih c (List.mem_cons_of_mem n hc))
      (fun c hc => hlog c (List.mem_cons_of_mem n hc))
    by_cases hn : (n.isNamed && !n.kind.isSkipped) = true
    · rw [if_pos hn, if_pos hn]
      refine orderly_bind_rebinds (ih n List.mem_cons_self first count d) (fun k d' h => ?_)
        fun _ _ _ => hrest
      obtain ⟨r, -, hr⟩ := hlog n List.mem_cons_self first count d k d' h
      exact ⟨r, hr⟩
    · rw [if_neg hn, if_neg hn]
      exact hrest

theorem orderly_walkNode {statement n : Node} {around : Surroundings} {trail : Trail}
    {count index : Nat} (ha : s.Surrounds around trail) (hi : index = trail.place) :
    Orderly s (walkReferences s statement around count index n) d
      (s.rebindEdits d.imports d.helperConstants (visitsIn statement trail n)) := by
  induction n using Node.induct generalizing around trail count index d with
  | step n ih =>
    subst hi
    rw [visitsIn_eq, ← List.singleton_append, walkReferences, walkNode_eq]
    have hvisit : Orderly s (visitNode s statement around trail.place n) d
        (s.rebindEdits d.imports d.helperConstants [⟨statement, trail, n⟩]) := by
      rw [Script.rebindEdits, Script.rebindEdits, List.append_nil]
      exact orderly_visitNode (v := ⟨statement, trail, n⟩) ha
    refine orderly_bind_rebinds hvisit (fun _ d' h =>
      ⟨_, visitNode_log (v := ⟨statement, trail, n⟩) ha h⟩) fun isReference d₁ _ => ?_
    by_cases hw : n.walkedChildren.isEmpty = true
    · rw [if_pos hw]
      exact (Peaceful.of_pure _).orderly
    · rw [if_neg hw]
      refine orderly_lift_bind (harmless_scopeNames s n) fun names hnames => orderly_walkAmong ?_ ?_
      · exact fun c hc first count d => ih c hc (ha.inside first hnames) rfl
      · exact fun c hc first count d k d' hs => walkNode_log (ha.inside first hnames) rfl hs

theorem orderly_rebindStatement {statement : Node} {count : Nat} :
    Orderly s (rebindStatement s count statement) d
      (s.rebindEdits d.imports d.helperConstants (statementVisits statement)) := by
  have hparts : ∀ ps : List (Nat × Node × List Node), (∀ p ∈ ps, p ∈ walkedParts statement) →
      ∀ {d : Draft} {count : Nat},
      Orderly s (ps.foldlM (rebindPart s statement) count) d
        (s.rebindEdits d.imports d.helperConstants (ps.flatMap (partVisits statement))) := by
    intro ps hps d count
    induction ps generalizing d count with
    | nil => exact (Peaceful.of_pure _).orderly
    | cons p ps ih =>
      obtain ⟨ha, hi⟩ := surrounds_part (s := s) (hps p List.mem_cons_self)
      rw [List.flatMap_cons, List.foldlM_cons]
      refine orderly_bind_rebinds (orderly_walkNode ha hi) (fun k d' h => ?_) fun k d₁ h₁ => ?_
      · obtain ⟨r, -, hr⟩ := walkNode_log ha hi h
        exact ⟨r, hr⟩
      · exact ih fun q hq => hps q (List.mem_cons_of_mem p hq)
  rw [rebindStatement_eq]
  exact hparts (walkedParts statement) fun _ hp => hp

theorem orderly_rebindStatements {statements : List Node} {count : Nat} :
    Orderly s (statements.foldlM (rebindStatement s) count) d
      (s.rebindEdits d.imports d.helperConstants (statements.flatMap statementVisits)) := by
  induction statements generalizing d count with
  | nil => exact (Peaceful.of_pure _).orderly
  | cons statement statements ih =>
    rw [List.flatMap_cons, List.foldlM_cons]
    refine orderly_bind_rebinds orderly_rebindStatement (fun k d' h => ?_) fun _ _ _ => ih
    obtain ⟨r, -, hr⟩ := rebindStatement_log h
    exact ⟨r, hr⟩

theorem orderly_rebindReferences : Orderly s (rebindReferences s) d
    (s.rebindEdits d.imports d.helperConstants s.visits) := by
  refine orderly_bind_of_keeps .of_get .of_get fun d₂ d₁ hget => ?_
  obtain ⟨rfl, rfl⟩ := succeeds_get.1 hget
  by_cases hempty : d₁.imports.bindings.isEmpty = true
  · rw [if_pos hempty]
    exact (Peaceful.of_pure _).orderly
  · rw [if_neg hempty]
    exact orderly_rebindStatements

end RegistryScript
