import Mathlib
import RegistryScript.Pass.DynamicImports
import RegistryScript.Proofs.Pass.Composition

/-! # The edits of the passes over statements

When a pass completes, the edits it has made are told by the tree alone.

* `collectImports_log`: import statements are deleted.
* `exportEdits`, `registerExports_log`: what stands in front of an exported value is deleted or
  becomes an assignment, other export statements are deleted.
* `redirectEdits`, `redirectImports_log`: callee and argument of a redirected call are replaced.
* `Redirection`, `redirectImports_redirects`: each redirected call is counted, and nothing else is
  changed.
-/

namespace RegistryScript
set_option autoImplicit false

variable {s : Script} {names : Settings} {d d' : Draft}

/-! ## Imports -/

theorem composes_keepsText : Composes @KeepsText :=
  ⟨.of_pure, fun _ => .of_lift _, .of_bind⟩

theorem keepsText_bindClauses (specifier : Text) (clauses : List Node) :
    KeepsText (clauses.forM fun clause =>
      clause.namedChildren.forM (bindPart s names specifier)) :=
  composes_keepsText.bindClauses (fun _ _ => keepsText_bind _ _ _ _) clauses

/-- An import statement is collected only if it names a module by a string that can be read. -/
theorem succeeds_collectImport {n : Node} {u : Unit}
    (h : Succeeds (collectImport s names n) d u d') :
    ∃ source specifier id d₁ d₂, n.source? = some source ∧ s.stringValue source = .ok specifier ∧
      Succeeds (Pass.recordFor names specifier) d id d₁ ∧
      Succeeds ((n.namedChildren.filter fun c => c.kind = .importClause).forM fun clause =>
        clause.namedChildren.forM (bindPart s names specifier)) d₁ () d₂ ∧
      Succeeds (Pass.deleteNode s n) d₂ u d' := by
  unfold collectImport at h
  cases hs : n.source? with
  | none =>
    rw [hs] at h
    obtain ⟨_, _, h₁, -⟩ := succeeds_bind.1 h
    exact absurd h₁ not_succeeds_throw
  | some source =>
    rw [hs] at h
    obtain ⟨specifier, d₁, h₁, h₂⟩ := succeeds_bind.1 h
    obtain ⟨hspecifier, rfl⟩ := succeeds_lift.1 h₁
    obtain ⟨id, d₂, h₃, h₄⟩ := succeeds_bind.1 h₂
    obtain ⟨_, d₃, h₅, h₆⟩ := succeeds_bind.1 h₄
    exact ⟨source, specifier, id, d₂, d₃, rfl, hspecifier, h₃, h₅, h₆⟩

theorem collectImport_log {n : Node} {u : Unit} (h : Succeeds (collectImport s names n) d u d') :
    d.Becomes [.delete (s.startAt n) (s.stopAt n)] d' := by
  obtain ⟨_, specifier, _, d₁, d₂, -, -, hrecord, hbind, hdelete⟩ := succeeds_collectImport h
  exact ((keepsText_recordFor names specifier).becomes hrecord).trans
    (((keepsText_bindClauses specifier _).becomes hbind).trans
      (.of_edit (succeeds_deleteNode hdelete)))

theorem collectImports_log {u : Unit} (h : Succeeds (collectImports s names) d u d') :
    d.Becomes ((s.statements.filter fun n => n.kind = .importStatement).flatMap fun n =>
      [.delete (s.startAt n) (s.stopAt n)]) d' :=
  becomes_of_forM (fun _ _ _ _ hn => collectImport_log hn) h

/-! ## Exports -/

def Node.defaultTarget? (n : Node) : Option Node := (n.child? .declaration).or (n.child? .value)

def Node.keepsName (target : Node) : Bool :=
  target.kind.mayBeNamedDefault && (target.child? .name).isSome

/-- Where the part of an export statement that is not exported itself starts. -/
def Script.exportStart (s : Script) (n : Node) : Nat :=
  s.startAt ((n.childOfKind? .exportKeyword).getD n)

def exportEdits (s : Script) (names : Settings) (n : Node) : List Edit :=
  if (n.childOfKind? .defaultKeyword).isSome then
    match n.defaultTarget? with
    | none => []
    | some target =>
      if target.keepsName then [.delete (s.exportStart n) (s.startAt target)]
      else
        [.replace (s.exportStart n) (s.startAt target) (names.moduleBinding ++ ".default = ")]
  else
    match n.child? .declaration with
    | some declaration => [.delete (s.exportStart n) (s.startAt declaration)]
    | none => [.delete (s.startAt n) (s.stopAt n)]

theorem keepsText_queueLocal (exported name : Text) : KeepsText (do
    Pass.queue exported (((← get).imports.expression? name).getD name)) :=
  .of_bind .of_get fun _ => keepsText_queue _ _

theorem keepsText_registerClause (recordId : Option Text) (clause : Node) :
    KeepsText (registerClause s recordId clause) :=
  composes_keepsText.registerClause keepsText_queue keepsText_queueLocal recordId clause

theorem keepsText_registerForwarded (n source : Node) :
    KeepsText (registerForwarded s names n source) :=
  composes_keepsText.registerForwarded keepsText_queue keepsText_queueLocal
    (keepsText_recordFor names) (fun _ _ => .of_modify fun _ => ⟨rfl, rfl⟩) n source

theorem demand_eq_ok {n? : Option Node} {n : Node} (h : Pass.demand n? = .ok n) : n? = some n := by
  cases n? with
  | none => exact nomatch h
  | some m => rw [Except.ok.inj h]

theorem assignDefault_log {target : Node} {start : Nat} {text : Text} {u : PUnit}
    (h : Succeeds (do
      let stop ← liftM (s.startOf target)
      Pass.edit (Overlay.replace start stop text)
      modify fun draft => { draft with exportNames := draft.exportNames ++ [("default" : Text)] } :
        Pass PUnit) d u d') :
    d.Becomes [.replace start (s.startAt target) text] d' := by
  obtain ⟨stop, d₁, h₁, h₂⟩ := succeeds_bind.1 h
  obtain ⟨rfl, rfl⟩ := succeeds_startOf h₁
  obtain ⟨_, d₂, h₃, h₄⟩ := succeeds_bind.1 h₂
  obtain rfl := succeeds_modify.1 h₄
  obtain ⟨ht, hd⟩ := succeeds_edit (.replace _ _ _) h₃
  exact ⟨ht, by rw [hd]⟩

theorem registerDefault_log {n : Node} {u : Unit}
    (hd : (n.childOfKind? .defaultKeyword).isSome = true)
    (h : Succeeds (registerDefault s names n (s.exportStart n)) d u d') :
    d.Becomes (exportEdits s names n) d' := by
  obtain ⟨target, d₁, h₁, h₂⟩ := succeeds_bind.1 h
  obtain ⟨ht, rfl⟩ := succeeds_lift.1 h₁
  have htarget : n.defaultTarget? = some target := demand_eq_ok ht
  rw [exportEdits, if_pos hd, htarget]
  by_cases hk : target.kind.mayBeNamedDefault = true
  · rw [if_pos hk] at h₂
    cases hc : target.child? .name with
    | some name =>
      have hkeeps : target.keepsName = true := by rw [Node.keepsName, hk, hc]; rfl
      rw [hc] at h₂
      obtain ⟨stop, d₂, h₃, h₄⟩ := succeeds_bind.1 h₂
      obtain ⟨rfl, rfl⟩ := succeeds_startOf h₃
      obtain ⟨_, d₃, h₅, h₆⟩ := succeeds_bind.1 h₄
      have hqueue := KeepsText.becomes (.of_bind (.of_lift _) fun _ => keepsText_queue _ _) h₆
      simp only [hkeeps, if_true]
      exact (Draft.Becomes.of_edit (succeeds_edit (.delete _ _) h₅)).trans hqueue
    | none =>
      have hkeeps : target.keepsName = false := by rw [Node.keepsName, hk, hc]; rfl
      rw [hc] at h₂
      simp only [hkeeps, Bool.false_eq_true, if_false]
      exact assignDefault_log h₂
  · rw [if_neg hk] at h₂
    rw [Bool.not_eq_true] at hk
    simp only [Node.keepsName, hk, Bool.false_and, Bool.false_eq_true, if_false]
    exact assignDefault_log h₂

theorem registerDeclaration_log {declaration : Node} {start : Nat} {u : Unit}
    (h : Succeeds (registerDeclaration s declaration start) d u d') :
    d.Becomes [.delete start (s.startAt declaration)] d' := by
  obtain ⟨bound, d₁, h₁, h₂⟩ := succeeds_bind.1 h
  obtain ⟨_, d₂, h₃, h₄⟩ := succeeds_bind.1 h₂
  obtain ⟨stop, d₃, h₅, h₆⟩ := succeeds_bind.1 h₄
  obtain ⟨rfl, rfl⟩ := succeeds_startOf h₅
  have hnames := (KeepsText.of_lift _).becomes h₁
  have hqueue := (composes_keepsText.forM (fun name => keepsText_queue name name) bound).becomes h₃
  exact hnames.trans (hqueue.trans (.of_edit (succeeds_edit (.delete _ _) h₆)))

theorem registerNamed_log {n : Node} {u : Unit} (h : Succeeds (registerNamed s names n) d u d') :
    d.Becomes [.delete (s.startAt n) (s.stopAt n)] d' := by
  unfold registerNamed at h
  cases hs : n.source? with
  | some source =>
    rw [hs] at h
    obtain ⟨_, d₁, h₁, h₂⟩ := succeeds_bind.1 h
    exact ((keepsText_registerForwarded n source).becomes h₁).trans
      (.of_edit (succeeds_deleteNode h₂))
  | none =>
    rw [hs] at h
    obtain ⟨_, d₁, h₁, h₂⟩ := succeeds_bind.1 h
    have hclause : KeepsText ((n.namedChildOfKind? .exportClause).forM (registerClause s none)) := by
      cases n.namedChildOfKind? .exportClause with
      | none => exact .of_pure _
      | some clause => exact keepsText_registerClause none clause
    exact (hclause.becomes h₁).trans (.of_edit (succeeds_deleteNode h₂))

theorem registerExport_log {n : Node} {u : Unit} (h : Succeeds (registerExport s names n) d u d') :
    d.Becomes (exportEdits s names n) d' := by
  obtain ⟨start, d₁, h₁, h₂⟩ := succeeds_bind.1 h
  obtain ⟨rfl, rfl⟩ := succeeds_startOf h₁
  by_cases hd : (n.childOfKind? .defaultKeyword).isSome = true
  · rw [if_pos hd] at h₂
    exact registerDefault_log hd h₂
  · rw [if_neg hd] at h₂
    rw [exportEdits, if_neg hd]
    cases hc : n.child? .declaration with
    | some declaration =>
      rw [hc] at h₂
      exact registerDeclaration_log h₂
    | none =>
      rw [hc] at h₂
      exact registerNamed_log h₂

theorem registerExports_log {u : Unit} (h : Succeeds (registerExports s names) d u d') :
    d.Becomes ((s.statements.filter fun n => n.kind = .exportStatement).flatMap
      (exportEdits s names)) d' :=
  becomes_of_forM (fun _ _ _ _ hn => registerExport_log hn) h

/-! ## Dynamic imports -/

def Script.stringAt (s : Script) (literal : Node) : Text := (s.stringValue literal).toOption.getD []

def redirectEdits (s : Script) (names : Settings) (call : Node) : List Edit :=
  match call.child? .function, call.callArguments with
  | some callee, [argument] =>
    if argument.kind = .string && isRelative (s.stringAt argument) then
      [.replace (s.startAt callee) (s.stopAt callee) names.dynamicImportHelper,
        .replace (s.startAt argument) (s.stopAt argument) (registryKey (s.stringAt argument)).quote]
    else []
  | _, _ => []

structure Redirection where
  callee : Node
  argument : Node
  specifier : Text
deriving Repr

def Script.redirection? (s : Script) (call : Node) : Option Redirection :=
  match call.child? .function, call.callArguments with
  | some callee, [argument] =>
    if argument.kind = .string && isRelative (s.stringAt argument) then
      some ⟨callee, argument, s.stringAt argument⟩
    else none
  | _, _ => none

def Redirection.edits (s : Script) (names : Settings) (r : Redirection) : List Edit :=
  [.replace (s.startAt r.callee) (s.stopAt r.callee) names.dynamicImportHelper,
    .replace (s.startAt r.argument) (s.stopAt r.argument) (registryKey r.specifier).quote]

theorem redirectEdits_eq (call : Node) :
    redirectEdits s names call = (s.redirection? call).toList.flatMap (Redirection.edits s names) := by
  unfold redirectEdits Script.redirection?
  split
  · split
    · rfl
    · rfl
  · rfl

/-- A draft becomes another by redirections: their edits are accepted, each of them is counted, and
nothing else is changed. -/
structure Draft.Redirects (s : Script) (names : Settings) (d : Draft) (rs : List Redirection)
    (d' : Draft) : Prop where
  takes : d.overlay.Takes (rs.flatMap (Redirection.edits s names)) d'.overlay
  frame : d' =
    { d with overlay := d'.overlay, dynamicImports := d.dynamicImports + rs.length }
  spans : ∀ r ∈ rs, s.HasSpan r.callee ∧ s.HasSpan r.argument

namespace Draft.Redirects

variable {d'' : Draft} {rs rs' : List Redirection}

theorem refl : d.Redirects s names [] d :=
  ⟨Overlay.takes_nil, rfl, fun _ hr => absurd hr List.not_mem_nil⟩

theorem trans (h : d.Redirects s names rs d') (h' : d'.Redirects s names rs' d'') :
    d.Redirects s names (rs ++ rs') d'' where
  takes := by
    rw [List.flatMap_append]
    exact h.takes.append h'.takes
  frame := by
    rw [h'.frame, h.frame, List.length_append, Nat.add_assoc]
  spans r hr := (List.mem_append.1 hr).elim (h.spans r) (h'.spans r)

theorem becomes (h : d.Redirects s names rs d') :
    d.Becomes (rs.flatMap (Redirection.edits s names)) d' ∧ d'.imports = d.imports :=
  ⟨⟨h.takes, by rw [h.frame]⟩, by rw [h.frame]⟩

theorem of_forM {α : Type} {f : α → Pass PUnit} {g : α → List Redirection} {xs : List α}
    {u : PUnit} (hf : ∀ x ∈ xs, ∀ d d', Succeeds (f x) d () d' → d.Redirects s names (g x) d')
    (h : Succeeds (xs.forM f) d u d') : d.Redirects s names (xs.flatMap g) d' := by
  induction xs generalizing d with
  | nil =>
    obtain ⟨-, rfl⟩ := succeeds_pure.1 h
    exact .refl
  | cons x xs ih =>
    obtain ⟨d₁, h1, h2⟩ := succeeds_forM_cons h
    exact (hf x List.mem_cons_self d d₁ h1).trans
      (ih (fun y hy => hf y (List.mem_cons_of_mem x hy)) h2)

end Draft.Redirects

theorem redirectImport_redirects {call : Node} {u : Unit}
    (h : Succeeds (redirectImport s names call) d u d') :
    d.Redirects s names (s.redirection? call).toList d' := by
  unfold redirectImport at h
  unfold Script.redirection?
  have hskip : ∀ u, Succeeds (do let _ ← s.textOf call : Pass Unit) d u d' →
      d.Redirects s names [] d' := by
    intro u h
    obtain ⟨_, d₁, h₁, h₂⟩ := succeeds_bind.1 h
    obtain ⟨-, rfl⟩ := succeeds_lift.1 h₁
    obtain ⟨-, rfl⟩ := succeeds_pure.1 h₂
    exact .refl
  cases hf : call.child? .function with
  | none =>
    rw [hf] at h
    exact hskip u h
  | some callee =>
    rw [hf] at h
    rcases ha : call.callArguments with _ | ⟨argument, _ | ⟨second, rest⟩⟩
    · rw [ha] at h
      exact hskip u h
    · rw [ha] at h
      by_cases hk : argument.kind = .string
      · simp only [if_pos hk] at h
        obtain ⟨specifier, d₁, h₁, h₂⟩ := succeeds_bind.1 h
        obtain ⟨hv, rfl⟩ := succeeds_lift.1 h₁
        have hat : s.stringAt argument = specifier := by rw [Script.stringAt, hv]; rfl
        simp only [hat, hk, decide_true, Bool.true_and]
        by_cases hr : isRelative specifier = true
        · rw [if_pos hr] at h₂ ⊢
          obtain ⟨_, d₂, h₃, h₄⟩ := succeeds_bind.1 h₂
          obtain ⟨_, d₃, h₅, h₆⟩ := succeeds_bind.1 h₄
          obtain rfl := succeeds_modify.1 h₆
          obtain ⟨ht₂, hd₂⟩ := succeeds_replaceNode h₃
          obtain ⟨ht₃, hd₃⟩ := succeeds_replaceNode h₅
          refine ⟨ht₂.append ht₃, by rw [hd₃, hd₂]; rfl, fun r hr => ?_⟩
          rw [Option.toList_some, List.mem_singleton] at hr
          rw [hr]
          exact ⟨hasSpan_of_replaceNode h₃, hasSpan_of_replaceNode h₅⟩
        · rw [if_neg hr] at h₂ ⊢
          obtain ⟨-, rfl⟩ := succeeds_pure.1 h₂
          exact .refl
      · simp only [if_neg hk] at h
        simp only [hk, decide_false, Bool.false_and, Bool.false_eq_true, if_false]
        exact hskip u h
    · rw [ha] at h
      exact hskip u h

theorem redirectImport_log {call : Node} {u : Unit}
    (h : Succeeds (redirectImport s names call) d u d') :
    d.Becomes (redirectEdits s names call) d' ∧ d'.imports = d.imports := by
  rw [redirectEdits_eq]
  exact (redirectImport_redirects h).becomes

def Script.dynamicImports (s : Script) : List Node :=
  (s.statements.filter fun n => n.kind ≠ .importStatement).flatMap fun statement =>
    statement.descendants.filter Node.isDynamicImport

theorem redirectImports_redirects {k : Nat} (h : Succeeds (redirectImports s names) d k d') :
    d.Redirects s names (s.dynamicImports.filterMap s.redirection?) d' ∧ k = d'.dynamicImports := by
  obtain ⟨_, d₁, h₁, h₂⟩ := succeeds_bind.1 h
  obtain ⟨_, d₂, hget, h₃⟩ := succeeds_bind.1 h₂
  obtain ⟨rfl, rfl⟩ := succeeds_get.1 hget
  obtain ⟨rfl, rfl⟩ := succeeds_pure.1 h₃
  rw [List.filterMap_eq_flatMap_toList, Script.dynamicImports, List.flatMap_assoc]
  exact ⟨.of_forM (fun _ _ _ _ hstatement =>
    .of_forM (fun _ _ _ _ hcall => redirectImport_redirects hcall) hstatement) h₁, rfl⟩

theorem redirectImports_log {k : Nat} (h : Succeeds (redirectImports s names) d k d') :
    d.Becomes (s.dynamicImports.flatMap (redirectEdits s names)) d' ∧ d'.imports = d.imports := by
  have hedits : s.dynamicImports.flatMap (redirectEdits s names) =
      (s.dynamicImports.filterMap s.redirection?).flatMap (Redirection.edits s names) := by
    rw [List.filterMap_eq_flatMap_toList, List.flatMap_assoc]
    exact List.flatMap_congr fun call _ => redirectEdits_eq call
  rw [hedits]
  exact (redirectImports_redirects h).1.becomes

end RegistryScript
