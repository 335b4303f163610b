import Mathlib
import RegistryScript.Proofs.Pass.Log
import RegistryScript.Proofs.References.Walk

/-! # The edits that rebind references

* `Script.hides`: a scope around a node declares a name.
* `Rebinding`, `Script.rebinding?`: how the node of a visit is rebound, if it is.
* `Script.rebindEdits`: the edits of several visits one after another.
* `rebindReferences_log`: when the pass completes, it has made the edits of the script's visits.
-/

namespace RegistryScript
set_option autoImplicit false

/-! ## Scopes around a node -/

namespace Script

def namesIn (s : Script) (n : Node) : List Text := (s.scopeNames n).toOption.getD []

def hides (s : Script) (trail : Trail) (name : Text) : Bool :=
  trail.any fun e => (s.namesIn e.1).contains name

/-- What is around a node in a walk is what a trail tells. -/
structure Surrounds (s : Script) (around : Surroundings) (trail : Trail) : Prop where
  ancestors : around.ancestors = trail.nodes
  scopes : ∀ name, isShadowed around.scopes name = s.hides trail name

theorem Surrounds.inside {s : Script} {around : Surroundings} {trail : Trail}
    (h : s.Surrounds around trail) {n : Node} {names : List Text} (i : Nat)
    (hn : s.scopeNames n = .ok names) : s.Surrounds (around.inside n names) ((n, i) :: trail) where
  ancestors := by
    rw [Surroundings.inside, h.ancestors]
    rfl
  scopes := by
    intro name
    have hin : s.namesIn n = names := by
      rw [namesIn, hn]
      rfl
    rw [hides, List.any_cons, hin, ← hides, ← h.scopes, Surroundings.inside]
    cases names with
    | nil => rfl
    | cons x xs => rfl

end Script

/-! ## Rebinding one node -/

inductive Rebinding
  | replaced (expression : Text)
  /-- An expression stands behind it as the value of a property. -/
  | expanded (expression : Text)
  /-- It stays, and its name is declared as a constant in front of the statement. -/
  | declared (name expression : Text)
deriving DecidableEq, Repr

namespace Script

variable (s : Script) (imports : ImportTable)

def rebindingTo? (trail : Trail) (n : Node) (name expression : Text) : Option Rebinding :=
  match n.kind with
  | .shorthandPropertyIdentifier => some (.expanded expression)
  | .shorthandPropertyIdentifierPattern =>
    if inAssignedPattern trail.nodes then some (.expanded expression) else none
  | _ =>
    if declaresName trail.place trail.nodes then none
    else if isSuperclass trail.place trail.nodes && !expression.isNameLine then
      some (.declared name expression)
    else some (.replaced expression)

def rebinding? (trail : Trail) (n : Node) : Option Rebinding :=
  if !n.kind.isNameUse then none
  else
    match imports.get? (s.textAt n) with
    | none => none
    | some binding =>
      if s.hides trail (s.textAt n) then none
      else rebindingTo? trail n (s.textAt n) binding.expression

def constantText (name expression : Text) : Text := "const " ++ name ++ " = " ++ expression ++ ";\n"

/-- The edits of a visit, when constants for some names have been declared. -/
def visitEdits (constants : List Text) (v : Visit) : List Edit :=
  match s.rebinding? imports v.trail v.node with
  | none => []
  | some (.replaced expression) => [.replace (s.startAt v.node) (s.stopAt v.node) expression]
  | some (.expanded expression) => [.insertAfter (s.stopAt v.node) (": " ++ expression)]
  | some (.declared name expression) =>
    if constants.contains name then []
    else [.insertBefore (s.startAt v.statement) (constantText name expression)]

def visitConstants (constants : List Text) (v : Visit) : List Text :=
  match s.rebinding? imports v.trail v.node with
  | some (.declared name _) => if constants.contains name then constants else constants ++ [name]
  | _ => constants

def rebindEdits (constants : List Text) : List Visit → List Edit
  | [] => []
  | v :: vs =>
    s.visitEdits imports constants v ++ rebindEdits (s.visitConstants imports constants v) vs

def rebindConstants (constants : List Text) (vs : List Visit) : List Text :=
  vs.foldl (s.visitConstants imports) constants

def references (vs : List Visit) : Nat := vs.countP fun v => (s.rebinding? imports v.trail v.node).isSome

theorem rebindEdits_append (constants : List Text) (vs ws : List Visit) :
    s.rebindEdits imports constants (vs ++ ws) =
      s.rebindEdits imports constants vs ++
        s.rebindEdits imports (s.rebindConstants imports constants vs) ws := by
  induction vs generalizing constants with
  | nil => rfl
  | cons v vs ih =>
    rw [List.cons_append, rebindEdits, ih, rebindEdits, List.append_assoc]
    rfl

end Script

/-! ## Visits one after another -/

/-- A draft becomes another by the edits of visits, and so many references are counted. -/
structure Rebinds (s : Script) (d : Draft) (vs : List Visit) (count : Nat) (d' : Draft) : Prop where
  takes : d.overlay.Takes (s.rebindEdits d.imports d.helperConstants vs) d'.overlay
  constants : d'.helperConstants = s.rebindConstants d.imports d.helperConstants vs
  imports : d'.imports = d.imports
  count_eq : count = s.references d.imports vs

variable {s : Script} {d d' d'' : Draft} {vs ws : List Visit} {k l : Nat}

theorem Rebinds.refl : Rebinds s d [] 0 d := ⟨Overlay.takes_nil, rfl, rfl, rfl⟩

theorem Rebinds.trans (h : Rebinds s d vs k d') (h' : Rebinds s d' ws l d'') :
    Rebinds s d (vs ++ ws) (k + l) d'' := by
  obtain ⟨ht', hc', hi', hn'⟩ := h'
  rw [h.imports, h.constants] at ht' hc'
  rw [h.imports] at hn'
  refine ⟨?_, ?_, hi'.trans h.imports, ?_⟩
  · rw [Script.rebindEdits_append]
    exact h.takes.append ht'
  · rw [hc', Script.rebindConstants, Script.rebindConstants, Script.rebindConstants,
      List.foldl_append]
  · rw [h.count_eq, hn', Script.references, Script.references, Script.references,
      List.countP_append]

theorem Rebinds.single {v : Visit} {isReference : Bool}
    (ht : d.overlay.Takes (s.visitEdits d.imports d.helperConstants v) d'.overlay)
    (hc : d'.helperConstants = s.visitConstants d.imports d.helperConstants v)
    (hi : d'.imports = d.imports) (hr : isReference = (s.rebinding? d.imports v.trail v.node).isSome) :
    Rebinds s d [v] (if isReference then 1 else 0) d' := by
  refine ⟨?_, hc, hi, ?_⟩
  · rw [Script.rebindEdits, Script.rebindEdits, List.append_nil]
    exact ht
  · rw [Script.references, List.countP_singleton, hr]

theorem Rebinds.none {v : Visit} (h : s.rebinding? d.imports v.trail v.node = none) :
    Rebinds s d [v] (if false then 1 else 0) d := by
  refine .single ?_ ?_ rfl ?_
  · rw [Script.visitEdits, h]
    exact Overlay.takes_nil
  · rw [Script.visitConstants, h]
  · rw [h]
    rfl

theorem Rebinds.edited {v : Visit} {e : Edit} {isReference : Bool}
    (hs : d.overlay.Takes [e] d'.overlay ∧ d' = { d with overlay := d'.overlay })
    (he : s.visitEdits d.imports d.helperConstants v = [e])
    (hc : s.visitConstants d.imports d.helperConstants v = d.helperConstants)
    (hr : isReference = (s.rebinding? d.imports v.trail v.node).isSome) :
    Rebinds s d [v] (if isReference then 1 else 0) d' := by
  obtain ⟨ht, hd⟩ := hs
  exact .single (by rw [he]; exact ht) (by rw [hc, hd]) (by rw [hd]) hr

theorem Rebinds.replaced {v : Visit} {expression : Text}
    (h : s.rebinding? d.imports v.trail v.node = some (.replaced expression))
    (hs : Succeeds (Pass.replaceNode s v.node expression) d () d') :
    Rebinds s d [v] (if true then 1 else 0) d' := by
  refine .edited (succeeds_replaceNode hs) ?_ ?_ ?_
  · rw [Script.visitEdits, h]
  · rw [Script.visitConstants, h]
  · rw [h]
    rfl

theorem Rebinds.expanded {v : Visit} {expression : Text}
    (h : s.rebinding? d.imports v.trail v.node = some (.expanded expression))
    (hs : Succeeds (expandShorthand s v.node expression) d () d') :
    Rebinds s d [v] (if true then 1 else 0) d' := by
  obtain ⟨b, d₁, hb, hs₁⟩ := succeeds_bind.1 hs
  obtain ⟨rfl, rfl⟩ := succeeds_stopOf hb
  refine .edited (succeeds_edit (.insertAfter (s.stopAt v.node) (": " ++ expression)) hs₁) ?_ ?_ ?_
  · rw [Script.visitEdits, h]
  · rw [Script.visitConstants, h]
  · rw [h]
    rfl

theorem Rebinds.declared {v : Visit} {name expression : Text}
    (h : s.rebinding? d.imports v.trail v.node = some (.declared name expression))
    (hs : Succeeds (declareConstant s v.statement name expression) d () d') :
    Rebinds s d [v] (if true then 1 else 0) d' := by
  obtain ⟨_, d₁, hget, hs₁⟩ := succeeds_bind.1 hs
  obtain ⟨rfl, rfl⟩ := succeeds_get.1 hget
  by_cases hin : d₁.helperConstants.contains name = true
  · rw [if_pos hin] at hs₁
    obtain ⟨-, rfl⟩ := succeeds_pure.1 hs₁
    refine .single ?_ ?_ rfl ?_
    · rw [Script.visitEdits, h]
      simp only [hin, if_true]
      exact Overlay.takes_nil
    · rw [Script.visitConstants, h]
      simp only [hin, if_true]
    · rw [h]
      rfl
  · rw [if_neg hin] at hs₁
    obtain ⟨_, d₂, hmod, hs₂⟩ := succeeds_bind.1 hs₁
    obtain rfl := succeeds_modify.1 hmod
    obtain ⟨a, d₃, ha, hs₃⟩ := succeeds_bind.1 hs₂
    obtain ⟨rfl, rfl⟩ := succeeds_startOf ha
    obtain ⟨ht, hd⟩ := succeeds_edit
      (.insertBefore (s.startAt v.statement) (Script.constantText name expression)) hs₃
    refine .single ?_ ?_ (by rw [hd]) ?_
    · rw [Script.visitEdits, h]
      simp only [hin, if_false, Bool.false_eq_true]
      exact ht
    · rw [Script.visitConstants, h, hd]
      simp only [hin, if_false, Bool.false_eq_true]
    · rw [h]
      rfl

/-! ## Visits that complete -/

theorem rebind_log {v : Visit} {name expression : Text} {isReference : Bool}
    (hr : s.rebinding? d.imports v.trail v.node = Script.rebindingTo? v.trail v.node name expression)
    (h : Succeeds (rebind s v.statement v.node v.trail.place v.trail.nodes name expression) d
      isReference d') :
    Rebinds s d [v] (if isReference then 1 else 0) d' := by
  unfold rebind at h
  split at h
  · next hk =>
    rw [Script.rebindingTo?, hk] at hr
    obtain ⟨_, d₁, h₁, h₂⟩ := succeeds_bind.1 h
    obtain ⟨rfl, rfl⟩ := succeeds_pure.1 h₂
    exact .expanded hr h₁
  · next hk =>
    rw [Script.rebindingTo?, hk] at hr
    by_cases hp : inAssignedPattern v.trail.nodes = true
    · rw [if_pos hp] at h
      simp only [hp, if_true] at hr
      obtain ⟨_, d₁, h₁, h₂⟩ := succeeds_bind.1 h
      obtain ⟨rfl, rfl⟩ := succeeds_pure.1 h₂
      exact .expanded hr h₁
    · rw [if_neg hp] at h
      simp only [hp, Bool.false_eq_true, if_false] at hr
      obtain ⟨rfl, rfl⟩ := succeeds_pure.1 h
      exact .none hr
  · next hk₁ hk₂ =>
    have hr' : s.rebinding? d.imports v.trail v.node =
        if declaresName v.trail.place v.trail.nodes then none
        else if isSuperclass v.trail.place v.trail.nodes && !expression.isNameLine then
          some (.declared name expression)
        else some (.replaced expression) := by
      rw [hr, Script.rebindingTo?]
      split
      · exact absurd ‹_› hk₁
      · exact absurd ‹_› hk₂
      · rfl
    by_cases hd : declaresName v.trail.place v.trail.nodes = true
    · rw [if_pos hd] at h hr'
      obtain ⟨rfl, rfl⟩ := succeeds_pure.1 h
      exact .none hr'
    · rw [if_neg hd] at h hr'
      by_cases hsup : (isSuperclass v.trail.place v.trail.nodes && !expression.isNameLine) = true
      · rw [if_pos hsup] at h hr'
        obtain ⟨_, d₁, h₁, h₂⟩ := succeeds_bind.1 h
        obtain ⟨rfl, rfl⟩ := succeeds_pure.1 h₂
        exact .declared hr' h₁
      · rw [if_neg hsup] at h hr'
        obtain ⟨_, d₁, h₁, h₂⟩ := succeeds_bind.1 h
        obtain ⟨rfl, rfl⟩ := succeeds_pure.1 h₂
        exact .replaced hr' h₁

theorem visitNode_log {around : Surroundings} {v : Visit} {isReference : Bool}
    (ha : s.Surrounds around v.trail)
    (h : Succeeds (visitNode s v.statement around v.trail.place v.node) d isReference d') :
    Rebinds s d [v] (if isReference then 1 else 0) d' := by
  unfold visitNode at h
  by_cases hk : v.node.kind.isNameUse = true
  · simp only [hk, Bool.not_true, Bool.false_eq_true, if_false] at h
    obtain ⟨name, d₁, hname, h₁⟩ := succeeds_bind.1 h
    obtain ⟨rfl, rfl⟩ := succeeds_textOf hname
    obtain ⟨_, d₂, hget, h₂⟩ := succeeds_bind.1 h₁
    obtain ⟨rfl, rfl⟩ := succeeds_get.1 hget
    cases hb : d₂.imports.get? (s.textAt v.node) with
    | none =>
      rw [hb] at h₂
      obtain ⟨rfl, rfl⟩ := succeeds_pure.1 h₂
      refine .none ?_
      rw [Script.rebinding?, hk, hb]
      rfl
    | some binding =>
      rw [hb] at h₂
      simp only [ha.scopes] at h₂
      by_cases hh : s.hides v.trail (s.textAt v.node) = true
      · rw [if_pos hh] at h₂
        obtain ⟨rfl, rfl⟩ := succeeds_pure.1 h₂
        refine .none ?_
        rw [Script.rebinding?, hk, hb]
        simp only [hh, if_true, Bool.not_true, Bool.false_eq_true, if_false]
      · rw [if_neg hh, ha.ancestors] at h₂
        refine rebind_log ?_ h₂
        rw [Script.rebinding?, hk, hb]
        simp only [hh, Bool.not_true, Bool.false_eq_true, if_false]
  · simp only [hk, Bool.not_false, if_true] at h
    obtain ⟨rfl, rfl⟩ := succeeds_pure.1 h
    refine .none ?_
    rw [Script.rebinding?]
    simp only [hk, Bool.not_false, if_true]

/-! ## The walk -/

theorem visitsAmong_eq_nil {statement parent : Node} {trail : Trail} {first : Nat} {ns : List Node}
    (h : ((Node.numbered first ns).filter fun e => e.2.isNamed && !e.2.kind.isSkipped) = []) :
    visitsAmong statement parent trail first ns = [] := by
  induction ns generalizing first with
  | nil => rfl
  | cons n ns ih =>
    rw [Node.numbered, List.filter_cons] at h
    rw [visitsAmong]
    by_cases hn : (n.isNamed && !n.kind.isSkipped) = true
    · rw [if_pos hn] at h
      cases h
    · rw [if_neg hn] at h ⊢
      exact ih h

abbrev walkReferences (s : Script) (statement : Node) (around : Surroundings) (count index : Nat)
    (n : Node) : Pass Nat :=
  walkNode (visitNode s statement) (fun n => liftM (s.scopeNames n)) around count index n

theorem walkAmong_log {statement parent : Node} {ns : List Node} {around : Surroundings}
    {trail : Trail}
    (ih : ∀ n ∈ ns, ∀ first count d k d', Succeeds (walkReferences s statement around count first n)
        d k d' →
      ∃ r, k = count + r ∧ Rebinds s d (visitsIn statement ((parent, first) :: trail) n) r d')
    {count first : Nat}
    (h : Succeeds (walkAmong (visitNode s statement) (fun n => liftM (s.scopeNames n)) around count
      first ns) d k d') :
    ∃ r, k = count + r ∧ Rebinds s d (visitsAmong statement parent trail first ns) r d' := by
  induction ns generalizing count first d with
  | nil =>
    rw [walkAmong] at h
    obtain ⟨rfl, rfl⟩ := succeeds_pure.1 h
    exact ⟨0, rfl, .refl⟩
  | cons n ns ihs =>
    rw [walkAmong] at h
    rw [visitsAmong]
    have hrest : ∀ {d : Draft} {count first : Nat}, _ → _ :=
      fun {d count first} => @ihs d (fun c hc => ih c (List.mem_cons_of_mem n hc)) count first
    by_cases hn : (n.isNamed && !n.kind.isSkipped) = true
    · rw [if_pos hn] at h ⊢
      obtain ⟨k₁, d₁, h₁, h₂⟩ := succeeds_bind.1 h
      obtain ⟨r₁, rfl, hr₁⟩ := ih n List.mem_cons_self first count d k₁ d₁ h₁
      obtain ⟨r₂, rfl, hr₂⟩ := hrest h₂
      exact ⟨r₁ + r₂, Nat.add_assoc _ _ _, hr₁.trans hr₂⟩
    · rw [if_neg hn] at h ⊢
      exact hrest h

theorem walkNode_log {statement n : Node} {around : Surroundings} {trail : Trail}
    {count index : Nat} (ha : s.Surrounds around trail)
    (hi : index = trail.place)
    (h : Succeeds (walkReferences s statement around count index n) d k d') :
    ∃ r, k = count + r ∧ Rebinds s d (visitsIn statement trail n) r d' := by
  induction n using Node.induct generalizing around trail count index d k d' with
  | step n ih =>
    subst hi
    rw [walkReferences, walkNode_eq] at h
    obtain ⟨isReference, d₁, h₁, h₂⟩ := succeeds_bind.1 h
    have hv := visitNode_log (v := ⟨statement, trail, n⟩) ha h₁
    have hcount : (if isReference = true then count + 1 else count) =
        count + if isReference = true then 1 else 0 := by
      split <;> rfl
    rw [visitsIn_eq]
    by_cases hw : n.walkedChildren.isEmpty = true
    · rw [if_pos hw, hcount] at h₂
      obtain ⟨rfl, rfl⟩ := succeeds_pure.1 h₂
      rw [visitsAmong_eq_nil (List.isEmpty_iff.1 hw)]
      exact ⟨_, rfl, hv⟩
    · rw [if_neg hw, hcount] at h₂
      obtain ⟨names, d₂, h₃, h₄⟩ := succeeds_bind.1 h₂
      obtain ⟨hnames, rfl⟩ := succeeds_lift.1 h₃
      obtain ⟨r, rfl, hr⟩ := walkAmong_log (fun c hc first count d k d' hs =>
        ih c hc (ha.inside first hnames) rfl hs) h₄
      exact ⟨_, Nat.add_assoc _ _ _, hv.trans hr⟩

/-! ## All statements -/

theorem surrounds_part {statement : Node} {p : Nat × Node × List Node}
    (hp : p ∈ walkedParts statement) :
    s.Surrounds { ancestors := p.2.2 } (partTrail p) ∧
      p.1 = (partTrail p).place := by
  unfold walkedParts at hp
  by_cases hk : statement.kind = .exportStatement
  · rw [if_pos hk, List.mem_filterMap] at hp
    obtain ⟨role, -, hp⟩ := hp
    have hnames : s.scopeNames statement = .ok [] := by
      rw [Script.scopeNames, hk]
      rfl
    cases hi : statement.childIndex? role with
    | none =>
      rw [hi] at hp
      exact nomatch hp
    | some i =>
      cases hc : statement.child? role with
      | none =>
        rw [hi, hc] at hp
        exact nomatch hp
      | some c =>
        rw [hi, hc] at hp
        obtain rfl : (i, c, [statement]) = p := Option.some.inj hp
        have hnil : s.Surrounds { ancestors := [] } [] := ⟨rfl, fun _ => rfl⟩
        exact ⟨hnil.inside i hnames, rfl⟩
  · rw [if_neg hk, List.mem_singleton] at hp
    subst hp
    exact ⟨⟨rfl, fun _ => rfl⟩, rfl⟩

def rebindPart (s : Script) (statement : Node) (count : Nat) (p : Nat × Node × List Node) :
    Pass Nat :=
  walkReferences s statement { ancestors := p.2.2 } count p.1 p.2.1

theorem rebindStatement_eq (s : Script) (count : Nat) (statement : Node) :
    rebindStatement s count statement =
      (walkedParts statement).foldlM (rebindPart s statement) count := by
  rw [rebindStatement]
  congr 1
  funext count p
  obtain ⟨index, part, ancestors⟩ := p
  simp only [walk_single, bind_assoc, pure_bind, bind_pure]
  rfl

theorem rebindStatement_log {statement : Node} {count : Nat}
    (h : Succeeds (rebindStatement s count statement) d k d') :
    ∃ r, k = count + r ∧ Rebinds s d (statementVisits statement) r d' := by
  have hlog : ∀ ps : List (Nat × Node × List Node), (∀ p ∈ ps, p ∈ walkedParts statement) →
      ∀ {d : Draft} {count : Nat}, Succeeds (ps.foldlM (rebindPart s statement) count) d k d' →
      ∃ r, k = count + r ∧ Rebinds s d (ps.flatMap (partVisits statement)) r d' := by
    intro ps hps d count h
    induction ps generalizing d count with
    | nil =>
      obtain ⟨rfl, rfl⟩ := succeeds_pure.1 h
      exact ⟨0, rfl, .refl⟩
    | cons p ps ih =>
      rw [List.foldlM_cons] at h
      obtain ⟨k₁, d₁, h₁, h₂⟩ := succeeds_bind.1 h
      obtain ⟨ha, hi⟩ := surrounds_part (s := s) (hps p List.mem_cons_self)
      obtain ⟨r₁, rfl, hr₁⟩ := walkNode_log ha hi h₁
      obtain ⟨r₂, rfl, hr₂⟩ := ih (fun q hq => hps q (List.mem_cons_of_mem p hq)) h₂
      exact ⟨r₁ + r₂, Nat.add_assoc _ _ _, hr₁.trans hr₂⟩
  rw [rebindStatement_eq] at h
  exact hlog (walkedParts statement) (fun _ hp => hp) h

theorem rebindStatements_log {statements : List Node} {count : Nat}
    (h : Succeeds (statements.foldlM (rebindStatement s) count) d k d') :
    ∃ r, k = count + r ∧ Rebinds s d (statements.flatMap statementVisits) r d' := by
  induction statements generalizing d count with
  | nil =>
    obtain ⟨rfl, rfl⟩ := succeeds_pure.1 h
    exact ⟨0, rfl, .refl⟩
  | cons statement statements ih =>
    rw [List.foldlM_cons] at h
    obtain ⟨k₁, d₁, h₁, h₂⟩ := succeeds_bind.1 h
    obtain ⟨r₁, rfl, hr₁⟩ := rebindStatement_log h₁
    obtain ⟨r₂, rfl, hr₂⟩ := ih h₂
    exact ⟨r₁ + r₂, Nat.add_assoc _ _ _, hr₁.trans hr₂⟩

theorem Rebinds.of_no_imports (h : d.imports.bindings.isEmpty = true) (vs : List Visit) :
    Rebinds s d vs 0 d := by
  induction vs with
  | nil => exact .refl
  | cons v vs ih =>
    have hget : ∀ name, d.imports.get? name = Option.none := by
      intro name
      rw [ImportTable.get?, List.isEmpty_iff.1 h]
      rfl
    have hv : s.rebinding? d.imports v.trail v.node = Option.none := by
      rw [Script.rebinding?]
      split
      · rfl
      · simp only [hget]
    exact (Rebinds.none hv).trans ih

theorem rebindReferences_log (h : Succeeds (rebindReferences s) d k d') :
    Rebinds s d s.visits k d' := by
  unfold rebindReferences at h
  obtain ⟨_, d₁, hget, h₁⟩ := succeeds_bind.1 h
  obtain ⟨rfl, rfl⟩ := succeeds_get.1 hget
  by_cases he : d₁.imports.bindings.isEmpty = true
  · rw [if_pos he] at h₁
    obtain ⟨rfl, rfl⟩ := succeeds_pure.1 h₁
    exact .of_no_imports he s.visits
  · rw [if_neg he] at h₁
    obtain ⟨r, rfl, hr⟩ := rebindStatements_log h₁
    rw [Nat.zero_add]
    exact hr

end RegistryScript
