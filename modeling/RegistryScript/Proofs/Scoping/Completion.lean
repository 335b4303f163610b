import Mathlib
import RegistryScript.Proofs.Overlay.Acceptance
import RegistryScript.Proofs.References.Local
import RegistryScript.Proofs.Scoping.Collectors

/-! # References can always be rebound

The pass over references fails only where an edit is refused, and no edit of it is refused when the
edits before it leave room.

* `Script.Awaits`: the edits of visits to come are accepted one after another.
* `visitNode_completes`, `walkNode_completes`: a visit, and the walk of a node.
* `rebindReferences_completes`: the pass over all statements.
-/

namespace RegistryScript
set_option autoImplicit false

open Edit

variable {s : Script} {d d' : Draft} {es : List Edit} {vs ws : List Visit} {k : Nat}

/-! ## Edits to come -/

/-- A draft is made by edits that leave room for the edits of visits to come, and these leave room
for one another. -/
structure Script.Awaits (s : Script) (es : List Edit) (d : Draft) (vs : List Visit) : Prop where
  takes : (Overlay.ofText s.text).Takes es d.overlay
  fits : ∀ e ∈ s.rebindEdits d.imports d.helperConstants vs, e.FitsIn s.text.length
  room : ∀ e ∈ es, ∀ e' ∈ s.rebindEdits d.imports d.helperConstants vs, e.leavesRoom e'
  apart : (s.rebindEdits d.imports d.helperConstants vs).Pairwise leavesRoom

namespace Script.Awaits

theorem of_append (h : s.Awaits es d (vs ++ ws)) : s.Awaits es d vs := by
  obtain ⟨htakes, hfits, hroom, hapart⟩ := h
  rw [rebindEdits_append] at hfits hroom hapart
  exact ⟨htakes, fun e he => hfits e (List.mem_append_left _ he),
    fun e he e' he' => hroom e he e' (List.mem_append_left _ he'), (List.pairwise_append.1 hapart).1⟩

theorem rest (h : s.Awaits es d (vs ++ ws)) (hvs : Rebinds s d vs k d') :
    s.Awaits (es ++ s.rebindEdits d.imports d.helperConstants vs) d' ws := by
  obtain ⟨htakes, hfits, hroom, hapart⟩ := h
  rw [rebindEdits_append] at hfits hroom hapart
  obtain ⟨-, hrest, hbetween⟩ := List.pairwise_append.1 hapart
  have hedits : s.rebindEdits d'.imports d'.helperConstants ws = s.rebindEdits d.imports
      (s.rebindConstants d.imports d.helperConstants vs) ws := by rw [hvs.imports, hvs.constants]
  refine ⟨htakes.append hvs.takes, ?_, ?_, ?_⟩
  · rw [hedits]
    exact fun e he => hfits e (List.mem_append_right _ he)
  · rw [hedits]
    intro e he e' he'
    rcases List.mem_append.1 he with he | he
    · exact hroom e he e' (List.mem_append_right _ he')
    · exact hbetween e he e' he'
  · rw [hedits]
    exact hrest

theorem accepts (h : s.Awaits es d vs) {e : Edit}
    (he : e ∈ s.rebindEdits d.imports d.helperConstants vs) :
    ∃ o', outcome e.run d.overlay = (.ok (), o') :=
  h.takes.accepts (h.fits e he) fun e' he' => h.room e' he' e he

end Script.Awaits

/-! ## One visit -/

section Visit

variable {v : Visit} {name expression : Text}

theorem replaceNode_completes (h : s.Awaits es d [v]) (hn : s.Holds v.node)
    (hr : s.rebinding? d.imports v.trail v.node = some (.replaced expression)) :
    Completes (Pass.replaceNode s v.node expression) d := by
  have hspan := (Node.all_iff.1 hn.spans).1
  have hedit : .replace (s.startAt v.node) (s.stopAt v.node) expression ∈
      s.rebindEdits d.imports d.helperConstants [v] := by
    rw [Script.rebindEdits, Script.visitEdits, hr]
    exact List.mem_cons_self
  obtain ⟨o', ho'⟩ := h.accepts hedit
  exact completes_lift_bind (hn.laidOut.startOf hspan)
    (completes_lift_bind (hn.laidOut.stopOf hspan) (completes_edit ho'))

theorem expandShorthand_completes (h : s.Awaits es d [v]) (hn : s.Holds v.node)
    (hr : s.rebinding? d.imports v.trail v.node = some (.expanded expression)) :
    Completes (expandShorthand s v.node expression) d := by
  have hedit : .insertAfter (s.stopAt v.node) (": " ++ expression) ∈
      s.rebindEdits d.imports d.helperConstants [v] := by
    rw [Script.rebindEdits, Script.visitEdits, hr]
    exact List.mem_cons_self
  obtain ⟨o', ho'⟩ := h.accepts hedit
  exact completes_lift_bind (hn.laidOut.stopOf (Node.all_iff.1 hn.spans).1) (completes_edit ho')

theorem declareConstant_completes (h : s.Awaits es d [v]) (hst : s.Holds v.statement)
    (hr : s.rebinding? d.imports v.trail v.node = some (.declared name expression)) :
    Completes (declareConstant s v.statement name expression) d := by
  refine completes_get_bind ?_
  by_cases hin : d.helperConstants.contains name = true
  · rw [if_pos hin]
    exact completes_pure _ _
  · rw [if_neg hin]
    have hedit : .insertBefore (s.startAt v.statement) (Script.constantText name expression) ∈
        s.rebindEdits d.imports d.helperConstants [v] := by
      rw [Script.rebindEdits, Script.visitEdits, hr]
      simp only [hin, Bool.false_eq_true, if_false]
      exact List.mem_cons_self
    obtain ⟨o', ho'⟩ := h.accepts hedit
    refine completes_bind_of ⟨(), _, succeeds_modify.2 rfl⟩ fun _ d₁ hd₁ => ?_
    have hoverlay : d₁.overlay = d.overlay := by rw [succeeds_modify.1 hd₁]
    rw [← hoverlay] at ho'
    exact completes_lift_bind (hst.laidOut.startOf (Node.all_iff.1 hst.spans).1)
      (completes_edit ho')

theorem rebind_completes (h : s.Awaits es d [v]) (hn : s.Holds v.node) (hst : s.Holds v.statement)
    (hr : s.rebinding? d.imports v.trail v.node =
      Script.rebindingTo? v.trail v.node name expression) :
    Completes (rebind s v.statement v.node v.trail.place v.trail.nodes name expression) d := by
  have hthen : ∀ {x : Pass Unit} {b : Bool}, Completes x d →
      Completes (do x; return b : Pass Bool) d := fun hx =>
    completes_bind_of hx fun _ _ _ => completes_pure _ _
  unfold rebind
  unfold Script.rebindingTo? at hr
  by_cases hshorthand : v.node.kind = .shorthandPropertyIdentifier
  · simp only [hshorthand] at hr ⊢
    exact hthen (expandShorthand_completes h hn hr)
  by_cases hpattern : v.node.kind = .shorthandPropertyIdentifierPattern
  · simp only [hpattern] at hr ⊢
    by_cases hassigned : inAssignedPattern v.trail.nodes = true
    · rw [if_pos hassigned] at hr ⊢
      exact hthen (expandShorthand_completes h hn hr)
    · rw [if_neg hassigned]
      exact completes_pure _ _
  by_cases hdeclares : declaresName v.trail.place v.trail.nodes = true
  · simp only [hdeclares, if_true]
    exact completes_pure _ _
  · simp only [hdeclares, if_false, Bool.false_eq_true] at hr ⊢
    by_cases hsuper : (isSuperclass v.trail.place v.trail.nodes && !expression.isNameLine) = true
    · simp only [hsuper, if_true] at hr ⊢
      exact hthen (declareConstant_completes h hst hr)
    · simp only [hsuper, if_false, Bool.false_eq_true] at hr ⊢
      exact hthen (replaceNode_completes h hn hr)

theorem visitNode_completes {around : Surroundings} (h : s.Awaits es d [v])
    (ha : s.Surrounds around v.trail) (hn : s.Holds v.node) (hst : s.Holds v.statement) :
    Completes (visitNode s v.statement around v.trail.place v.node) d := by
  unfold visitNode
  by_cases hname : v.node.kind.isNameUse = true
  · simp only [hname, Bool.not_true, Bool.false_eq_true, if_false]
    refine completes_lift_bind hn.textOf (completes_get_bind ?_)
    cases hget : d.imports.get? (s.textAt v.node) with
    | none => exact completes_pure _ _
    | some binding =>
      simp only [ha.scopes]
      by_cases hhides : s.hides v.trail (s.textAt v.node) = true
      · rw [if_pos hhides]
        exact completes_pure _ _
      · rw [if_neg hhides, ha.ancestors]
        refine rebind_completes h hn hst ?_
        rw [Script.rebinding?, hname, hget]
        simp only [hhides, Bool.not_true, Bool.false_eq_true, if_false]
  · simp only [hname, Bool.not_false, if_true]
    exact completes_pure _ _

end Visit

/-! ## The walk -/

theorem walkAmong_completes {statement parent : Node} {ns : List Node} {around : Surroundings}
    {trail : Trail}
    (ih : ∀ n ∈ ns, ∀ first count es d,
      s.Awaits es d (visitsIn statement ((parent, first) :: trail) n) →
      Completes (walkReferences s statement around count first n) d)
    (hlog : ∀ n ∈ ns, ∀ first count d k d',
      Succeeds (walkReferences s statement around count first n) d k d' →
      ∃ r, k = count + r ∧ Rebinds s d (visitsIn statement ((parent, first) :: trail) n) r d')
    {count first : Nat} (h : s.Awaits es d (visitsAmong statement parent trail first ns)) :
    Completes (walkAmong (visitNode s statement) (fun n => liftM (s.scopeNames n)) around count
      first ns) d := by
  -- What is awaited of the later nodes is what the log of the earlier ones leaves.
  induction ns generalizing count first es d with
  | nil =>
    rw [walkAmong]
    exact completes_pure _ _
  | cons n ns ihs =>
    rw [visitsAmong] at h
    rw [walkAmong]
    have hrest : ∀ {es d count first}, _ → _ := fun {es d count first} => @ihs es d
      (fun c hc => ih c (List.mem_cons_of_mem n hc))
      (fun c hc => hlog c (List.mem_cons_of_mem n hc)) count first
    by_cases hn : (n.isNamed && !n.kind.isSkipped) = true
    · rw [if_pos hn] at h ⊢
      refine completes_bind_of (ih n List.mem_cons_self first count es d h.of_append) ?_
      intro k d₁ h₁
      obtain ⟨r, -, hr⟩ := hlog n List.mem_cons_self first count d k d₁ h₁
      exact hrest (h.rest hr)
    · rw [if_neg hn] at h ⊢
      exact hrest h

theorem walkNode_completes {statement n : Node} {around : Surroundings} {trail : Trail}
    {count index : Nat} (ha : s.Surrounds around trail) (hi : index = trail.place)
    (hst : s.Holds statement) (hn : s.Holds n) (h : s.Awaits es d (visitsIn statement trail n)) :
    Completes (walkReferences s statement around count index n) d := by
  induction n using Node.induct generalizing around trail count index es d with
  | step n ih =>
    subst hi
    rw [visitsIn_eq, ← List.singleton_append] at h
    rw [walkReferences, walkNode_eq]
    refine completes_bind_of (visitNode_completes h.of_append ha hn hst) fun isReference d₁ h₁ => ?_
    have hrest := h.rest (visitNode_log (v := ⟨statement, trail, n⟩) ha h₁)
    by_cases hw : n.walkedChildren.isEmpty = true
    · rw [if_pos hw]
      exact completes_pure _ _
    · rw [if_neg hw]
      obtain ⟨names, hnames, -⟩ := hn.scopeNames
      refine completes_lift_bind hnames (walkAmong_completes ?_ ?_ hrest)
      · exact fun c hc first count es d hc' => ih c hc (ha.inside first hnames) rfl (hn.child hc) hc'
      · exact fun c hc first count d k d' hs => walkNode_log (ha.inside first hnames) rfl hs

/-! ## All statements -/

theorem rebindStatement_completes {statement : Node} {count : Nat} (hst : s.Holds statement)
    (h : s.Awaits es d (statementVisits statement)) :
    Completes (rebindStatement s count statement) d := by
  have hparts : ∀ ps : List (Nat × Node × List Node), (∀ p ∈ ps, p ∈ walkedParts statement) →
      ∀ {es : List Edit} {d : Draft} {count : Nat},
      s.Awaits es d (ps.flatMap (partVisits statement)) →
      Completes (ps.foldlM (rebindPart s statement) count) d := by
    intro ps hps es d count h
    induction ps generalizing es d count with
    | nil => exact completes_pure _ _
    | cons p ps ih =>
      rw [List.flatMap_cons] at h
      obtain ⟨ha, hi⟩ := surrounds_part (s := s) (hps p List.mem_cons_self)
      have hpart : s.Holds p.2.1 := by
        rcases Script.mem_walkedParts (hps p List.mem_cons_self) with hp | hp
        · rw [hp]
          exact hst
        · exact hst.child hp
      rw [List.foldlM_cons]
      refine completes_bind_of (walkNode_completes ha hi hst hpart h.of_append) fun k d₁ h₁ => ?_
      obtain ⟨r, -, hr⟩ := walkNode_log ha hi h₁
      exact ih (fun q hq => hps q (List.mem_cons_of_mem p hq)) (h.rest hr)
  rw [rebindStatement_eq]
  exact hparts (walkedParts statement) (fun _ hp => hp) h

theorem rebindStatements_completes {statements : List Node} {count : Nat}
    (hst : ∀ c ∈ statements, s.Holds c) (h : s.Awaits es d (statements.flatMap statementVisits)) :
    Completes (statements.foldlM (rebindStatement s) count) d := by
  induction statements generalizing es d count with
  | nil => exact completes_pure _ _
  | cons statement statements ih =>
    rw [List.flatMap_cons] at h
    rw [List.foldlM_cons]
    refine completes_bind_of (rebindStatement_completes (hst statement List.mem_cons_self)
      h.of_append) fun k d₁ h₁ => ?_
    obtain ⟨r, -, hr⟩ := rebindStatement_log h₁
    exact ih (fun c hc => hst c (List.mem_cons_of_mem statement hc)) (h.rest hr)

theorem rebindReferences_completes (hs : s.IsLaidOut) (hm : s.IsModule)
    (h : s.Awaits es d s.visits) : Completes (rebindReferences s) d := by
  refine completes_get_bind ?_
  by_cases hempty : d.imports.bindings.isEmpty = true
  · rw [if_pos hempty]
    exact completes_pure _ _
  · rw [if_neg hempty]
    refine rebindStatements_completes (fun c hc => ?_) h
    have hmem := Script.mem_root_of_mem_statements (List.mem_filter.1 hc).1
    exact ⟨hs, (Node.all_iff.1 hs.spans).2 c hmem, (Node.all_iff.1 hm.shaped).2 c hmem⟩

end RegistryScript
