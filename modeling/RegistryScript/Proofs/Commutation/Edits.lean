import Mathlib
import RegistryScript.Proofs.Conflict.Conversion
import RegistryScript.Proofs.Overlay.Order

/-! # The edits of the passes in other orders

The edits of a pass leave room for those of the passes that come after it, and also for those of
passes that come before it, so that these may be made later.

* `Stage`: the passes over the body of a script.
* `Script.stageEdits`: the edits of a pass.
* `Script.exists_border`: what is overwritten in an export statement stands in front of what is
  visited and redirected in it.
* `Script.leavesRoom_of_stages`: the edits of two passes leave room for one another in both orders,
  but for those of exports and references, which are not followed by those of imports.
* `Script.rendering_of_stages`: what the edits of all passes make of the text does not depend on the
  order of the passes.
-/

namespace RegistryScript
set_option autoImplicit false

open Edit

inductive Stage
  | imports
  | exports
  | references
  | redirects
deriving DecidableEq, Repr

def Stage.all : List Stage := [.imports, .exports, .references, .redirects]

namespace Script

variable {s : Script} {names : Settings} {imports : ImportTable} {c d : Node} {e e' : Edit}

def stageEdits (s : Script) (names : Settings) (imports : ImportTable) : Stage → List Edit
  | .imports => s.importEdits
  | .exports => (s.statements.filter fun n => n.kind = .exportStatement).flatMap
      (exportEdits s names)
  | .references => s.rebindEdits imports [] s.visits
  | .redirects => s.dynamicImports.flatMap (redirectEdits s names)

theorem flatMap_stageEdits :
    Stage.all.flatMap (s.stageEdits names imports) = s.allEdits names imports := by
  simp [Stage.all, stageEdits, allEdits]

/-! ## Edits in one statement -/

/-- What is overwritten in an export statement ends in front of all that is visited or redirected
in it. -/
theorem exists_border (hs : s.IsLaidOut) (hexports : s.exportsAreShaped = true)
    (hc : c ∈ s.statements) (hk : c.kind = .exportStatement) :
    ∃ border : Nat, (∀ e ∈ exportEdits s names c, e.LiesIn (s.startAt c) border) ∧
      (∀ w ∈ visitsOf c, border ≤ s.startAt w.node) ∧
      ∀ e ∈ s.redirectsIn names c, e.LiesIn border (s.stopAt c) := by
  have hroot := mem_root_of_mem_statements hc
  have hspan := (Node.all_iff.1 hs.spans).2 c hroot
  have hsound := (Node.all_iff.1 hs.sound).2 c hroot
  rcases exported_cases s names {} hk (isExportShaped_of_mem hexports hc hk) with
    ⟨role, i, part, keyword, h⟩ | ⟨hparts, hcalls, hedits, -⟩
  · -- The border is where the exported part starts.
    have hmem := Node.mem_of_child? h.child
    obtain ⟨h1, h2, h3, h4⟩ := h.bounds hs hspan
    refine ⟨s.startAt part, fun e he => ?_, fun w hw => ?_, fun e he => ?_⟩
    · rw [h.edits, List.mem_singleton] at he
      rw [he, exportedEdit]
      split <;> exact ⟨by exact_mod_cast h1, le_rfl⟩
    · exact (h.visitedIn hs hspan hsound hw).start_le
    · rw [h.redirectsIn] at he
      split at he
      · obtain ⟨t, n, text, rfl, hspots, -⟩ := spots_of_mem_redirectsIn hs
          ((Node.all_iff.1 hspan).2 part hmem) ((Node.all_iff.1 hsound).2 part hmem) he
        have hb := bounds_of_leads hs ((Node.all_iff.1 hspan).2 part hmem) hspots.leads
        exact ⟨by exact_mod_cast hb.1, by exact_mod_cast hb.2.trans h4⟩
      · exact absurd he List.not_mem_nil
  · refine ⟨s.stopAt c, fun e he => ?_, fun w hw => ?_, fun e he => ?_⟩
    · rw [hedits, List.mem_singleton] at he
      rw [he]
      exact ⟨le_rfl, le_rfl⟩
    · rw [visitsOf, if_neg (by rw [hk]; decide), statementVisits, hparts] at hw
      exact absurd hw List.not_mem_nil
    · rw [redirectsIn_of_callsOnlyAt hk hcalls] at he
      obtain ⟨place, -, hin⟩ := List.mem_flatMap.1 he
      rw [if_neg (Option.some_ne_none _).symm] at hin
      exact absurd hin List.not_mem_nil

section Visit

variable {w : Visit} {constants : List Text}

theorem leavesRoom_of_visit {a b : Nat} (he : e ∈ s.visitEdits imports constants w)
    (he' : e'.LiesIn a b) (hapart : s.stopAt w.node ≤ a ∨ b ≤ s.startAt w.node) :
    e.leavesRoom e' := by
  rcases (mem_visitEdits he).2 with ⟨text, rfl⟩ | ⟨text, rfl⟩ | ⟨text, rfl⟩
  · have hin : (Edit.replace (s.startAt w.node) (s.stopAt w.node) text).LiesIn (s.startAt w.node)
        (s.stopAt w.node) := ⟨le_rfl, le_rfl⟩
    exact leavesRoom_of_liesIn hin he' hapart
  · exact fun r hr => nomatch hr
  · exact fun r hr => nomatch hr

theorem leavesRoom_of_visit_export (hs : s.IsLaidOut) (hexports : s.exportsAreShaped = true)
    (hw : w ∈ s.visits) (he : e ∈ s.visitEdits imports constants w) (hc : c ∈ s.statements)
    (hk : c.kind = .exportStatement) (he' : e' ∈ exportEdits s names c) : e.leavesRoom e' := by
  obtain ⟨hst, hvisits⟩ := mem_visits hs hw
  by_cases hne : w.statement = c
  · obtain ⟨border, hexport, hvisit, -⟩ := @exists_border s names c hs hexports hc hk
    exact leavesRoom_of_visit he (hexport e' he') (.inr (hvisit w (hne ▸ hvisits)))
  · have hin := visitedIn_of_mem_visits hs hw
    obtain ⟨e'', hedits, hlies⟩ := @exists_exportEdit s names c hs hexports hc hk
    rw [hedits, List.mem_singleton] at he'
    refine leavesRoom_of_visit he (he' ▸ hlies) ?_
    exact (statements_apart_of_ne hs hst hc hne).imp hin.le_stop.trans (·.trans hin.start_le)

theorem leavesRoom_of_redirect_visit (hs : s.IsLaidOut) (hexports : s.exportsAreShaped = true)
    (hc : c ∈ s.statements) (he : e ∈ s.redirectsIn names c) (hw : w ∈ s.visits)
    (he' : e' ∈ s.visitEdits imports constants w) : e.leavesRoom e' := by
  intro r hr
  obtain ⟨t, n, text, rfl, hspots, hkind⟩ := exists_spot_of_redirect hs hc he
  rw [replacement, range?, Option.ite_none_right_eq_some] at hr
  obtain rfl := Option.some.inj hr.2
  have hspan := (Node.all_iff.1 hs.spans).2 c (mem_root_of_mem_statements hc)
  have hb := bounds_of_leads hs hspan hspots.leads
  by_cases hne : c = w.statement
  · -- The callee or argument is no name, so it stands elsewhere than the visited node.
    obtain ⟨t', hspots'⟩ := exists_spot_of_visit hs hexports hw (mem_visitEdits he').1
    rw [← hne] at hspots'
    refine staysClear_of_mem_visitEdits hs hw he' ?_ (.inl (hne ▸ hb.1))
    refine apart_of_spots hs hspan hspots' hspots ?_
    rintro rfl
    rw [← leads_unique hspots'.leads hspots.leads, isNameUse_of_mem_visitEdits he'] at hkind
    exact absurd hkind.symm Bool.false_ne_true
  · exact staysClear_of_other hs hc hw hne he' hb.1 hb.2

end Visit

theorem leavesRoom_of_redirect_export (hs : s.IsLaidOut) (hexports : s.exportsAreShaped = true)
    (hd : d ∈ s.statements) (he : e ∈ s.redirectsIn names d) (hc : c ∈ s.statements)
    (hk : c.kind = .exportStatement) (he' : e' ∈ exportEdits s names c) : e.leavesRoom e' := by
  obtain ⟨border, hexport, -, hredirect⟩ := @exists_border s names c hs hexports hc hk
  by_cases hne : d = c
  · exact leavesRoom_of_liesIn (hredirect e (hne ▸ he)) (hexport e' he') (.inr le_rfl)
  · obtain ⟨e'', hedits, hlies⟩ := @exists_exportEdit s names c hs hexports hc hk
    rw [hedits, List.mem_singleton] at he'
    exact leavesRoom_of_ne hs hd hc hne (liesIn_of_mem_redirectsIn hs hd he) (he' ▸ hlies)

/-! ## Edits of two passes -/

theorem pairwise_stageEdits (hs : s.IsLaidOut) (hexports : s.exportsAreShaped = true)
    (stage : Stage) : (s.stageEdits names imports stage).Pairwise leavesRoom := by
  cases stage with
  | imports => exact pairwise_importEdits hs
  | exports => exact pairwise_exportEdits hs hexports
  | references => exact pairwise_visitEdits hs
  | redirects => exact pairwise_dynamicImports hs

/-- The edits of a pass leave room for those of another pass that follows, in the usual order or in
another one in which imports are collected before exports and references are dealt with. -/
theorem leavesRoom_of_stages (hs : s.IsLaidOut) (hexports : s.exportsAreShaped = true)
    {stage stage' : Stage} (hne : stage ≠ stage')
    (himports : stage' = .imports → stage = .redirects) :
    ∀ e ∈ s.stageEdits names imports stage, ∀ e' ∈ s.stageEdits names imports stage',
      e.leavesRoom e' := by
  have hall := @pairwise_allEdits s names imports hs hexports
  rw [allEdits, List.pairwise_append, List.pairwise_append, List.pairwise_append] at hall
  obtain ⟨-, ⟨-, ⟨-, -, hreferences⟩, hexported⟩, himported⟩ := hall
  intro e he e' he'
  cases stage with
  | imports =>
    cases stage' with
    | imports => exact absurd rfl hne
    | exports => exact himported e he e' (List.mem_append_left _ he')
    | references =>
      exact himported e he e' (List.mem_append_right _ (List.mem_append_left _ he'))
    | redirects =>
      exact himported e he e' (List.mem_append_right _ (List.mem_append_right _ he'))
  | exports =>
    cases stage' with
    | imports => cases himports rfl
    | exports => exact absurd rfl hne
    | references => exact hexported e he e' (List.mem_append_left _ he')
    | redirects => exact hexported e he e' (List.mem_append_right _ he')
  | references =>
    obtain ⟨w, hw, _, he⟩ := exists_visit_of_mem_rebindEdits he
    cases stage' with
    | imports => cases himports rfl
    | exports =>
      obtain ⟨c, hc, he'⟩ := List.mem_flatMap.1 he'
      obtain ⟨hmem, hk⟩ := List.mem_filter.1 hc
      exact leavesRoom_of_visit_export hs hexports hw he hmem (of_decide_eq_true hk) he'
    | references => exact absurd rfl hne
    | redirects =>
      obtain ⟨c, hc, -, he'⟩ := mem_dynamicImports_edits he'
      exact leavesRoom_of_visit_redirect hs hexports hw he hc he'
  | redirects =>
    obtain ⟨d, hd, hkind, he⟩ := mem_dynamicImports_edits he
    cases stage' with
    | imports =>
      obtain ⟨c, hc, he'⟩ := List.mem_flatMap.1 he'
      obtain ⟨hmem, hk⟩ := List.mem_filter.1 hc
      obtain rfl := List.mem_singleton.1 he'
      refine leavesRoom_of_ne hs hd hmem ?_ (liesIn_of_mem_redirectsIn hs hd he) ⟨le_rfl, le_rfl⟩
      rintro rfl
      exact hkind (of_decide_eq_true hk)
    | exports =>
      obtain ⟨c, hc, he'⟩ := List.mem_flatMap.1 he'
      obtain ⟨hmem, hk⟩ := List.mem_filter.1 hc
      exact leavesRoom_of_redirect_export hs hexports hd he hmem (of_decide_eq_true hk) he'
    | references =>
      obtain ⟨w, hw, _, he'⟩ := exists_visit_of_mem_rebindEdits he'
      exact leavesRoom_of_redirect_visit hs hexports hd he hw he'
    | redirects => exact absurd rfl hne

theorem pairwise_flatMap_stageEdits (hs : s.IsLaidOut) (hexports : s.exportsAreShaped = true)
    {order : List Stage}
    (horder : order.Pairwise fun stage stage' => stage ≠ stage' ∧
      (stage' = .imports → stage = .redirects)) :
    (order.flatMap (s.stageEdits names imports)).Pairwise leavesRoom := by
  rw [List.pairwise_flatMap]
  exact ⟨fun stage _ => pairwise_stageEdits hs hexports stage,
    horder.imp fun h => leavesRoom_of_stages hs hexports h.1 h.2⟩

/-! ## The rendering -/

theorem slot?_of_mem_stageEdits (hs : s.IsLaidOut) (hexports : s.exportsAreShaped = true)
    {stage : Stage} (hstage : stage ≠ .references) (he : e ∈ s.stageEdits names imports stage) :
    e.slot? = none := by
  cases stage with
  | imports =>
    obtain ⟨c, -, he⟩ := List.mem_flatMap.1 he
    rw [List.mem_singleton.1 he, slot?]
  | exports =>
    obtain ⟨c, hc, he⟩ := List.mem_flatMap.1 he
    obtain ⟨hmem, hk⟩ := List.mem_filter.1 hc
    rcases exported_cases s names {} (of_decide_eq_true hk)
      (isExportShaped_of_mem hexports hmem (of_decide_eq_true hk)) with
      ⟨role, i, part, keyword, h⟩ | ⟨-, -, hedits, -⟩
    · rw [h.edits, List.mem_singleton] at he
      rw [he, exportedEdit]
      split <;> rfl
    · rw [hedits, List.mem_singleton] at he
      rw [he, slot?]
  | references => exact absurd rfl hstage
  | redirects =>
    obtain ⟨c, hc, -, he⟩ := mem_dynamicImports_edits he
    obtain ⟨t, n, text, rfl, -⟩ := exists_spot_of_redirect hs hc he
    rfl

/-- Texts are inserted by one pass alone, so their order is that of this pass. -/
theorem sameOrder_stageEdits (hs : s.IsLaidOut) (hexports : s.exportsAreShaped = true)
    {order order' : List Stage} (hperm : order.Perm order') (hnodup : order.Nodup) :
    SameOrder (order.flatMap (s.stageEdits names imports))
      (order'.flatMap (s.stageEdits names imports)) := by
  intro slot
  rw [List.filter_flatMap, List.filter_flatMap]
  refine flatMap_of_perm hperm (hnodup.imp fun {stage stage'} hne => ?_)
  have hnone {stage : Stage} (h : stage ≠ .references) :
      (s.stageEdits names imports stage).filter (fun e => e.slot? = some slot) = [] := by
    refine List.filter_eq_nil_iff.2 fun e he => ?_
    rw [slot?_of_mem_stageEdits hs hexports h he]
    simp
  by_cases h : stage = .references
  · exact .inr (hnone fun h' => hne (h.trans h'.symm))
  · exact .inl (hnone h)

theorem rendering_of_stages (hs : s.IsLaidOut) (hexports : s.exportsAreShaped = true)
    {order : List Stage} (hperm : Stage.all.Perm order)
    (hproper : ∀ e ∈ s.allEdits names imports, e.IsProper) (base : Text) :
    rendering base (order.flatMap (s.stageEdits names imports)) =
      rendering base (s.allEdits names imports) := by
  have hnodup : Stage.all.Nodup := by decide
  rw [← flatMap_stageEdits] at hproper ⊢
  refine (rendering_of_perm (hperm.flatMap_right _) hproper ?_
    (sameOrder_stageEdits hs hexports hperm hnodup) base).symm
  rw [flatMap_stageEdits]
  exact pairwise_allEdits hs hexports

end Script

end RegistryScript
