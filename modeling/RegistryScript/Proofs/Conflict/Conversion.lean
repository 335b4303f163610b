import Mathlib
import RegistryScript.Proofs.Conflict.Apart
import RegistryScript.Proofs.Conflict.Orderly
import RegistryScript.Proofs.Printing.Module
import RegistryScript.Proofs.Transform

/-! # No conversion meets a conflict

* `Edit.LiesIn`: an edit touches nothing beside a range.
* `Script.pairwise_allEdits`: the edits of all passes leave room for those that come later.
* `isConflict_of_convertBody`: so the passes, one after the other, meet no conflict.
* `conversion_ne_conflict`: no module is refused for one.
-/

namespace RegistryScript
set_option autoImplicit false

open Edit

/-! ## Edits in a range -/

/-- An edit is made inside a range or at its ends. -/
def Edit.LiesIn (a b : Nat) : Edit → Prop
  | .prepend _ | .append _ => False
  | .insertBefore p _ | .insertAfter p _ => (a : Int) ≤ p ∧ p ≤ b
  | .replace start stop _ | .delete start stop => (a : Int) ≤ start ∧ stop ≤ b

theorem Edit.leavesRoom_of_liesIn {a b a' b' : Nat} {e e' : Edit} (h : e.LiesIn a b)
    (h' : e'.LiesIn a' b') (hapart : b ≤ a' ∨ b' ≤ a) : e.leavesRoom e' := by
  intro r hr
  have hin : (a : Int) ≤ r.1 ∧ r.2 ≤ b := by
    cases e with
    | replace start stop text =>
      rw [range?, Option.ite_none_right_eq_some] at hr
      rw [← Option.some.inj hr.2]
      exact h
    | delete start stop =>
      rw [range?, Option.ite_none_right_eq_some] at hr
      rw [← Option.some.inj hr.2]
      exact h
    | _ => cases hr
  cases e' <;> simp only [LiesIn, StaysClear] at h' ⊢ <;> omega

namespace Script

variable {s : Script} {names : Settings} {imports : ImportTable} {c d : Node} {e e' : Edit}

theorem pairwise_statementEdits (hs : s.IsLaidOut) {cs : List Node} {E : Node → List Edit}
    (hcs : cs.Sublist s.statements) (hself : ∀ c ∈ cs, (E c).Pairwise leavesRoom)
    (hin : ∀ c ∈ cs, ∀ e ∈ E c, e.LiesIn (s.startAt c) (s.stopAt c)) :
    (cs.flatMap E).Pairwise leavesRoom := by
  rw [List.pairwise_flatMap]
  refine ⟨hself, ((pairwise_statements hs).sublist hcs).imp_of_mem ?_⟩
  exact fun hc hd hle e he e' he' => leavesRoom_of_liesIn (hin _ hc e he) (hin _ hd e' he') (.inl hle)

theorem leavesRoom_of_ne (hs : s.IsLaidOut) (hc : c ∈ s.statements) (hd : d ∈ s.statements)
    (hne : c ≠ d) (h : e.LiesIn (s.startAt c) (s.stopAt c))
    (h' : e'.LiesIn (s.startAt d) (s.stopAt d)) : e.leavesRoom e' :=
  leavesRoom_of_liesIn h h' (statements_apart_of_ne hs hc hd hne)

/-! ## The edits of a statement -/

theorem isExportShaped_of_mem (hexports : s.exportsAreShaped = true) (hc : c ∈ s.statements)
    (hk : c.kind = .exportStatement) : c.isExportShaped = true := by
  have := List.all_eq_true.1 hexports c hc
  simpa [hk] using this

theorem exists_exportEdit (hs : s.IsLaidOut) (hexports : s.exportsAreShaped = true)
    (hc : c ∈ s.statements) (hk : c.kind = .exportStatement) :
    ∃ e, exportEdits s names c = [e] ∧ e.LiesIn (s.startAt c) (s.stopAt c) := by
  have hspan := (Node.all_iff.1 hs.spans).2 c (mem_root_of_mem_statements hc)
  rcases exported_cases s names {} hk (isExportShaped_of_mem hexports hc hk) with
    ⟨role, i, part, keyword, h⟩ | ⟨-, -, hedits, -⟩
  · obtain ⟨h1, h2, h3, h4⟩ := h.bounds hs hspan
    refine ⟨_, h.edits, ?_⟩
    unfold exportedEdit
    split <;> exact ⟨by exact_mod_cast h1, by exact_mod_cast h3.trans h4⟩
  · exact ⟨_, hedits, le_rfl, le_rfl⟩

theorem exists_spot_of_redirect (hs : s.IsLaidOut) (hc : c ∈ s.statements)
    (he : e ∈ s.redirectsIn names c) :
    ∃ t n text, e = s.replacement n text ∧ Trail.Spots c t n ∧ n.kind.isNameUse = false := by
  have hroot := mem_root_of_mem_statements hc
  obtain ⟨t, n, text, rfl, hspots, hcases⟩ := spots_of_mem_redirectsIn hs
    ((Node.all_iff.1 hs.spans).2 c hroot) ((Node.all_iff.1 hs.sound).2 c hroot) he
  refine ⟨t, n, text, rfl, hspots, ?_⟩
  rcases hcases with ⟨hk, -⟩ | ⟨hk, -⟩ <;> rw [hk] <;> rfl

theorem liesIn_of_mem_redirectsIn (hs : s.IsLaidOut) (hc : c ∈ s.statements)
    (he : e ∈ s.redirectsIn names c) : e.LiesIn (s.startAt c) (s.stopAt c) := by
  obtain ⟨t, n, text, rfl, hspots, -⟩ := exists_spot_of_redirect hs hc he
  have hb := bounds_of_leads hs ((Node.all_iff.1 hs.spans).2 c (mem_root_of_mem_statements hc))
    hspots.leads
  exact ⟨by exact_mod_cast hb.1, by exact_mod_cast hb.2⟩

theorem exists_spot_of_visit (hs : s.IsLaidOut) (hexports : s.exportsAreShaped = true) {v : Visit}
    (hv : v ∈ s.visits) (hword : v.node.isWord = true) :
    ∃ t, Trail.Spots v.statement t v.node := by
  obtain ⟨hc, hv⟩ := mem_visits hs hv
  have hroot := mem_root_of_mem_statements hc
  have hspan := (Node.all_iff.1 hs.spans).2 _ hroot
  have hsound := (Node.all_iff.1 hs.sound).2 _ hroot
  have hne := (mem_visitsOf hs hroot hv).1
  rw [visitsOf, if_neg hne, statementVisits] at hv
  by_cases hk : v.statement.kind = .exportStatement
  · rcases exported_cases s {} {} hk (isExportShaped_of_mem hexports hc hk) with
      ⟨role, i, part, keyword, h⟩ | ⟨hparts, -⟩
    · obtain ⟨j, hj, hpart, -⟩ := Node.exists_child h.child
      obtain rfl : j = i := Option.some.inj (hj.symm.trans h.index)
      have hmem := List.mem_of_getElem? hpart
      rw [h.parts, List.flatMap_singleton] at hv
      obtain ⟨-, t, -, hspots⟩ := spots_of_mem_visitsIn hs ((Node.all_iff.1 hspan).2 part hmem)
        ((Node.all_iff.1 hsound).2 part hmem) hv hword
      refine ⟨_, hspots.outer hpart ?_⟩
      rw [Node.isPiece, Node.isWord, h.kind]
      rfl
    · rw [hparts] at hv
      exact absurd hv List.not_mem_nil
  · rw [walkedParts, if_neg hk, List.flatMap_singleton] at hv
    obtain ⟨-, t, -, hspots⟩ := spots_of_mem_visitsIn hs hspan hsound hv hword
    exact ⟨t, hspots⟩

theorem leavesRoom_of_visit_redirect (hs : s.IsLaidOut) (hexports : s.exportsAreShaped = true)
    {v : Visit} (hv : v ∈ s.visits) {constants : List Text}
    (he : e ∈ s.visitEdits imports constants v) (hc : c ∈ s.statements)
    (he' : e' ∈ s.redirectsIn names c) : e.leavesRoom e' := by
  obtain ⟨hword, hcases⟩ := mem_visitEdits he
  have hvisited := visitedIn_of_mem_visits hs hv
  have hst := (mem_visits hs hv).1
  rcases hcases with ⟨text, rfl⟩ | ⟨text, rfl⟩ | ⟨text, rfl⟩
  · by_cases hne : v.statement = c
    · -- A name is no callee and no string, so it stands elsewhere in the statement.
      obtain ⟨t, hspots⟩ := exists_spot_of_visit hs hexports hv hword
      obtain ⟨t', n, text', rfl, hspots', hkind⟩ := exists_spot_of_redirect hs hc he'
      rw [hne] at hspots
      have hspan := (Node.all_iff.1 hs.spans).2 c (mem_root_of_mem_statements hc)
      refine leavesRoom_of_apart (apart_of_spots hs hspan hspots hspots' ?_)
      rintro rfl
      rw [← leads_unique hspots.leads hspots'.leads, isNameUse_of_mem_visitEdits he] at hkind
      exact nomatch hkind
    · refine leavesRoom_of_ne hs hst hc hne ⟨?_, ?_⟩ (liesIn_of_mem_redirectsIn hs hc he')
      · exact_mod_cast hvisited.start_le
      · exact_mod_cast hvisited.le_stop
  · exact fun r hr => nomatch hr
  · exact fun r hr => nomatch hr

theorem leavesRoom_of_export_redirect (hs : s.IsLaidOut) (hexports : s.exportsAreShaped = true)
    (hc : c ∈ s.statements) (hk : c.kind = .exportStatement) (he : e ∈ exportEdits s names c)
    (hd : d ∈ s.statements) (he' : e' ∈ s.redirectsIn names d) : e.leavesRoom e' := by
  have hin' := liesIn_of_mem_redirectsIn hs hd he'
  by_cases hne : c = d
  · subst hne
    have hroot := mem_root_of_mem_statements hc
    have hspan := (Node.all_iff.1 hs.spans).2 c hroot
    have hsound := (Node.all_iff.1 hs.sound).2 c hroot
    rcases exported_cases s names {} hk (isExportShaped_of_mem hexports hc hk) with
      ⟨role, i, part, keyword, h⟩ | ⟨-, hcalls, -, -⟩
    · -- The calls stand in the exported part, behind what is overwritten.
      rw [h.redirectsIn] at he'
      split at he'
      · have hmem := Node.mem_of_child? h.child
        obtain ⟨t, n, text, rfl, hspots, -⟩ := spots_of_mem_redirectsIn hs
          ((Node.all_iff.1 hspan).2 part hmem) ((Node.all_iff.1 hsound).2 part hmem) he'
        have hb := bounds_of_leads hs ((Node.all_iff.1 hspan).2 part hmem) hspots.leads
        rw [h.edits, List.mem_singleton] at he
        subst he
        intro r hr
        obtain rfl := range_of_exportedEdit hr
        exact .inr (Int.ofNat_le.2 hb.1)
      · exact absurd he' List.not_mem_nil
    · rw [redirectsIn_of_callsOnlyAt hk hcalls] at he'
      obtain ⟨place, -, hin⟩ := List.mem_flatMap.1 he'
      rw [if_neg (by nofun)] at hin
      exact absurd hin List.not_mem_nil
  · obtain ⟨_, hedits, hin⟩ := @exists_exportEdit s names c hs hexports hc hk
    rw [hedits, List.mem_singleton] at he
    exact leavesRoom_of_ne hs hc hd hne (he ▸ hin) hin'

/-! ## The edits of all passes -/

theorem pairwise_importEdits (hs : s.IsLaidOut) : s.importEdits.Pairwise leavesRoom := by
  refine pairwise_statementEdits hs List.filter_sublist (fun c _ => List.pairwise_singleton _ _) ?_
  intro c _ e he
  rw [List.mem_singleton.1 he]
  exact ⟨le_rfl, le_rfl⟩

theorem pairwise_exportEdits (hs : s.IsLaidOut) (hexports : s.exportsAreShaped = true) :
    ((s.statements.filter fun n => n.kind = .exportStatement).flatMap
      (exportEdits s names)).Pairwise leavesRoom := by
  have hone : ∀ c ∈ s.statements.filter fun n => n.kind = .exportStatement,
      ∃ e, exportEdits s names c = [e] ∧ e.LiesIn (s.startAt c) (s.stopAt c) := by
    intro c hc
    obtain ⟨hmem, hk⟩ := List.mem_filter.1 hc
    exact exists_exportEdit hs hexports hmem (of_decide_eq_true hk)
  refine pairwise_statementEdits hs List.filter_sublist (fun c hc => ?_) fun c hc e he => ?_
  · obtain ⟨e, hedits, -⟩ := hone c hc
    rw [hedits]
    exact List.pairwise_singleton _ _
  · obtain ⟨e', hedits, hin⟩ := hone c hc
    rw [hedits, List.mem_singleton] at he
    exact he ▸ hin

theorem mem_dynamicImports_edits (he : e ∈ s.dynamicImports.flatMap (redirectEdits s names)) :
    ∃ c ∈ s.statements, c.kind ≠ .importStatement ∧ e ∈ s.redirectsIn names c := by
  rw [dynamicImports_eq] at he
  obtain ⟨c, hc, he⟩ := List.mem_flatMap.1 he
  split at he
  · exact absurd he List.not_mem_nil
  · next hk => exact ⟨c, hc, hk, he⟩

theorem pairwise_dynamicImports (hs : s.IsLaidOut) :
    (s.dynamicImports.flatMap (redirectEdits s names)).Pairwise leavesRoom := by
  rw [dynamicImports_eq]
  refine pairwise_statementEdits hs (.refl _) (fun c hc => ?_) fun c hc e he => ?_
  · split
    · exact .nil
    · have hroot := mem_root_of_mem_statements hc
      exact pairwise_redirectsIn hs ((Node.all_iff.1 hs.spans).2 c hroot)
        ((Node.all_iff.1 hs.sound).2 c hroot)
  · split at he
    · exact absurd he List.not_mem_nil
    · exact liesIn_of_mem_redirectsIn hs hc he

theorem pairwise_allEdits (hs : s.IsLaidOut) (hexports : s.exportsAreShaped = true) :
    (s.allEdits names imports).Pairwise leavesRoom := by
  rw [allEdits, List.pairwise_append, List.pairwise_append, List.pairwise_append]
  -- Edits of one pass, then those of references and calls, exports and both, imports and all three.
  refine ⟨pairwise_importEdits hs, ⟨pairwise_exportEdits hs hexports,
    ⟨pairwise_visitEdits hs, pairwise_dynamicImports hs, ?_⟩, ?_⟩, ?_⟩
  · intro e he e' he'
    obtain ⟨v, hv, _, he⟩ := exists_visit_of_mem_rebindEdits he
    obtain ⟨c, hc, -, he'⟩ := mem_dynamicImports_edits he'
    exact leavesRoom_of_visit_redirect hs hexports hv he hc he'
  · intro e he e' he'
    obtain ⟨c, hc, he⟩ := List.mem_flatMap.1 he
    obtain ⟨hmem, hk⟩ := List.mem_filter.1 hc
    rcases List.mem_append.1 he' with he' | he'
    · obtain ⟨v, hv, _, he'⟩ := exists_visit_of_mem_rebindEdits he'
      exact leavesRoom_of_mem_exportEdits hs hexports hmem (of_decide_eq_true hk) he hv he'
    · obtain ⟨d, hd, -, he'⟩ := mem_dynamicImports_edits he'
      exact leavesRoom_of_export_redirect hs hexports hmem (of_decide_eq_true hk) he hd he'
  · intro e he e' he'
    obtain ⟨c, hc, he⟩ := List.mem_flatMap.1 he
    obtain ⟨hmem, hk⟩ := List.mem_filter.1 hc
    rw [decide_eq_true_eq] at hk
    obtain rfl := List.mem_singleton.1 he
    have hin : (Edit.delete (s.startAt c) (s.stopAt c)).LiesIn (s.startAt c) (s.stopAt c) :=
      ⟨le_rfl, le_rfl⟩
    rcases List.mem_append.1 he' with he' | he'
    · obtain ⟨d, hd, he'⟩ := List.mem_flatMap.1 he'
      obtain ⟨hmem', hk'⟩ := List.mem_filter.1 hd
      rw [decide_eq_true_eq] at hk'
      obtain ⟨_, hedits, hin'⟩ := @exists_exportEdit s names d hs hexports hmem' hk'
      rw [hedits, List.mem_singleton] at he'
      refine leavesRoom_of_ne hs hmem hmem' ?_ hin (he' ▸ hin')
      rintro rfl
      exact absurd (hk.symm.trans hk') (by decide)
    rcases List.mem_append.1 he' with he' | he'
    · obtain ⟨v, hv, _, he'⟩ := exists_visit_of_mem_rebindEdits he'
      exact leavesRoom_of_import hs hmem hk hv he'
    · obtain ⟨d, hd, hne, he'⟩ := mem_dynamicImports_edits he'
      refine leavesRoom_of_ne hs hmem hd ?_ hin (liesIn_of_mem_redirectsIn hs hd he')
      rintro rfl
      exact hne hk

end Script

/-! ## Conversions -/

variable {s : Script} {names : Settings}

theorem convertBody_eq : convertBody s names =
    (do collectImports s names; registerExports s names) >>= fun _ =>
      rebindReferences s >>= fun k => redirectImports s names >>= fun _ => pure k := by
  rw [convertBody, bind_assoc]

theorem isConflict_of_convertBody (hs : s.IsLaidOut) (hexports : s.exportsAreShaped = true)
    {f : Fault} {d : Draft}
    (h : outcome (convertBody s names) (Draft.ofText s.text) = (.error f, d)) :
    f.isConflict = false := by
  -- The edits of the references depend on the table that the first two passes fill, so these two are
  -- taken together, and the rest starts from the draft they leave.
  have hfront : Orderly s (do collectImports s names; registerExports s names)
      (Draft.ofText s.text) (s.importEdits ++
        (s.statements.filter fun n => n.kind = .exportStatement).flatMap (exportEdits s names)) :=
    orderly_bind orderly_collectImports fun _ _ h =>
      ⟨(collectImports_log h).takes, orderly_registerExports⟩
  rw [convertBody_eq] at h
  rcases hrun : outcome (do collectImports s names; registerExports s names)
    (Draft.ofText s.text) with ⟨f' | u, d₂⟩
  · rw [outcome_bind_of_error hrun] at h
    have hroom := @Script.pairwise_allEdits s names {} hs hexports
    rw [Script.allEdits, ← List.append_assoc] at hroom
    refine hfront [] Overlay.takes_nil (List.pairwise_append.1 hroom).1 f d₂ ?_
    rw [hrun, Except.error.inj (Prod.mk.inj h).1]
  · rw [outcome_bind_of_ok hrun] at h
    obtain ⟨hawaits, hconstants⟩ := awaits_visits hs hexports hrun
    have hrest : Orderly s (rebindReferences s >>= fun k => redirectImports s names >>= fun _ =>
        pure k) d₂ (s.rebindEdits d₂.imports d₂.helperConstants s.visits ++
          s.dynamicImports.flatMap (redirectEdits s names)) :=
      orderly_bind orderly_rebindReferences fun _ _ h => ⟨(rebindReferences_log h).takes,
        orderly_bind_last orderly_redirectImports fun _ => .of_pure _⟩
    rw [hconstants] at hrest
    refine hrest _ hawaits.takes ?_ f d h
    rw [List.append_assoc]
    exact Script.pairwise_allEdits hs hexports

theorem not_isConflict_of_ofFault {id id' : Text} {f : Fault} {e : EditError}
    (h : TransformError.ofFault id f = .conflict id' e) : f.isConflict = true := by
  unfold TransformError.ofFault at h
  split at h
  · rfl
  · exact nomatch h

theorem exists_conflict_of_convert {id id' : Text} {css : Value} {e : EditError}
    (h : convert names id css s = .error (.conflict id' e)) :
    ∃ f d, outcome (convertBody s names) (Draft.ofText s.text) = (.error f, d) ∧
      f.isConflict = true := by
  rw [convert] at h
  rcases hrun : (convertBody s names).run (Draft.ofText s.text) with ⟨f | k, d⟩
  · rw [hrun] at h
    exact ⟨f, d, hrun, not_isConflict_of_ofFault (Except.error.inj h)⟩
  · rw [hrun] at h
    simp only at h
    split at h
    · exact nomatch Except.error.inj h
    · exact nomatch h

/-- For every text and every tree that is laid out over it and has shaped export statements: no pass
is refused an edit because it overlaps an earlier one, and no module with this text and tree is
refused for a conflict. -/
theorem conversion_ne_conflict {text : Text} {root : Node} (names : Settings)
    (hs : (Script.ofTree text root).IsLaidOut)
    (hexports : (Script.ofTree text root).exportsAreShaped = true) :
    (∀ start stop existing d, outcome (convertBody (Script.ofTree text root) names)
        (Draft.ofText text) ≠ (.error (.edit (.overlap start stop existing)), d)) ∧
      ∀ (read : Reader) (moduleId css : Value), read text = some root → ∀ id e,
        transform read names (.text text) moduleId css ≠ .error (.conflict id e) := by
  constructor
  · intro start stop existing d h
    exact nomatch isConflict_of_convertBody hs hexports h
  · intro read moduleId css hread id e h
    obtain ⟨id₀, rfl, hid⟩ : ∃ id₀, moduleId = .text id₀ ∧ id₀ ≠ [] := by
      unfold transform at h
      split at h
      · exact ⟨_, rfl, List.cons_ne_nil _ _⟩
      · exact nomatch h
    rw [transform_text hid] at h
    rcases @readScript_cases read text id₀ root hread with hok | ⟨e', herror, hne⟩
    · rw [hok] at h
      change (convert names id₀ css (Script.ofTree text root) >>= _) = _ at h
      cases hc : convert names id₀ css (Script.ofTree text root) with
      | ok r =>
        rw [hc] at h
        exact nomatch h
      | error e' =>
        rw [hc] at h
        obtain rfl := Except.error.inj h
        obtain ⟨f, d, hrun, hf⟩ := exists_conflict_of_convert hc
        rw [isConflict_of_convertBody hs hexports hrun] at hf
        exact nomatch hf
    · rw [herror] at h
      exact hne id e (Except.error.inj h)

theorem conversion_ne_conflict_sampleModule :
    let s := Script.ofModule sampleModule
    s.IsLaidOut ∧ s.exportsAreShaped = true ∧
      (∀ start stop existing d, outcome (convertBody s {}) (Draft.ofText s.text) ≠
        (.error (.edit (.overlap start stop existing)), d)) ∧
      ∀ id e, transform (fun _ => some s.root) {} (.text s.text) (.text "m") .null ≠
        .error (.conflict id e) := by
  obtain ⟨hs, -, hexports, -⟩ : (Script.ofModule sampleModule).IsReady :=
    Script.isReady_ofModule (by decide +kernel)
  generalize Script.ofModule sampleModule = s at hs hexports
  obtain ⟨h, htransform⟩ := @conversion_ne_conflict s.text s.root {} (hs.charted ▸ hs)
    (hs.charted ▸ hexports)
  rw [← hs.charted] at h
  exact ⟨hs, hexports, h, htransform _ _ _ rfl⟩

end RegistryScript
