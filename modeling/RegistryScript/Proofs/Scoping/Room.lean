import Mathlib
import RegistryScript.Proofs.Printing.Statement
import RegistryScript.Proofs.Scoping.Completion
import RegistryScript.Proofs.Scoping.Handling

/-! # Room for the edits of references

* `Script.wordsApart_visits`: the words that the pass visits stand apart.
* `Script.leavesRoom_of_mem_visits`: so their edits leave room for one another.
* `Script.leavesRoom_of_mem_statementEdits`: imports and exports leave room for them.
* `completes_rebindReferences`: the pass completes after the passes over imports and exports.
* `Script.isReady_ofModule`: whether a text gives a script as it is asked for can be checked.
-/

namespace RegistryScript
set_option autoImplicit false

open Edit

namespace Script

variable {s : Script} {names : Settings} {imports : ImportTable} {statement n : Node}
  {trail : Trail}

/-! ## Words -/

/-- If two visited nodes are words, they stand apart. -/
def WordsApart (s : Script) (v w : Visit) : Prop :=
  v.node.isWord = true → w.node.isWord = true →
    s.stopAt v.node ≤ s.startAt w.node ∨ s.stopAt w.node ≤ s.startAt v.node

theorem map_numbered (first : Nat) (ns : List Node) :
    (Node.numbered first ns).map Prod.snd = ns := by
  induction ns generalizing first with
  | nil => rfl
  | cons n ns ih => rw [Node.numbered, List.map_cons, ih]

theorem pairwise_numbered (hs : s.IsLaidOut) (hspan : n.all (Node.isSpanned s.text) = true) :
    (Node.numbered 0 n.children).Pairwise fun e e' => s.stopAt e.2 ≤ s.startAt e'.2 := by
  have := (hs.spanned hspan).follow.pairwise
  rwa [← map_numbered 0 n.children, List.pairwise_map] at this

theorem wordsApart_visitsIn (hs : s.IsLaidOut) (hspan : n.all (Node.isSpanned s.text) = true)
    (hsound : n.all Node.isSound = true) : (visitsIn statement trail n).Pairwise s.WordsApart := by
  induction n using Node.induct generalizing trail with
  | step n ih =>
    have hspans := (Node.all_iff.1 hspan).2
    have hsounds := (Node.all_iff.1 hsound).2
    have hchildren : (visitsAmong statement n trail 0 n.children).Pairwise s.WordsApart := by
      rw [visitsAmong_eq_flatMap, List.pairwise_flatMap]
      constructor
      · intro e he
        have hmem := (mem_numbered he).1
        split
        · exact ih e.2 hmem (hspans e.2 hmem) (hsounds e.2 hmem)
        · exact .nil
      · have hvisited : ∀ e ∈ Node.numbered 0 n.children, ∀ v ∈
            (if e.2.isNamed && !e.2.kind.isSkipped then
              visitsIn statement ((n, e.1) :: trail) e.2 else []), s.VisitedIn e.2 v := by
          intro e he v hv
          have hmem := (mem_numbered he).1
          split at hv
          · exact (mem_visitsIn hs (hspans e.2 hmem) (hsounds e.2 hmem) hv).2
          · exact absurd hv List.not_mem_nil
        refine (pairwise_numbered hs hspan).imp_of_mem fun {e e'} he he' hle v hv w hw _ _ => .inl ?_
        exact (hvisited e he v hv).le_stop.trans (hle.trans (hvisited e' he' w hw).start_le)
    rw [visitsIn_eq]
    -- The node contains what is visited inside it, but if it is a word there is nothing inside.
    refine .cons (fun w hw hword _ => ?_) hchildren
    have hleaf : n.children = [] :=
      (hs.word (Node.all_iff.1 hspan).1 (Node.all_iff.1 hsound).1 hword).1
    rw [hleaf] at hw
    exact absurd hw List.not_mem_nil

theorem exists_part_of_mem_roleVisits (hs : s.IsLaidOut)
    (hspan : statement.all (Node.isSpanned s.text) = true)
    (hsound : statement.all Node.isSound = true) {role : Role} {v : Visit}
    (hv : v ∈ roleVisits statement role) :
    ∃ (i : Nat) (part : Node), statement.children[i]? = some part ∧ part.role = some role ∧
      s.VisitedIn part v := by
  rw [roleVisits] at hv
  cases hc : statement.child? role with
  | none =>
    rw [hc] at hv
    split at hv
    · next h => cases h
    · exact absurd hv List.not_mem_nil
  | some part =>
    obtain ⟨i, hi, hpart, hrole⟩ := Node.exists_child hc
    have hmem := List.mem_of_getElem? hpart
    rw [hi, hc] at hv
    exact ⟨i, part, hpart, hrole, (mem_visitsIn hs ((Node.all_iff.1 hspan).2 part hmem)
      ((Node.all_iff.1 hsound).2 part hmem) hv).2⟩

theorem wordsApart_roleVisits (hs : s.IsLaidOut)
    (hspan : statement.all (Node.isSpanned s.text) = true)
    (hsound : statement.all Node.isSound = true) (role : Role) :
    (roleVisits statement role).Pairwise s.WordsApart := by
  rw [roleVisits]
  split
  · next part _ hc =>
    have hmem := Node.mem_of_child? hc
    exact wordsApart_visitsIn hs ((Node.all_iff.1 hspan).2 part hmem)
      ((Node.all_iff.1 hsound).2 part hmem)
  · exact .nil

theorem wordsApart_statementVisits (hs : s.IsLaidOut)
    (hspan : statement.all (Node.isSpanned s.text) = true)
    (hsound : statement.all Node.isSound = true) :
    (statementVisits statement).Pairwise s.WordsApart := by
  by_cases hk : statement.kind = .exportStatement
  · rw [statementVisits_of_export hk, List.pairwise_append]
    refine ⟨wordsApart_roleVisits hs hspan hsound _, wordsApart_roleVisits hs hspan hsound _, ?_⟩
    intro v hv w hw _ _
    obtain ⟨i, c, hc, hci, hcv⟩ := exists_part_of_mem_roleVisits hs hspan hsound hv
    obtain ⟨j, d, hd, hdj, hdw⟩ := exists_part_of_mem_roleVisits hs hspan hsound hw
    have hij : i ≠ j := by
      rintro rfl
      obtain rfl : c = d := Option.some.inj (hc.symm.trans hd)
      exact nomatch hci.symm.trans hdj
    rcases (hs.spanned hspan).follow.apart_of_ne hc hd hij with h | h
    · exact .inl (hcv.le_stop.trans (h.trans hdw.start_le))
    · exact .inr (hdw.le_stop.trans (h.trans hcv.start_le))
  · rw [statementVisits_of_not_export hk]
    exact wordsApart_visitsIn hs hspan hsound

theorem wordsApart_visits (hs : s.IsLaidOut) : s.visits.Pairwise s.WordsApart := by
  rw [visits_eq, List.pairwise_flatMap]
  constructor
  · intro c hc
    have hmem := mem_root_of_mem_statements hc
    rw [visitsOf]
    split
    · exact .nil
    · exact wordsApart_statementVisits hs ((Node.all_iff.1 hs.spans).2 c hmem)
        ((Node.all_iff.1 hs.sound).2 c hmem)
  · refine (pairwise_statements hs).imp_of_mem fun {c d} hc hd hcd v hv w hw _ _ => .inl ?_
    obtain ⟨-, -, hcv⟩ := mem_visitsOf hs (mem_root_of_mem_statements hc) hv
    obtain ⟨-, -, hdw⟩ := mem_visitsOf hs (mem_root_of_mem_statements hd) hw
    exact hcv.le_stop.trans (hcd.trans hdw.start_le)

/-! ## Edits of references -/

theorem pairwise_rebindEdits {vs : List Visit} {constants : List Text} {R : Edit → Edit → Prop}
    (h : vs.Pairwise fun v w => ∀ constants constants', ∀ e ∈ s.visitEdits imports constants v,
      ∀ e' ∈ s.visitEdits imports constants' w, R e e') :
    (s.rebindEdits imports constants vs).Pairwise R := by
  induction vs generalizing constants with
  | nil => exact .nil
  | cons v vs ih =>
    obtain ⟨hv, hvs⟩ := List.pairwise_cons.1 h
    rw [rebindEdits, List.pairwise_append]
    refine ⟨?_, ih hvs, fun e he e' he' => ?_⟩
    · rw [visitEdits]
      split
      · exact .nil
      · exact List.pairwise_singleton _ _
      · exact List.pairwise_singleton _ _
      · split
        · exact .nil
        · exact List.pairwise_singleton _ _
    · obtain ⟨w, hw, constants', hin⟩ := exists_visit_of_mem_rebindEdits he'
      exact hv w hw constants constants' e he e' hin

section Visit

variable {w : Visit} {constants : List Text} {e : Edit} (hs : s.IsLaidOut) (hw : w ∈ s.visits)
  (he : e ∈ s.visitEdits imports constants w)
include hs hw he

theorem word_of_mem_visitEdits : s.startAt w.node < s.stopAt w.node := by
  have hin := visitedIn_of_mem_visits hs hw
  exact (hs.word (Node.all_iff.1 hin.spans).1 (Node.all_iff.1 hin.sound).1 (mem_visitEdits he).1).2

theorem staysClear_of_mem_visitEdits {a b : Nat}
    (hnode : s.stopAt w.node ≤ a ∨ b ≤ s.startAt w.node)
    (hstatement : s.startAt w.statement ≤ a ∨ b ≤ s.startAt w.statement) : StaysClear a b e := by
  have hlt := word_of_mem_visitEdits hs hw he
  rcases (mem_visitEdits he).2 with ⟨text, rfl⟩ | ⟨text, rfl⟩ | ⟨text, rfl⟩ <;> unfold StaysClear <;>
    omega

theorem fitsIn_of_mem_visitEdits : e.FitsIn s.text.length := by
  have hlt := word_of_mem_visitEdits hs hw he
  have hin := visitedIn_of_mem_visits hs hw
  have hstop := (hs.spanned hin.spans).stop_le
  have hle := hin.start_le
  rcases (mem_visitEdits he).2 with ⟨text, rfl⟩ | ⟨text, rfl⟩ | ⟨text, rfl⟩ <;> unfold FitsIn <;>
    omega

end Visit

theorem leavesRoom_of_mem_visits (hs : s.IsLaidOut) {v w : Visit} (hv : v ∈ s.visits)
    (hw : w ∈ s.visits) (hapart : s.WordsApart v w) {constants constants' : List Text} {e e' : Edit}
    (he : e ∈ s.visitEdits imports constants v) (he' : e' ∈ s.visitEdits imports constants' w) :
    e.leavesRoom e' := by
  intro r hr
  obtain ⟨hword, hcases⟩ := mem_visitEdits he
  rcases hcases with ⟨text, rfl⟩ | ⟨text, rfl⟩ | ⟨text, rfl⟩
  · rw [range?, Option.ite_none_right_eq_some] at hr
    obtain rfl := Option.some.inj hr.2
    refine staysClear_of_mem_visitEdits hs hw he' (hapart hword (mem_visitEdits he').1).symm ?_
    have hle := (visitedIn_of_mem_visits hs hv).start_le
    have hstop := (visitedIn_of_mem_visits hs hv).le_stop
    rcases statements_apart hs (mem_visits hs hv).1 (mem_visits hs hw).1 with h | h
    · exact .inl (h.trans hle)
    · exact .inr (hstop.trans h)
  · cases hr
  · cases hr

theorem pairwise_visitEdits (hs : s.IsLaidOut) {constants : List Text} :
    (s.rebindEdits imports constants s.visits).Pairwise leavesRoom := by
  refine pairwise_rebindEdits ((wordsApart_visits hs).imp_of_mem ?_)
  exact fun hv hw hapart _ _ e he e' he' => leavesRoom_of_mem_visits hs hv hw hapart he he'

/-! ## Edits of imports and exports -/

theorem staysClear_of_other (hs : s.IsLaidOut) {c : Node} (hc : c ∈ s.statements) {w : Visit}
    (hw : w ∈ s.visits) (hne : c ≠ w.statement) {constants : List Text} {e : Edit}
    (he : e ∈ s.visitEdits imports constants w) {a b : Nat} (ha : s.startAt c ≤ a)
    (hb : b ≤ s.stopAt c) : StaysClear a b e := by
  have hst := (mem_visits hs hw).1
  have hin := visitedIn_of_mem_visits hs hw
  have hle := hin.start_le
  have hstop := hin.le_stop
  have hword := word_of_mem_visitEdits hs hw he
  refine staysClear_of_mem_visitEdits hs hw he ?_ ?_
  · rcases statements_apart_of_ne hs hc hst hne with h | h <;> omega
  · rcases statements_apart_of_ne hs hc hst hne with h | h <;> omega

theorem Exported.visitedIn {role : Role} {i : Nat} {part keyword : Node}
    (h : s.Exported names imports statement role i part keyword) (hs : s.IsLaidOut)
    (hspan : statement.all (Node.isSpanned s.text) = true)
    (hsound : statement.all Node.isSound = true) {w : Visit} (hw : w ∈ visitsOf statement) :
    s.VisitedIn part w := by
  have hne : statement.kind ≠ .importStatement := by
    rw [h.kind]
    nofun
  have hmem := Node.mem_of_child? h.child
  rw [visitsOf, if_neg hne, statementVisits, h.parts, List.flatMap_singleton] at hw
  exact (mem_visitsIn hs ((Node.all_iff.1 hspan).2 part hmem) ((Node.all_iff.1 hsound).2 part hmem)
    hw).2

theorem range_of_exportedEdit {part : Node} {r : Int × Int}
    (hr : (s.exportedEdit names statement part).range? = some r) :
    r = (↑(s.exportStart statement), ↑(s.startAt part)) := by
  unfold exportedEdit at hr
  split at hr <;> rw [range?, Option.ite_none_right_eq_some] at hr <;>
    exact (Option.some.inj hr.2).symm

theorem leavesRoom_of_mem_exportEdits (hs : s.IsLaidOut) (hexports : s.exportsAreShaped = true)
    {c : Node} (hc : c ∈ s.statements) (hk : c.kind = .exportStatement) {e e' : Edit}
    (he : e ∈ exportEdits s names c) {w : Visit} (hw : w ∈ s.visits) {constants : List Text}
    (he' : e' ∈ s.visitEdits imports constants w) : e.leavesRoom e' := by
  intro r hr
  have hroot := mem_root_of_mem_statements hc
  have hspan := (Node.all_iff.1 hs.spans).2 c hroot
  have hsound := (Node.all_iff.1 hs.sound).2 c hroot
  have hshape : c.isExportShaped = true := by
    have := List.all_eq_true.1 hexports c hc
    simpa [hk] using this
  rcases exported_cases s names imports hk hshape with
    ⟨role, i, part, keyword, h⟩ | ⟨hparts, -, hedits, -⟩
  · rw [h.edits, List.mem_singleton] at he
    subst he
    obtain rfl := range_of_exportedEdit hr
    obtain ⟨h1, h2, h3, h4⟩ := h.bounds hs hspan
    by_cases hcw : c = w.statement
    · have hin := h.visitedIn hs hspan hsound (hcw ▸ (mem_visits hs hw).2)
      refine staysClear_of_mem_visitEdits hs hw he' (.inr hin.start_le) (.inl ?_)
      rw [← hcw]
      exact h1
    · exact staysClear_of_other hs hc hw hcw he' h1 (h3.trans h4)
  · rw [hedits, List.mem_singleton] at he
    subst he
    rw [range?, Option.ite_none_right_eq_some] at hr
    obtain rfl := Option.some.inj hr.2
    refine staysClear_of_other hs hc hw ?_ he' le_rfl le_rfl
    rintro rfl
    have hvisits := (mem_visits hs hw).2
    rw [visitsOf, if_neg (by rw [hk]; decide), statementVisits, hparts] at hvisits
    exact absurd hvisits List.not_mem_nil

theorem leavesRoom_of_import (hs : s.IsLaidOut) {c : Node} (hc : c ∈ s.statements)
    (hk : c.kind = .importStatement) {w : Visit} (hw : w ∈ s.visits) {constants : List Text}
    {e' : Edit} (he' : e' ∈ s.visitEdits imports constants w) :
    (Edit.delete (s.startAt c) (s.stopAt c)).leavesRoom e' := by
  intro r hr
  rw [range?, Option.ite_none_right_eq_some] at hr
  obtain rfl := Option.some.inj hr.2
  refine staysClear_of_other hs hc hw ?_ he' le_rfl le_rfl
  rintro rfl
  exact (mem_visitsOf hs (mem_root_of_mem_statements hc) (mem_visits hs hw).2).1 hk

end Script

/-! ## Completion -/

variable {s : Script} {names : Settings} {d : Draft}

theorem awaits_visits {u : Unit} (hs : s.IsLaidOut) (hexports : s.exportsAreShaped = true)
    (h : Succeeds (do collectImports s names; registerExports s names) (Draft.ofText s.text) u d) :
    s.Awaits ((s.statements.filter fun n => n.kind = .importStatement).flatMap
      (fun n => [.delete (s.startAt n) (s.stopAt n)]) ++
        (s.statements.filter fun n => n.kind = .exportStatement).flatMap (exportEdits s names))
      d s.visits ∧ d.helperConstants = [] := by
  obtain ⟨_, d₁, h₁, h₂⟩ := succeeds_bind.1 h
  have hi := collectImports_log h₁
  have he := registerExports_log h₂
  refine ⟨⟨hi.takes.append he.takes, ?_, ?_, ?_⟩, he.constants.trans hi.constants⟩
  · intro e he
    obtain ⟨w, hw, _, hin⟩ := Script.exists_visit_of_mem_rebindEdits he
    exact Script.fitsIn_of_mem_visitEdits hs hw hin
  · intro e he e' he'
    obtain ⟨w, hw, _, hin⟩ := Script.exists_visit_of_mem_rebindEdits he'
    rcases List.mem_append.1 he with he | he
    · obtain ⟨c, hc, he⟩ := List.mem_flatMap.1 he
      obtain ⟨hmem, hk⟩ := List.mem_filter.1 hc
      rw [List.mem_singleton.1 he]
      exact Script.leavesRoom_of_import hs hmem (of_decide_eq_true hk) hw hin
    · obtain ⟨c, hc, he⟩ := List.mem_flatMap.1 he
      obtain ⟨hmem, hk⟩ := List.mem_filter.1 hc
      exact Script.leavesRoom_of_mem_exportEdits hs hexports hmem (of_decide_eq_true hk) he hw hin
  · exact Script.pairwise_visitEdits hs

theorem completes_rebindReferences {u : Unit} (hs : s.IsLaidOut) (hm : s.IsModule)
    (hexports : s.exportsAreShaped = true)
    (h : Succeeds (do collectImports s names; registerExports s names) (Draft.ofText s.text) u d) :
    Completes (rebindReferences s) d :=
  rebindReferences_completes hs hm (awaits_visits hs hexports h).1

/-! ## Scripts of texts -/

def Draft.ofExports (s : Script) : Draft :=
  (outcome (do collectImports s {}; registerExports s {}) (Draft.ofText s.text)).2

namespace Script

/-- What is asked of a script for its references to be rebound: its tree is laid out over its text
and has the shape of a module, and the passes over imports and exports complete. -/
structure IsReady (s : Script) : Prop where
  laidOut : s.IsLaidOut
  module : s.IsModule
  exports : s.exportsAreShaped = true
  completes : outcome (do collectImports s {}; registerExports s {}) (Draft.ofText s.text) =
    (.ok (), Draft.ofExports s)

def isReady (s : Script) : Bool :=
  s.root.all (Node.isSpanned s.text) && s.root.all Node.isSound && s.root.kind = .program &&
    s.root.all Node.isShaped && s.exportsAreShaped &&
    (outcome (do collectImports s {}; registerExports s {}) (Draft.ofText s.text)).1.toOption.isSome

theorem isReady_ofModule {text : String} (h : (ofModule text).isReady = true) :
    (ofModule text).IsReady := by
  simp only [isReady, Bool.and_eq_true, decide_eq_true_eq] at h
  obtain ⟨⟨⟨⟨⟨hspans, hsound⟩, hprogram⟩, hshaped⟩, hexports⟩, hcompletes⟩ := h
  obtain ⟨u, hu⟩ := Option.isSome_iff_exists.1 hcompletes
  exact ⟨isLaidOut_ofModule hspans hsound, ⟨hprogram, hshaped⟩, hexports,
    outcome_eq_of_toOption hu⟩

end Script

end RegistryScript
