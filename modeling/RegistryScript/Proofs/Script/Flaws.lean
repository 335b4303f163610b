import Mathlib
import RegistryScript.Proofs.Run
import RegistryScript.Proofs.Script.Offsets
import RegistryScript.Proofs.Script.Places
import RegistryScript.Proofs.Script.Positions

/-! # Where a script does not parse

A tree shows by errors and by missing nodes where its text does not parse. Only the outermost of
them are reported. The search goes through the children of a node from the last one to the first
one, and what it finds is sorted by lines and columns.

* `Node.IsOutermostFlaw`: an error or a missing node that lies in no other one.
* `Node.flaws`, `mem_flaws_iff`, `pairwise_flaws`: the outermost ones in the order of the tree.
* `Node.hasError_iff`, `Node.hasError_iff_exists`: which trees have some.
* `Script.collect_eq`: the search finds them, in the reverse order.
* `Script.diagnostics_eq`: what is reported of a script.
* `Script.flaws_reported`: all of them are reported, each one once and in the order of the text, and
  a script is refused if and only if there are some.
-/

namespace RegistryScript
set_option autoImplicit false

/-! ## Errors and missing nodes of a tree -/

namespace Node

def isFlaw (n : Node) : Bool := n.kind = .error || n.isMissing

/-- Places lead to an error or a missing node, and none of the nodes on the way is one. -/
def IsOutermostFlaw (root : Node) (places : List Nat) (n : Node) : Prop :=
  root.at? places = some n ∧ n.isFlaw = true ∧
    ∀ outer m, outer <+: places → outer ≠ places → root.at? outer = some m → m.isFlaw = false

mutual

/-- The errors and missing nodes that lie in no other one, with the places that lead to them. -/
def flaws : Node → List (List Nat × Node)
  | n@⟨kind, _, _, _, _, isMissing, children⟩ =>
    if kind = .error || isMissing then [([], n)] else flawsAmong 0 children

def flawsAmong (first : Nat) : List Node → List (List Nat × Node)
  | [] => []
  | n :: ns => n.flaws.map (fun a => (first :: a.1, a.2)) ++ flawsAmong (first + 1) ns

end

variable {n m : Node} {i : Nat} {places : List Nat}

theorem flawsAmong_eq (first : Nat) (ns : List Node) :
    flawsAmong first ns = placed flaws first ns := by
  induction ns generalizing first with
  | nil => rfl
  | cons n ns ih => rw [flawsAmong, ih]; rfl

theorem flaws_eq (n : Node) :
    n.flaws = if n.isFlaw then [([], n)] else placed flaws 0 n.children := by
  cases n
  rw [flaws, flawsAmong_eq]
  rfl

theorem flaws_of_isFlaw (h : n.isFlaw = true) : n.flaws = [([], n)] := by
  rw [flaws_eq, if_pos h]

theorem flaws_of_not_isFlaw (h : n.isFlaw = false) : n.flaws = placed flaws 0 n.children := by
  rw [flaws_eq, h, if_neg Bool.false_ne_true]

theorem isOutermostFlaw_nil : n.IsOutermostFlaw [] m ↔ m = n ∧ n.isFlaw = true := by
  constructor
  · rintro ⟨hat, hflaw, -⟩
    obtain rfl : n = m := Option.some.inj hat
    exact ⟨rfl, hflaw⟩
  · rintro ⟨rfl, hflaw⟩
    exact ⟨rfl, hflaw, fun _ _ hway hne => absurd (List.prefix_nil.1 hway) hne⟩

theorem isOutermostFlaw_cons : n.IsOutermostFlaw (i :: places) m ↔
    n.isFlaw = false ∧ ∃ c, n.children[i]? = some c ∧ c.IsOutermostFlaw places m := by
  constructor
  · rintro ⟨hat, hflaw, houter⟩
    obtain ⟨c, hc, hat⟩ := at?_cons_eq_some_iff.1 hat
    refine ⟨houter [] n List.nil_prefix (List.cons_ne_nil i places).symm rfl, c, hc, hat, hflaw, ?_⟩
    intro outer k hway hne hk
    refine houter (i :: outer) k ((List.prefix_cons_inj i).2 hway) ?_
      (at?_cons_eq_some_iff.2 ⟨c, hc, hk⟩)
    exact fun heq => hne (List.cons.inj heq).2
  · rintro ⟨hroot, c, hc, hat, hflaw, houter⟩
    refine ⟨at?_cons_eq_some_iff.2 ⟨c, hc, hat⟩, hflaw, fun outer k hway hne hk => ?_⟩
    cases outer with
    | nil =>
      obtain rfl : n = k := Option.some.inj hk
      exact hroot
    | cons j outer =>
      obtain ⟨rfl, hrest⟩ := List.cons_prefix_cons.1 hway
      obtain ⟨c', hc', hk⟩ := at?_cons_eq_some_iff.1 hk
      obtain rfl : c = c' := Option.some.inj (hc.symm.trans hc')
      exact houter outer k hrest (fun heq => hne (congrArg (j :: ·) heq)) hk

theorem mem_flaws_iff : (places, m) ∈ n.flaws ↔ n.IsOutermostFlaw places m := by
  induction places generalizing n with
  | nil =>
    rw [isOutermostFlaw_nil]
    cases h : n.isFlaw with
    | true => simp [flaws_of_isFlaw h]
    | false => simp [flaws_of_not_isFlaw h, mem_placed_iff]
  | cons i places ih =>
    rw [isOutermostFlaw_cons]
    cases h : n.isFlaw with
    | true => simp [flaws_of_isFlaw h]
    | false =>
      rw [flaws_of_not_isFlaw h, mem_placed_iff, and_iff_right rfl]
      constructor
      · rintro ⟨j, rest, c, heq, hc, hmem⟩
        obtain ⟨rfl, rfl⟩ := List.cons.inj heq
        exact ⟨c, hc, ih.1 hmem⟩
      · rintro ⟨c, hc, hflaw⟩
        exact ⟨i, places, c, rfl, hc, ih.2 hflaw⟩

theorem pairwise_flaws : n.flaws.Pairwise fun a b => a.1 < b.1 := by
  induction n using Node.induct with
  | step n ih =>
    rw [flaws_eq]
    split
    · exact List.pairwise_singleton _ _
    · exact pairwise_placed ih

/-! ## Trees with errors -/

theorem anyError_iff {ns : List Node} : anyError ns = true ↔ ∃ c ∈ ns, c.hasError = true := by
  induction ns with
  | nil => simp [anyError]
  | cons n ns ih => simp [anyError, ih]

theorem hasError_eq (n : Node) : n.hasError = (n.isFlaw || anyError n.children) := by
  cases n
  rw [hasError]
  rfl

theorem hasError_iff : n.hasError = true ↔ n.flaws ≠ [] := by
  induction n using Node.induct with
  | step n ih =>
    rw [hasError_eq]
    cases h : n.isFlaw with
    | true => simp [flaws_of_isFlaw h]
    | false =>
      rw [Bool.false_or, anyError_iff, flaws_of_not_isFlaw h]
      constructor
      · rintro ⟨c, hc, herror⟩
        obtain ⟨i, hi⟩ := List.mem_iff_getElem?.1 hc
        obtain ⟨a, ha⟩ := List.exists_mem_of_ne_nil _ ((ih c hc).1 herror)
        exact List.ne_nil_of_mem (mem_placed_iff.2 ⟨i, a.1, c, rfl, hi, ha⟩)
      · intro hne
        obtain ⟨a, ha⟩ := List.exists_mem_of_ne_nil _ hne
        obtain ⟨i, rest, c, -, hc, hmem⟩ := mem_placed_iff.1 (show (a.1, a.2) ∈ _ from ha)
        have hchild := List.mem_of_getElem? hc
        exact ⟨c, hchild, (ih c hchild).2 (List.ne_nil_of_mem hmem)⟩

theorem flaws_eq_nil (h : n.hasError = false) : n.flaws = [] := by
  by_contra hne
  rw [hasError_iff.2 hne] at h
  exact nomatch h

theorem hasError_iff_exists :
    n.hasError = true ↔ ∃ places m, n.at? places = some m ∧ m.isFlaw = true := by
  constructor
  · intro h
    obtain ⟨a, ha⟩ := List.exists_mem_of_ne_nil _ (hasError_iff.1 h)
    obtain ⟨hat, hflaw, -⟩ := mem_flaws_iff.1 (show (a.1, a.2) ∈ _ from ha)
    exact ⟨a.1, a.2, hat, hflaw⟩
  · rintro ⟨places, m, hat, hflaw⟩
    induction places generalizing n with
    | nil =>
      obtain rfl : n = m := Option.some.inj hat
      rw [hasError_eq, hflaw, Bool.true_or]
    | cons i places ih =>
      obtain ⟨c, hc, hat⟩ := at?_cons_eq_some_iff.1 hat
      rw [hasError_eq, Bool.or_eq_true, anyError_iff]
      exact .inr ⟨c, List.mem_of_getElem? hc, ih hat⟩

def isInside (t : Text) (n : Node) : Bool := n.start ≤ t.utf8.length && n.stop ≤ t.utf8.length

end Node

/-! ## Sorting by keys -/

section Keys

variable {α : Type} (key : α → Nat)

theorem le_key_trans (a b c : α) (hab : decide (key a ≤ key b) = true)
    (hbc : decide (key b ≤ key c) = true) : decide (key a ≤ key c) = true :=
  decide_eq_true ((of_decide_eq_true hab).trans (of_decide_eq_true hbc))

theorem le_key_total (a b : α) : (decide (key a ≤ key b) || decide (key b ≤ key a)) = true := by
  rw [Bool.or_eq_true, decide_eq_true_eq, decide_eq_true_eq]
  exact Nat.le_total _ _

theorem pairwise_mergeSort_key {xs : List α} :
    (xs.mergeSort fun a b => key a ≤ key b).Pairwise fun a b => key a ≤ key b :=
  (List.pairwise_mergeSort (le_key_trans key) (le_key_total key) xs).imp of_decide_eq_true

end Keys

/-! ## Diagnostics -/

namespace Script

variable {s : Script} {t : Text} {root n : Node}

def flawMessage (s : Script) (n : Node) : Text :=
  if n.isMissing then "Missing " ++ n.kind.name
  else "Unexpected " ++ Text.display ((s.textAt n).firstLine.take 30)

def diagnosticOf (s : Script) (n : Node) : Diagnostic :=
  ⟨s.text.position (s.startAt n), s.flawMessage n⟩

def flawDiagnostic (s : Script) (n : Node) : Except Fault Diagnostic :=
  if n.isMissing then s.missingDiagnostic n else s.errorDiagnostic n

theorem flawDiagnostic_eq (h : s.HasSpan n) : s.flawDiagnostic n = .ok (s.diagnosticOf n) := by
  obtain ⟨hstart, hstop⟩ := h
  rw [flawDiagnostic, diagnosticOf, flawMessage]
  split
  · rw [missingDiagnostic, hstart]
    rfl
  · rw [errorDiagnostic, textOf, hstart, hstop]
    rfl

theorem collectBackwards_eq {ns : List Node} (first : Nat)
    (h : ∀ c ∈ ns, s.collect c = c.flaws.reverse.mapM fun e => s.flawDiagnostic e.2) :
    s.collectBackwards ns =
      (placed Node.flaws first ns).reverse.mapM fun e => s.flawDiagnostic e.2 := by
  induction ns generalizing first with
  | nil => rfl
  | cons n ns ih =>
    have hrest := ih (first + 1) fun c hc => h c (List.mem_cons_of_mem n hc)
    have hplaced : (placed Node.flaws first (n :: ns)).reverse =
        (placed Node.flaws (first + 1) ns).reverse ++
          n.flaws.reverse.map fun a => (first :: a.1, a.2) := by
      rw [← Node.flawsAmong_eq, Node.flawsAmong, Node.flawsAmong_eq, List.reverse_append,
        List.map_reverse]
    rw [collectBackwards, hrest, hplaced, List.mapM_append, List.mapM_map]
    refine bind_congr fun behind => ?_
    cases hn : n.hasError with
    | true =>
      rw [if_pos rfl, h n List.mem_cons_self]
      rfl
    | false =>
      rw [if_neg Bool.false_ne_true, Node.flaws_eq_nil hn]
      exact congrArg Except.ok (List.append_nil behind).symm

/-- The search finds the errors and missing nodes in the reverse order of the tree. -/
theorem collect_eq_mapM (n : Node) :
    s.collect n = n.flaws.reverse.mapM fun e => s.flawDiagnostic e.2 := by
  induction n using Node.induct with
  | step n ih =>
    obtain ⟨kind, start, stop, role, isNamed, isMissing, children⟩ := n
    rw [collect]
    cases isMissing with
    | true =>
      have hflaw : Node.isFlaw ⟨kind, start, stop, role, isNamed, true, children⟩ = true :=
        Bool.or_true _
      rw [Node.flaws_of_isFlaw hflaw, if_pos rfl, List.reverse_singleton, List.mapM_cons]
      rfl
    | false =>
      rw [if_neg Bool.false_ne_true]
      by_cases hkind : kind = .error
      · subst hkind
        rw [Node.flaws_of_isFlaw rfl, if_pos rfl, List.reverse_singleton, List.mapM_cons]
        rfl
      · have hflaw : Node.isFlaw ⟨kind, start, stop, role, isNamed, false, children⟩ = false := by
          rw [Node.isFlaw, Bool.or_false]
          exact decide_eq_false hkind
        rw [Node.flaws_of_not_isFlaw hflaw, if_neg hkind]
        exact collectBackwards_eq 0 ih

theorem collect_eq (h : ∀ e ∈ n.flaws, s.HasSpan e.2) :
    s.collect n = .ok (n.flaws.map fun e => s.diagnosticOf e.2).reverse := by
  rw [collect_eq_mapM, ← List.map_reverse]
  exact mapM_eq_ok fun e he => flawDiagnostic_eq (h e (List.mem_reverse.1 he))

def sortedFlaws (s : Script) : List (List Nat × Node) :=
  s.root.flaws.reverse.mergeSort fun a b => s.startAt a.2 ≤ s.startAt b.2

theorem pairwise_sortedFlaws : s.sortedFlaws.Pairwise fun a b => s.startAt a.2 ≤ s.startAt b.2 :=
  pairwise_mergeSort_key fun e : List Nat × Node => s.startAt e.2

theorem map_sortedFlaws : (s.sortedFlaws.map fun e => s.diagnosticOf e.2) =
    (s.root.flaws.reverse.map fun e => s.diagnosticOf e.2).mergeSort
      fun a b => noLater a.position b.position := by
  refine List.map_mergeSort fun a _ b _ => Bool.eq_iff_iff.2 ?_
  rw [decide_eq_true_eq]
  exact Text.noLater_position.symm

/-- What is reported is what the search finds, sorted; a tree without errors has nothing to find. -/
theorem diagnostics_eq_collect : s.diagnostics =
    s.collect s.root >>= fun found =>
      .ok (found.mergeSort fun a b => noLater a.position b.position) := by
  rw [diagnostics]
  cases hroot : s.root.hasError with
  | true =>
    rw [if_pos rfl]
    rfl
  | false =>
    rw [if_neg Bool.false_ne_true, collect_eq_mapM, Node.flaws_eq_nil hroot, List.reverse_nil,
      List.mapM_nil]
    exact congrArg Except.ok List.mergeSort_nil.symm

theorem diagnostics_eq (h : ∀ e ∈ s.root.flaws, s.HasSpan e.2) :
    s.diagnostics = .ok (s.sortedFlaws.map fun e => s.diagnosticOf e.2) := by
  rw [diagnostics_eq_collect, collect_eq h, map_sortedFlaws, List.map_reverse]
  rfl

/-! ## Scripts of trees -/

theorem exists_offsetOf_ofTree {b : Nat} (hb : b ≤ t.utf8.length) :
    ∃ k, (ofTree t root).offsetOf b = .ok k := by
  by_cases hascii : t.isAscii = true
  · exact ⟨b, by rw [offsetOf, ofTree, if_pos hascii]⟩
  · have hlt : b < t.utf8Index.length := by
      rw [t.charts_utf8Index.length]
      exact Nat.lt_succ_of_le hb
    refine ⟨t.utf8Index[b], ?_⟩
    rw [offsetOf, ofTree, if_neg hascii]
    simp only [List.getElem?_toArray, List.getElem?_eq_getElem hlt]

theorem hasSpan_ofTree (h : n.isInside t = true) : (ofTree t root).HasSpan n := by
  rw [Node.isInside, Bool.and_eq_true, decide_eq_true_eq, decide_eq_true_eq] at h
  obtain ⟨k, hk⟩ := @exists_offsetOf_ofTree t root _ h.1
  obtain ⟨l, hl⟩ := @exists_offsetOf_ofTree t root _ h.2
  exact ⟨hk.trans (congrArg _ (charAt_of_ok hk).symm), hl.trans (congrArg _ (charAt_of_ok hl).symm)⟩

theorem hasSpan_of_mem_flaws (hinside : root.all (Node.isInside t) = true) :
    ∀ e ∈ (ofTree t root).root.flaws, (ofTree t root).HasSpan e.2 := by
  intro e he
  obtain ⟨hat, -, -⟩ := Node.mem_flaws_iff.1 (show (e.1, e.2) ∈ _ from he)
  exact hasSpan_ofTree (Node.all_iff.1 (Node.all_of_at? hinside hat)).1

/-- What is reported of a script: nodes with the places that lead to them. -/
structure Reports (s : Script) (found : List (List Nat × Node)) : Prop where
  /-- They are the errors and missing nodes that lie in no other one. -/
  outermost : ∀ places n, (places, n) ∈ found ↔ s.root.IsOutermostFlaw places n
  once : (found.map Prod.fst).Nodup
  located : ∀ e ∈ found, s.HasSpan e.2
  ordered : found.Pairwise fun a b => s.startAt a.2 ≤ s.startAt b.2

theorem reports_sortedFlaws (h : ∀ e ∈ s.root.flaws, s.HasSpan e.2) : s.Reports s.sortedFlaws where
  outermost places n := by
    rw [sortedFlaws, List.mem_mergeSort, List.mem_reverse, Node.mem_flaws_iff]
  once := by
    have hperm := (List.mergeSort_perm s.root.flaws.reverse fun a b =>
      decide (s.startAt a.2 ≤ s.startAt b.2)).trans (List.reverse_perm _)
    refine ((hperm.map Prod.fst).nodup_iff).2 (List.pairwise_map.2 ?_)
    exact Node.pairwise_flaws.imp fun hlt heq => absurd (heq ▸ hlt) (List.lt_irrefl _)
  located e he := h e (List.mem_reverse.1 (List.mem_mergeSort.1 he))
  ordered := pairwise_sortedFlaws

/-- Every error and every missing node that lies in no other one is reported once, with the line and
the column of its start and in the order of the starts. A text whose tree lies inside of it is
refused with these diagnostics if some node is an error or missing, and read if none is. -/
theorem flaws_reported {read : Reader} (id : Text) (hread : read t = some root)
    (hinside : root.all (Node.isInside t) = true) :
    ((∃ e, readScript read id t = .error (.parse e)) ↔
        ∃ places n, root.at? places = some n ∧ n.isFlaw = true) ∧
      ∃ found, (ofTree t root).Reports found ∧
        (ofTree t root).diagnostics = .ok (found.map fun e => (ofTree t root).diagnosticOf e.2) ∧
        readScript read id t =
          if found = [] then .ok (ofTree t root)
          else .error (.parse ⟨id, found.map fun e => (ofTree t root).diagnosticOf e.2⟩) := by
  have hspans := hasSpan_of_mem_flaws hinside
  have hreports : (ofTree t root).Reports (ofTree t root).sortedFlaws := reports_sortedFlaws hspans
  have hdiagnostics := diagnostics_eq hspans
  have hresult : readScript read id t =
      if (ofTree t root).sortedFlaws = [] then .ok (ofTree t root)
      else .error (.parse ⟨id, (ofTree t root).sortedFlaws.map
        fun e => (ofTree t root).diagnosticOf e.2⟩) := by
    simp only [readScript, hread, hdiagnostics]
    cases (ofTree t root).sortedFlaws <;> rfl
  refine ⟨?_, _, hreports, hdiagnostics, hresult⟩
  rw [← Node.hasError_iff_exists, Node.hasError_iff, hresult]
  have hempty : (ofTree t root).sortedFlaws = [] ↔ root.flaws = [] := by
    rw [sortedFlaws, ← List.length_eq_zero_iff, List.length_mergeSort, List.length_reverse,
      List.length_eq_zero_iff]
    rfl
  rw [ne_eq, ← hempty]
  split
  · next h => simp [h]
  · next h => simp [h]

theorem flaws_reported_unsorted :
    let t : Text := [0xE9, '\n', '(', ';', '\n', ')']
    let parenthesis : Node :=
      { kind := .other ")", start := 4, stop := 4, isNamed := false, isMissing := true }
    let statement : Node :=
      { kind := .expressionStatement, start := 3, stop := 5, children := [parenthesis] }
    let closing : Node :=
      { kind := .error, start := 6, stop := 7,
        children := [{ parenthesis with start := 7, stop := 7 }] }
    let root : Node :=
      { kind := .program, start := 0, stop := 7, children := [statement, closing] }
    root.all (Node.isInside t) = true ∧
      (∃ e, readScript (fun _ => some root) "m" t = .error (.parse e)) ∧
      ∃ found, (ofTree t root).Reports found ∧ ([0, 0], parenthesis) ∈ found ∧
        found.map (fun e => (ofTree t root).diagnosticOf e.2) =
          [⟨⟨2, 2⟩, "Missing )"⟩, ⟨⟨3, 1⟩, "Unexpected ')'"⟩] := by
  intro t parenthesis statement closing root
  have hinside : root.all (Node.isInside t) = true := by decide
  obtain ⟨hrefused, found, hreports, hdiagnostics, -⟩ :=
    @flaws_reported t root (fun _ => some root) "m" rfl hinside
  refine ⟨hinside, hrefused.2 ⟨[1], closing, rfl, rfl⟩, found, hreports, ?_, ?_⟩
  · rw [hreports.outermost, ← Node.mem_flaws_iff]
    exact List.mem_cons_self
  · have hcollect : (ofTree t root).collect root =
        .ok [⟨⟨3, 1⟩, "Unexpected ')'"⟩, ⟨⟨2, 2⟩, "Missing )"⟩] :=
      eq_ok_of_toOption (by decide +kernel)
    have hsorted : (ofTree t root).diagnostics =
        .ok [⟨⟨2, 2⟩, "Missing )"⟩, ⟨⟨3, 1⟩, "Unexpected ')'"⟩] := by
      change (collect _ root >>= fun found => pure (found.mergeSort _)) = _
      rw [hcollect]
      simp [List.mergeSort, noLater]
    exact Except.ok.inj (hdiagnostics.symm.trans hsorted)

end Script

end RegistryScript
