import Mathlib
import RegistryScript.Proofs.Script.Flaws

/-! # Diagnostics at one position

The search for errors and missing nodes gives them in the reverse order of the tree, and the sort by
lines and columns keeps the order of those that start at the same offset. Where nodes start in the
order of the tree, the diagnostics are therefore in this order up to the offset they start at, and
in the reverse of it at each single offset.

* `eq_of_filter_key_eq`, `filter_mergeSort_key`: a list in the order of its keys is told by its
  members of each key, and a sort by keys keeps these.
* `Node.preorder`: the nodes of a tree in its order.
* `Script.diagnosticsAt`: what is wrong at one offset, in the order of the tree.
* `Script.diagnostics_reverse_ties`: what is reported of a script, and when it is in the order of
  the tree.
-/

namespace RegistryScript
set_option autoImplicit false

/-! ## Lists in the order of keys -/

section Keys

variable {α β : Type} {key : α → Nat} {xs ys : List α} {ks : List Nat} {k : Nat}

theorem key_le_of_filter_ne_nil {x : α} (hx : (x :: xs).Pairwise fun a b => key a ≤ key b)
    (h : (x :: xs).filter (fun a => key a = k) ≠ []) : key x ≤ k := by
  obtain ⟨a, ha⟩ := List.exists_mem_of_ne_nil _ h
  obtain ⟨hmem, hk⟩ := List.mem_filter.1 ha
  rw [← of_decide_eq_true hk]
  rcases List.mem_cons.1 hmem with rfl | hmem
  · exact Nat.le_refl _
  · exact List.rel_of_pairwise_cons hx hmem

theorem eq_of_filter_key_eq (hx : xs.Pairwise fun a b => key a ≤ key b)
    (hy : ys.Pairwise fun a b => key a ≤ key b)
    (h : ∀ k, xs.filter (fun a => key a = k) = ys.filter fun a => key a = k) : xs = ys := by
  induction xs generalizing ys with
  | nil =>
    refine (List.eq_nil_iff_forall_not_mem.2 fun y hmem => ?_).symm
    exact List.not_mem_nil (h (key y) ▸ List.mem_filter.2 ⟨hmem, decide_eq_true rfl⟩)
  | cons x xs ih =>
    have hfirst : (x :: xs).filter (fun a => key a = key x) =
        x :: xs.filter fun a => key a = key x := List.filter_cons_of_pos (decide_eq_true rfl)
    cases ys with
    | nil => exact absurd (hfirst.symm.trans (h (key x))) (List.cons_ne_nil _ _)
    | cons y ys =>
      have hfirst' : (y :: ys).filter (fun a => key a = key y) =
          y :: ys.filter fun a => key a = key y := List.filter_cons_of_pos (decide_eq_true rfl)
      -- The key of each head occurs in the other list, whose own head has the smallest key.
      have hkey : key x = key y := by
        refine Nat.le_antisymm (key_le_of_filter_ne_nil hx ?_) (key_le_of_filter_ne_nil hy ?_)
        · rw [h, hfirst']
          exact List.cons_ne_nil _ _
        · rw [← h, hfirst]
          exact List.cons_ne_nil _ _
      obtain ⟨rfl, -⟩ : x = y ∧ _ := List.cons.inj (by rw [← hfirst, h, hkey, hfirst'])
      refine congrArg (x :: ·) (ih hx.tail hy.tail fun k => ?_)
      have hk := h k
      rw [List.filter_cons, List.filter_cons] at hk
      split at hk
      · exact List.tail_eq_of_cons_eq hk
      · exact hk

/-- A sort by keys keeps the members of each key and their order. -/
theorem filter_mergeSort_key (xs : List α) (k : Nat) :
    (xs.mergeSort fun a b => key a ≤ key b).filter (fun a => key a = k) =
      xs.filter fun a => key a = k := by
  have hties : (xs.filter fun a => key a = k).Pairwise fun a b =>
      decide (key a ≤ key b) = true := by
    refine List.pairwise_of_forall_mem_list fun a ha b hb => decide_eq_true (Nat.le_of_eq ?_)
    exact (of_decide_eq_true (List.mem_filter.1 ha).2).trans
      (of_decide_eq_true (List.mem_filter.1 hb).2).symm
  have hkept := (List.sublist_mergeSort (le_key_trans key) (le_key_total key) hties
    List.filter_sublist).filter fun a => decide (key a = k)
  rw [List.filter_filter] at hkept
  simp only [Bool.and_self] at hkept
  exact (hkept.eq_of_length_le ((List.mergeSort_perm xs _).filter _).length_eq.le).symm

theorem filter_flatMap_key {f : Nat → List α} (hf : ∀ k, ∀ a ∈ f k, key a = k) (hks : ks.Nodup) :
    (ks.flatMap f).filter (fun a => key a = k) = if k ∈ ks then f k else [] := by
  induction ks with
  | nil => rfl
  | cons j ks ih =>
    obtain ⟨hj, hks⟩ := List.nodup_cons.1 hks
    rw [List.flatMap_cons, List.filter_append, ih hks]
    by_cases hjk : j = k
    · subst hjk
      have hall : (f j).filter (fun a => key a = j) = f j :=
        List.filter_eq_self.2 fun a ha => decide_eq_true (hf j a ha)
      rw [hall, if_neg hj, if_pos List.mem_cons_self, List.append_nil]
    · have hnone : (f j).filter (fun a => key a = k) = [] :=
        List.filter_eq_nil_iff.2 fun a ha hk => hjk ((hf j a ha).symm.trans (of_decide_eq_true hk))
      simp [hnone, Ne.symm hjk]

theorem eq_flatMap_of_filter_key (hx : xs.Pairwise fun a b => key a ≤ key b)
    (hy : ys.Pairwise fun a b => key a ≤ key b) {f : List α → List α} (hnil : f [] = [])
    (hmem : ∀ zs, ∀ a ∈ f zs, a ∈ zs)
    (h : ∀ k, ys.filter (fun a => key a = k) = f (xs.filter fun a => key a = k)) :
    ys = (xs.map key).dedup.flatMap fun k => f (xs.filter fun a => key a = k) := by
  have hf : ∀ k, ∀ a ∈ f (xs.filter fun a => key a = k), key a = k := fun k a ha =>
    of_decide_eq_true (List.mem_filter.1 (hmem _ a ha)).2
  have hstarts : (xs.map key).dedup.Pairwise (· ≤ ·) :=
    (List.pairwise_map.2 hx).sublist (List.dedup_sublist _)
  refine eq_of_filter_key_eq hy (List.pairwise_flatMap.2 ⟨fun k _ => ?_, ?_⟩) fun k => ?_
  · refine List.pairwise_of_forall_mem_list fun a ha b hb => ?_
    rw [hf k a ha, hf k b hb]
  · refine hstarts.imp fun {j k} hjk a ha b hb => ?_
    rwa [hf j a ha, hf k b hb]
  · rw [h, filter_flatMap_key hf (List.nodup_dedup _)]
    split
    · rfl
    · next hk =>
      have hnone : xs.filter (fun a => key a = k) = [] := by
        refine List.filter_eq_nil_iff.2 fun a ha hkey => hk (List.mem_dedup.2 ?_)
        exact List.mem_map.2 ⟨a, ha, of_decide_eq_true hkey⟩
      rw [hnone, hnil]

theorem flatMap_eq_flatMap_iff {f g : Nat → List β} (h : ∀ k, (f k).length = (g k).length) :
    ks.flatMap f = ks.flatMap g ↔ ∀ k ∈ ks, f k = g k := by
  refine ⟨fun heq => ?_, List.flatMap_congr⟩
  induction ks with
  | nil => exact fun k hk => absurd hk List.not_mem_nil
  | cons k ks ih =>
    obtain ⟨hk, hks⟩ := List.append_inj heq (h k)
    exact List.forall_mem_cons.2 ⟨hk, ih hks⟩

end Keys

/-! ## The order of a tree -/

namespace Node

mutual

def preorder : Node → List Node
  | n@⟨_, _, _, _, _, _, children⟩ => n :: preorderAmong children

def preorderAmong : List Node → List Node
  | [] => []
  | n :: ns => n.preorder ++ preorderAmong ns

end

theorem preorderAmong_eq (ns : List Node) : preorderAmong ns = ns.flatMap preorder := by
  induction ns with
  | nil => rfl
  | cons n ns ih => rw [preorderAmong, ih, List.flatMap_cons]

theorem preorder_eq (n : Node) : n.preorder = n :: n.children.flatMap preorder := by
  cases n
  rw [preorder, preorderAmong_eq]

theorem flaws_sublist_preorder (n : Node) : (n.flaws.map Prod.snd).Sublist n.preorder := by
  induction n using Node.induct with
  | step n ih =>
    rw [preorder_eq]
    cases h : n.isFlaw with
    | true =>
      rw [flaws_of_isFlaw h]
      exact (List.nil_sublist _).cons_cons n
    | false =>
      rw [flaws_of_not_isFlaw h, map_snd_placed]
      exact (List.Sublist.flatMap_right _ ih).cons n

end Node

/-! ## Offsets -/

namespace Script

variable {s : Script} {t : Text} {root n : Node} {ds : List Diagnostic} {k : Nat}

theorem IsCharted.offsetOf_le (h : s.IsCharted) {a b i j : Nat} (ha : s.offsetOf a = .ok i)
    (hb : s.offsetOf b = .ok j) (hab : a ≤ b) : i ≤ j := by
  rw [Script.offsetOf] at ha hb
  rcases h with h | ⟨h, -⟩
  · simp only [h, List.getElem?_toArray] at ha hb
    split at ha <;> cases ha
    next hi =>
    split at hb <;> cases hb
    next hj =>
    obtain ⟨hla, rfl⟩ := List.getElem?_eq_some_iff.1 hi
    obtain ⟨hlb, rfl⟩ := List.getElem?_eq_some_iff.1 hj
    exact s.text.charts_utf8Index.ordered.sortedLE.getElem_le_getElem_of_le hab
  · rw [h] at ha hb
    rwa [← Except.ok.inj ha, ← Except.ok.inj hb]

theorem flawDiagnostic_eq_ok {d : Diagnostic} (h : s.flawDiagnostic n = .ok d) :
    s.startOf n = .ok (s.startAt n) ∧ d = s.diagnosticOf n := by
  rw [flawDiagnostic] at h
  rw [diagnosticOf, flawMessage]
  split at h
  · next hmissing =>
    obtain ⟨a, ha, h⟩ := bind_eq_ok_iff.1 h
    obtain rfl := startOf_eq ha
    rw [if_pos hmissing]
    exact ⟨ha, (Except.ok.inj h).symm⟩
  · next hmissing =>
    obtain ⟨a, ha, h⟩ := bind_eq_ok_iff.1 h
    obtain ⟨shown, hshown, h⟩ := bind_eq_ok_iff.1 h
    obtain rfl := startOf_eq ha
    obtain rfl := textOf_eq hshown
    rw [if_neg hmissing]
    exact ⟨ha, (Except.ok.inj h).symm⟩

/-! ## What is reported -/

def treeDiagnostics (s : Script) : List Diagnostic := s.root.flaws.map fun e => s.diagnosticOf e.2

def flawStarts (s : Script) : List Nat := (s.root.flaws.map fun e => s.startAt e.2).dedup

def diagnosticsAt (s : Script) (k : Nat) : List Diagnostic :=
  (s.root.flaws.filter fun e => s.startAt e.2 = k).map fun e => s.diagnosticOf e.2

theorem eq_of_diagnostics_eq_ok (h : s.diagnostics = .ok ds) :
    ds = (s.sortedFlaws.map fun e => s.diagnosticOf e.2) ∧
      ∀ e ∈ s.root.flaws, s.startOf e.2 = .ok (s.startAt e.2) := by
  rw [diagnostics_eq_collect, collect_eq_mapM] at h
  obtain ⟨found, hfound, h⟩ := bind_eq_ok_iff.1 h
  obtain rfl := Except.ok.inj h
  rw [map_sortedFlaws, mapM_eq_map (fun e d hd => (flawDiagnostic_eq_ok hd).2) hfound]
  refine ⟨rfl, fun e he => ?_⟩
  obtain ⟨d, hd⟩ := exists_of_mapM_eq_ok hfound e (List.mem_reverse.2 he)
  exact (flawDiagnostic_eq_ok hd).1

theorem IsCharted.pairwise_flaws (h : s.IsCharted)
    (horder : s.root.preorder.Pairwise fun a b => a.start ≤ b.start)
    (hstarts : ∀ e ∈ s.root.flaws, s.startOf e.2 = .ok (s.startAt e.2)) :
    s.root.flaws.Pairwise fun a b => s.startAt a.2 ≤ s.startAt b.2 := by
  have hflaws := List.pairwise_map.1 (horder.sublist s.root.flaws_sublist_preorder)
  exact hflaws.imp_of_mem fun ha hb hab => h.offsetOf_le (hstarts _ ha) (hstarts _ hb) hab

/-- Errors and missing nodes that start in the order of the tree are put in the reverse order at
each offset. -/
theorem sortedFlaws_eq (h : s.root.flaws.Pairwise fun a b => s.startAt a.2 ≤ s.startAt b.2) :
    s.sortedFlaws = s.flawStarts.flatMap fun k =>
      (s.root.flaws.filter fun e => s.startAt e.2 = k).reverse := by
  refine eq_flatMap_of_filter_key h pairwise_sortedFlaws (f := List.reverse) rfl
    (fun zs a => List.mem_reverse.1) fun k => ?_
  rw [sortedFlaws, filter_mergeSort_key, List.filter_reverse]

theorem pairwise_flawStarts (h : s.root.flaws.Pairwise fun a b => s.startAt a.2 ≤ s.startAt b.2) :
    s.flawStarts.Pairwise (· < ·) := by
  have hle : s.flawStarts.Pairwise (· ≤ ·) :=
    (List.pairwise_map.2 h).sublist (List.dedup_sublist _)
  exact (hle.and (List.nodup_dedup _)).imp fun h => Nat.lt_of_le_of_ne h.1 h.2

theorem treeDiagnostics_eq (h : s.root.flaws.Pairwise fun a b => s.startAt a.2 ≤ s.startAt b.2) :
    s.treeDiagnostics = s.flawStarts.flatMap s.diagnosticsAt := by
  have hgroups := eq_flatMap_of_filter_key h h (f := id) rfl (fun zs a ha => ha) fun k => rfl
  rw [treeDiagnostics, hgroups, List.map_flatMap]
  rfl

theorem diagnosticsAt_eq_nil (h : k ∉ s.flawStarts) : s.diagnosticsAt k = [] := by
  rw [diagnosticsAt, List.map_eq_nil_iff, List.filter_eq_nil_iff]
  intro e he hk
  exact h (List.mem_dedup.2 (List.mem_map.2 ⟨e, he, of_decide_eq_true hk⟩))

/-- Where the nodes of a tree start in its order, something is reported if the tree lies inside of
the text; and what is reported is in the order of the offsets, and at each offset in the reverse
order of the tree. So it is in the order of the tree as a whole if and only if what is reported at
each single offset reads the same backwards. -/
theorem diagnostics_reverse_ties (horder : root.preorder.Pairwise fun a b => a.start ≤ b.start) :
    (root.all (Node.isInside t) = true → ∃ ds, (ofTree t root).diagnostics = .ok ds) ∧
      ∀ ds, (ofTree t root).diagnostics = .ok ds →
        (ofTree t root).flawStarts.Pairwise (· < ·) ∧
        ds = (ofTree t root).flawStarts.flatMap
          (fun k => ((ofTree t root).diagnosticsAt k).reverse) ∧
        (ds = (ofTree t root).treeDiagnostics ↔
          ∀ k, ((ofTree t root).diagnosticsAt k).reverse = (ofTree t root).diagnosticsAt k) := by
  refine ⟨fun hinside => ⟨_, diagnostics_eq (hasSpan_of_mem_flaws hinside)⟩, fun ds hds => ?_⟩
  obtain ⟨rfl, hstarts⟩ := eq_of_diagnostics_eq_ok hds
  have hpairwise := (isCharted_ofTree t root).pairwise_flaws horder hstarts
  have hreported : ((ofTree t root).sortedFlaws.map fun e => (ofTree t root).diagnosticOf e.2) =
      (ofTree t root).flawStarts.flatMap fun k => ((ofTree t root).diagnosticsAt k).reverse := by
    rw [sortedFlaws_eq hpairwise, List.map_flatMap]
    exact List.flatMap_congr fun k _ => List.map_reverse
  refine ⟨pairwise_flawStarts hpairwise, hreported, ?_⟩
  -- Both lists are made up of parts of the same lengths, one for each offset.
  rw [hreported, treeDiagnostics_eq hpairwise, flatMap_eq_flatMap_iff fun k => List.length_reverse]
  refine ⟨fun h k => ?_, fun h k _ => h k⟩
  by_cases hk : k ∈ (ofTree t root).flawStarts
  · exact h k hk
  · rw [diagnosticsAt_eq_nil hk]
    rfl

def unclosedCall : Node :=
  let token (text : Text) (start stop : Nat) : Node :=
    { kind := .other text, start := start, stop := stop, isNamed := false }
  let element : Node :=
    { kind := .subscriptExpression, start := 2, stop := 5,
      children :=
        [{ kind := .identifier, start := 2, stop := 3, role := some .object }, token "[" 3 4,
          { kind := .number, start := 4, stop := 5, role := some (.other "index") },
          { token "]" 5 5 with isMissing := true }] }
  let values : Node :=
    { kind := .arguments, start := 1, stop := 5, role := some .arguments,
      children := [token "(" 1 2, element, { token ")" 5 5 with isMissing := true }] }
  let call : Node :=
    { kind := .callExpression, start := 0, stop := 5,
      children := [{ kind := .identifier, start := 0, stop := 1, role := some .function }, values] }
  { kind := .program, start := 0, stop := 5,
    children := [{ kind := .expressionStatement, start := 0, stop := 5, children := [call] }] }

theorem diagnostics_reverse_ties_unclosedCall :
    (unclosedCall.preorder.Pairwise fun a b => a.start ≤ b.start) ∧
      unclosedCall.all (Node.isInside "f(a[0") = true ∧
      ∃ ds, (ofTree "f(a[0" unclosedCall).diagnostics = .ok ds ∧
        ds = [⟨⟨1, 6⟩, "Missing )"⟩, ⟨⟨1, 6⟩, "Missing ]"⟩] ∧
        ds ≠ (ofTree "f(a[0" unclosedCall).treeDiagnostics := by
  have horder : unclosedCall.preorder.Pairwise fun a b => a.start ≤ b.start := by decide +kernel
  have hinside : unclosedCall.all (Node.isInside "f(a[0") = true := by decide +kernel
  obtain ⟨hsome, hall⟩ := diagnostics_reverse_ties (t := "f(a[0") horder
  obtain ⟨ds, hds⟩ := hsome hinside
  obtain ⟨-, hreported, htree⟩ := hall ds hds
  refine ⟨horder, hinside, ds, hds, hreported.trans (by decide +kernel), ?_⟩
  rw [ne_eq, htree]
  exact fun h => absurd (h 5) (by decide +kernel)

/-- What is reported of a tree whose nodes start in its order need not be in this order. -/
theorem not_diagnostics_in_tree_order :
    ¬∀ (t : Text) (root : Node), (root.preorder.Pairwise fun a b => a.start ≤ b.start) →
      ∀ ds, (ofTree t root).diagnostics = .ok ds → ds = (ofTree t root).treeDiagnostics := by
  intro h
  have hcollect : (ofTree "f(a[0" unclosedCall).collect unclosedCall =
      .ok [⟨⟨1, 6⟩, "Missing )"⟩, ⟨⟨1, 6⟩, "Missing ]"⟩] := eq_ok_of_toOption (by decide +kernel)
  have hreported : (ofTree "f(a[0" unclosedCall).diagnostics =
      .ok [⟨⟨1, 6⟩, "Missing )"⟩, ⟨⟨1, 6⟩, "Missing ]"⟩] := by
    change (collect _ unclosedCall >>= fun found => pure (found.mergeSort _)) = _
    rw [hcollect]
    simp [List.mergeSort, noLater]
  have hsame := h "f(a[0" unclosedCall (by decide +kernel) _ hreported
  exact absurd hsame (by decide +kernel)

end Script

end RegistryScript
