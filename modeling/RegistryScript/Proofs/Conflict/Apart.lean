import Mathlib
import RegistryScript.Proofs.Printing.Module
import RegistryScript.Proofs.Scoping.Room

/-! # Words and strings stand apart

Words and strings do not lie in one another, so two of them at different places stand apart. The
passes over references and calls overwrite nothing else.

* `Trail.Spots`: a trail leads to a word or string that lies in no other one.
* `apart_of_spots`: two such nodes at different places stand apart.
* `spots_of_mem_visitsIn`, `spots_of_mem_redirectsIn`: what the two passes overwrite in a node.
* `Script.pairwise_redirectsIn`: the edits of calls leave room for one another.
-/

namespace RegistryScript
set_option autoImplicit false

open Edit

/-! ## Words and strings -/

def Node.isPiece (n : Node) : Bool := n.isWord || n.kind = .string

/-- A trail leads from a node to a word or string, past none. -/
structure Trail.Spots (root : Node) (trail : Trail) (n : Node) : Prop where
  leads : Trail.Leads root trail n
  piece : n.isPiece = true
  clear : ∀ e ∈ trail, e.1.isPiece = false

section Spots

variable {s : Script} {m n n' : Node} {t t' : Trail}

theorem Trail.Spots.eq_nil (h : Trail.Spots m [] n) (h' : Trail.Spots m t n') : t = [] := by
  rcases List.eq_nil_or_concat t with rfl | ⟨t, e, rfl⟩
  · rfl
  · rw [List.concat_eq_append] at h'
    have hm : n = m := h.leads
    have hclear := h'.clear e (List.mem_append_right _ List.mem_cons_self)
    rw [h'.leads.of_concat.1, ← hm, h.piece] at hclear
    exact nomatch hclear

theorem Trail.Spots.inner {e : Node × Nat} (h : Trail.Spots m (t ++ [e]) n) :
    e.1 = m ∧ ∃ c, m.children[e.2]? = some c ∧ Trail.Spots c t n := by
  obtain ⟨he, c, hc, hleads⟩ := h.leads.of_concat
  exact ⟨he, c, hc, hleads, h.piece, fun e he => h.clear e (List.mem_append_left _ he)⟩

theorem Trail.Spots.outer {c : Node} {i : Nat} (h : Trail.Spots c t n)
    (hc : m.children[i]? = some c) (hm : m.isPiece = false) :
    Trail.Spots m (t ++ [(m, i)]) n := by
  have hleads : Trail.Leads m [(m, i)] c := ⟨hc, rfl⟩
  refine ⟨h.leads.append hleads, h.piece, fun e he => ?_⟩
  rcases List.mem_append.1 he with he | he
  · exact h.clear e he
  · rw [List.mem_singleton.1 he]
    exact hm

theorem apart_of_spots (hs : s.IsLaidOut) (hspan : m.all (Node.isSpanned s.text) = true)
    (h : Trail.Spots m t n) (h' : Trail.Spots m t' n') (hne : t ≠ t') :
    s.stopAt n ≤ s.startAt n' ∨ s.stopAt n' ≤ s.startAt n := by
  -- Trails list their steps from the inside out, so the induction goes from the end: below a child
  -- that both enter the claim is that of the child, and different children stand apart.
  induction t using List.reverseRecOn generalizing m t' with
  | nil => exact absurd (h.eq_nil h').symm hne
  | append_singleton t e ih =>
    rcases List.eq_nil_or_concat t' with rfl | ⟨t', e', rfl⟩
    · exact absurd (h'.eq_nil h) hne
    rw [List.concat_eq_append] at h' hne
    obtain ⟨he, c, hc, hin⟩ := h.inner
    obtain ⟨he', c', hc', hin'⟩ := h'.inner
    have hspan_c := (Node.all_iff.1 hspan).2 c (List.mem_of_getElem? hc)
    have hspan_c' := (Node.all_iff.1 hspan).2 c' (List.mem_of_getElem? hc')
    by_cases hplace : e.2 = e'.2
    · rw [hplace] at hc
      obtain rfl : c = c' := Option.some.inj (hc.symm.trans hc')
      refine ih hspan_c hin hin' fun ht => hne ?_
      rw [ht, Prod.ext (he.trans he'.symm) hplace]
    · have hb := bounds_of_leads hs hspan_c hin.leads
      have hb' := bounds_of_leads hs hspan_c' hin'.leads
      rcases (hs.spanned hspan).follow.apart_of_ne hc hc' hplace with hle | hle
      · exact .inl (hb.2.trans (hle.trans hb'.1))
      · exact .inr (hb'.2.trans (hle.trans hb.1))

theorem leads_unique {root : Node} {trail : Trail} (h : Trail.Leads root trail n)
    (h' : Trail.Leads root trail n') : n = n' := by
  cases trail with
  | nil =>
    rw [Trail.Leads] at h h'
    rw [h, h']
  | cons e trail => exact Option.some.inj (h.1.symm.trans h'.1)

/-! ## Spots that edits are made at -/

/-- A node with a node inside is a word or string only if it is a string and the node inside is one
of its parts. -/
theorem isPiece_eq_false {c : Node} (hs : s.IsLaidOut) (hspan : m.all (Node.isSpanned s.text) = true)
    (hsound : m.all Node.isSound = true) (hc : c ∈ m.children) (hnamed : c.isNamed = true)
    (hn : n ∈ c.descendants) (hpart : n.isStringPart = false) : m.isPiece = false := by
  rw [Node.isPiece, Bool.or_eq_false_iff]
  constructor
  · rw [← Bool.not_eq_true]
    intro hword
    have hleaf := (hs.word (Node.all_iff.1 hspan).1 (Node.all_iff.1 hsound).1 hword).1
    rw [hleaf] at hc
    exact absurd hc List.not_mem_nil
  · rw [decide_eq_false_iff_not]
    intro hk
    have hinside := Node.mem_namedDescendants.2 ⟨c, hc, hnamed, hn⟩
    rw [Node.isStringPart_of_mem (Node.all_iff.1 hsound).1 hk hinside] at hpart
    exact nomatch hpart

theorem not_isStringPart_of_isWord (h : n.isWord = true) : n.isStringPart = false := by
  unfold Node.isWord at h
  unfold Node.isStringPart
  split at h <;> simp_all

theorem spots_of_mem_visitsIn (hs : s.IsLaidOut) {statement : Node} {t₀ : Trail} {v : Visit}
    (hspan : m.all (Node.isSpanned s.text) = true) (hsound : m.all Node.isSound = true)
    (hv : v ∈ visitsIn statement t₀ m) (hword : v.node.isWord = true) :
    v.node ∈ m.descendants ∧ ∃ t, v.trail = t ++ t₀ ∧ Trail.Spots m t v.node := by
  -- That the node is a descendant is proved along: a string has no word among its descendants,
  -- so the nodes on the way are none.
  induction m using Node.induct generalizing t₀ with
  | step m ih =>
    rw [visitsIn_eq, List.mem_cons] at hv
    rw [Node.descendants_eq]
    rcases hv with rfl | hv
    · refine ⟨List.mem_cons_self, [], rfl, rfl, ?_, fun e he => absurd he List.not_mem_nil⟩
      rw [Node.isPiece, hword]
      rfl
    · rw [Script.visitsAmong_eq_flatMap] at hv
      obtain ⟨e, he, hv⟩ := List.mem_flatMap.1 hv
      have hc := getElem?_of_mem_numbered he
      have hmem := List.mem_of_getElem? hc
      by_cases hwalked : (e.2.isNamed && !e.2.kind.isSkipped) = true
      · rw [if_pos hwalked] at hv
        have hnamed := (Bool.and_eq_true_iff.1 hwalked).1
        obtain ⟨hin, t, htrail, hspots⟩ := ih e.2 hmem ((Node.all_iff.1 hspan).2 e.2 hmem)
          ((Node.all_iff.1 hsound).2 e.2 hmem) hv
        have hclear := isPiece_eq_false hs hspan hsound hmem hnamed hin
          (not_isStringPart_of_isWord hword)
        refine ⟨List.mem_cons_of_mem _ (Node.mem_namedDescendants.2 ⟨e.2, hmem, hnamed, hin⟩),
          t ++ [(m, e.1)], ?_, hspots.outer hc hclear⟩
        rw [htrail, List.append_assoc]
        rfl
      · rw [if_neg hwalked] at hv
        exact absurd hv List.not_mem_nil

/-- A redirected call overwrites its callee, a child of it, and its only argument, which stands
further in. -/
theorem spots_of_redirectKey? (hs : s.IsLaidOut) (names : Settings) {key : Text}
    (hspan : m.all (Node.isSpanned s.text) = true) (hsound : m.all Node.isSound = true)
    (hkey : s.redirectKey? m = some key) :
    m.isPiece = false ∧ ∃ callee argument t t',
      s.callEdits names m =
        [s.replacement callee names.dynamicImportHelper, s.replacement argument key] ∧
      (Trail.Spots m t callee ∧ callee.kind = .importCallee ∧ t.length = 1) ∧
      Trail.Spots m t' argument ∧ argument.kind = .string ∧ t'.length = 2 := by
  obtain ⟨callee, arguments, argument, hf, hcallee, ha, hmain, hstring, hedits⟩ :=
    Script.redirectKey?_eq_some names hkey
  have hcall := Script.isDynamicImport_of_redirectKey? hkey
  have hclear : m.isPiece = false := by
    rw [Node.isDynamicImport, Bool.and_eq_true, decide_eq_true_eq] at hcall
    rw [Node.isPiece, Node.isWord, hcall.1]
    rfl
  obtain ⟨i, -, hi, -⟩ := Node.exists_child hf
  obtain ⟨j, -, hj, -⟩ := Node.exists_child ha
  have hmem := List.mem_of_getElem? hj
  have hargument : argument ∈ arguments.mainChildren := by
    rw [hmain]
    exact List.mem_cons_self
  have hnamed : argument.isNamed = true := (List.mem_filter.1 (List.mem_filter.1 hargument).1).2
  have hchild := Script.mem_of_mem_mainChildren hargument
  obtain ⟨k, hk⟩ := List.mem_iff_getElem?.1 hchild
  have hpart : argument.isStringPart = false := by
    rw [Node.isStringPart, hstring]
    rfl
  have harguments := isPiece_eq_false hs ((Node.all_iff.1 hspan).2 arguments hmem)
    ((Node.all_iff.1 hsound).2 arguments hmem) hchild hnamed
    argument.mem_descendants_self hpart
  refine ⟨hclear, callee, argument, [(m, i)], [(arguments, k), (m, j)], ?_, ⟨⟨⟨hi, rfl⟩, ?_, ?_⟩,
    hcallee, rfl⟩, ⟨⟨hk, hj, rfl⟩, ?_, ?_⟩, hstring, rfl⟩
  · rw [Script.callEdits, if_pos hcall, hedits]
  · rw [Node.isPiece, Node.isWord, hcallee]
    rfl
  · simpa using hclear
  · rw [Node.isPiece, hstring]
    exact Bool.or_true _
  · simpa using ⟨harguments, hclear⟩

theorem spots_of_mem_callEdits (hs : s.IsLaidOut) {names : Settings} {e : Edit}
    (hspan : m.all (Node.isSpanned s.text) = true) (hsound : m.all Node.isSound = true)
    (he : e ∈ s.callEdits names m) :
    ∃ t n text, e = s.replacement n text ∧ Trail.Spots m t n ∧ m.isPiece = false ∧
      (n.kind = .importCallee ∧ t.length = 1 ∨ n.kind = .string ∧ t.length = 2) := by
  cases hkey : s.redirectKey? m with
  | none =>
    rw [Script.callEdits_eq_nil hkey] at he
    exact absurd he List.not_mem_nil
  | some key =>
    obtain ⟨hclear, callee, argument, t, t', hedits, ⟨hspots, hcallee⟩, hspots', hstring⟩ :=
      spots_of_redirectKey? hs names hspan hsound hkey
    rw [hedits] at he
    rcases List.mem_cons.1 he with rfl | he
    · exact ⟨t, callee, _, rfl, hspots, hclear, .inl hcallee⟩
    · exact ⟨t', argument, _, List.mem_singleton.1 he, hspots', hclear, .inr hstring⟩

theorem spots_of_mem_redirectsIn (hs : s.IsLaidOut) {names : Settings} {e : Edit}
    (hspan : m.all (Node.isSpanned s.text) = true) (hsound : m.all Node.isSound = true)
    (he : e ∈ s.redirectsIn names m) :
    ∃ t n text, e = s.replacement n text ∧ Trail.Spots m t n ∧
      (n.kind = .importCallee ∧ 1 ≤ t.length ∨ n.kind = .string ∧ 2 ≤ t.length) := by
  induction m using Node.induct with
  | step m ih =>
    have hcalls := he
    rw [Script.redirectsIn_eq, List.mem_append] at he
    rcases he with he | he
    · obtain ⟨t, n, text, rfl, hspots, -, hcases⟩ := spots_of_mem_callEdits hs hspan hsound he
      exact ⟨t, n, text, rfl, hspots, hcases.imp (fun h => ⟨h.1, h.2.ge⟩) fun h => ⟨h.1, h.2.ge⟩⟩
    · obtain ⟨c, hc, he⟩ := List.mem_flatMap.1 he
      have hat := getElem?_of_mem_numbered hc
      have hmem := List.mem_of_getElem? hat
      split at he
      · next hnamed =>
        obtain ⟨t, n, text, rfl, hspots, hcases⟩ := ih c.2 hmem ((Node.all_iff.1 hspan).2 c.2 hmem)
          ((Node.all_iff.1 hsound).2 c.2 hmem) he
        obtain ⟨call, hcall, -⟩ := List.mem_flatMap.1 he
        obtain ⟨hin, hdynamic⟩ := List.mem_filter.1 hcall
        have hpart : call.isStringPart = false := by
          rw [Node.isDynamicImport, Bool.and_eq_true, decide_eq_true_eq] at hdynamic
          rw [Node.isStringPart, hdynamic.1]
          rfl
        have hclear := isPiece_eq_false hs hspan hsound hmem hnamed hin hpart
        refine ⟨t ++ [(m, c.1)], n, text, rfl, hspots.outer hat hclear, ?_⟩
        rw [List.length_append]
        exact hcases.imp (fun h => ⟨h.1, by omega⟩) fun h => ⟨h.1, by omega⟩
      · exact absurd he List.not_mem_nil

end Spots

namespace Script

variable {s : Script} {names : Settings} {imports : ImportTable} {m n n' : Node}

/-! ## Calls -/

theorem leavesRoom_of_apart {text text' : Text}
    (h : s.stopAt n ≤ s.startAt n' ∨ s.stopAt n' ≤ s.startAt n) :
    (s.replacement n text).leavesRoom (s.replacement n' text') := by
  intro r hr
  rw [replacement, range?, Option.ite_none_right_eq_some] at hr
  obtain rfl := Option.some.inj hr.2
  rw [replacement, StaysClear]
  omega

theorem pairwise_callEdits (hs : s.IsLaidOut) (hspan : m.all (Node.isSpanned s.text) = true)
    (hsound : m.all Node.isSound = true) : (s.callEdits names m).Pairwise leavesRoom := by
  cases hkey : s.redirectKey? m with
  | none =>
    rw [callEdits_eq_nil hkey]
    exact .nil
  | some key =>
    obtain ⟨-, callee, argument, t, t', hedits, ⟨hspots, -, hl⟩, hspots', -, hl'⟩ :=
      spots_of_redirectKey? hs names hspan hsound hkey
    rw [hedits, List.pairwise_pair]
    refine leavesRoom_of_apart (apart_of_spots hs hspan hspots hspots' ?_)
    rintro rfl
    omega

theorem pairwise_redirectsIn (hs : s.IsLaidOut) (hspan : m.all (Node.isSpanned s.text) = true)
    (hsound : m.all Node.isSound = true) :
    (s.redirectsIn names m).Pairwise leavesRoom := by
  induction m using Node.induct with
  | step m ih =>
    have hinner : ∀ c ∈ Node.numbered 0 m.children, ∀ e ∈
        (if c.2.isNamed then s.redirectsIn names c.2 else []),
        m.children[c.1]? = some c.2 ∧ ∃ t n text, e = s.replacement n text ∧ Trail.Spots c.2 t n ∧
          (n.kind = .importCallee ∧ 1 ≤ t.length ∨ n.kind = .string ∧ 2 ≤ t.length) := by
      intro c hc e he
      have hat := getElem?_of_mem_numbered hc
      have hmem := List.mem_of_getElem? hat
      split at he
      · exact ⟨hat, spots_of_mem_redirectsIn hs ((Node.all_iff.1 hspan).2 c.2 hmem)
          ((Node.all_iff.1 hsound).2 c.2 hmem) he⟩
      · exact absurd he List.not_mem_nil
    rw [redirectsIn_eq, List.pairwise_append, List.pairwise_flatMap]
    refine ⟨pairwise_callEdits hs hspan hsound, ⟨fun c hc => ?_, ?_⟩, fun e he e' he' => ?_⟩
    · have hmem := (mem_numbered hc).1
      split
      · exact ih c.2 hmem ((Node.all_iff.1 hspan).2 c.2 hmem) ((Node.all_iff.1 hsound).2 c.2 hmem)
      · exact .nil
    · refine (pairwise_numbered hs hspan).imp_of_mem fun {c c'} hc hc' hle e he e' he' => ?_
      obtain ⟨hat, t, n, text, rfl, hspots, -⟩ := hinner c hc e he
      obtain ⟨hat', t', n', text', rfl, hspots', -⟩ := hinner c' hc' e' he'
      have hb := bounds_of_leads hs ((Node.all_iff.1 hspan).2 c.2 (List.mem_of_getElem? hat))
        hspots.leads
      have hb' := bounds_of_leads hs ((Node.all_iff.1 hspan).2 c'.2 (List.mem_of_getElem? hat'))
        hspots'.leads
      exact leavesRoom_of_apart (.inl (hb.2.trans (hle.trans hb'.1)))
    · obtain ⟨t, n, text, rfl, hspots, hclear, hcases⟩ := spots_of_mem_callEdits hs hspan hsound he
      obtain ⟨c, hc, he'⟩ := List.mem_flatMap.1 he'
      obtain ⟨hat, t', n', text', rfl, hspots', hcases'⟩ := hinner c hc e' he'
      have houter := hspots'.outer hat hclear
      refine leavesRoom_of_apart (apart_of_spots hs hspan hspots houter ?_)
      rintro rfl
      have hn := leads_unique hspots.leads houter.leads
      rw [List.length_append, List.length_singleton, hn] at hcases
      -- A callee is no argument, and an argument stands further in than a callee.
      rcases hcases with ⟨hk, hl⟩ | ⟨hk, hl⟩ <;> rcases hcases' with ⟨hk', hl'⟩ | ⟨hk', hl'⟩
      · omega
      · omega
      · exact nomatch hk.symm.trans hk'
      · omega

end Script

end RegistryScript
