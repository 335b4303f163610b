import Mathlib
import RegistryScript.Proofs.Printing.Calls

/-! # Printed nodes

The stretch of a node is what the printer makes of the node, whenever the edits that touch it are
those of the names and calls in it and what is put in instead of it.

* `Script.nodeEdits`: these edits.
* `Script.filter_nodeEdits`: those that touch a child are the edits of the child.
* `Script.stretch_eq_printNode`: the stretch of a node.
-/

namespace RegistryScript
set_option autoImplicit false

open Edit

/-! ## Calls in a node -/

namespace Node

theorem namedDescendants_eq_flatMap (first : Nat) (ns : List Node) :
    namedDescendants ns =
      (numbered first ns).flatMap fun e => if e.2.isNamed then e.2.descendants else [] := by
  induction ns generalizing first with
  | nil => rfl
  | cons n ns ih =>
    rw [namedDescendants, numbered, List.flatMap_cons, ← ih]
    split
    · rfl
    · rfl

end Node

namespace Script

def redirectsIn (s : Script) (names : Settings) (n : Node) : List Edit :=
  (n.descendants.filter Node.isDynamicImport).flatMap (redirectEdits s names)

variable {s : Script} {names : Settings} {imports : ImportTable} {statement n c : Node}
  {rebinds redirects : Bool} {trail : Trail} {swap : Swap} {i : Nat}

theorem redirectsIn_eq :
    s.redirectsIn names n = s.callEdits names n ++
      (Node.numbered 0 n.children).flatMap fun e =>
        if e.2.isNamed then s.redirectsIn names e.2 else [] := by
  have hsplit : ∀ e : Nat × Node,
      ((if e.2.isNamed then e.2.descendants else []).filter Node.isDynamicImport).flatMap
        (redirectEdits s names) = if e.2.isNamed then s.redirectsIn names e.2 else [] := by
    intro e
    split
    · rfl
    · rfl
  rw [redirectsIn, Node.descendants_eq, Node.namedDescendants_eq_flatMap 0, List.filter_cons,
    List.filter_flatMap, callEdits]
  by_cases hd : n.isDynamicImport = true
  · rw [if_pos hd, if_pos hd, List.flatMap_cons, List.flatMap_assoc]
    simp only [hsplit]
  · rw [if_neg hd, if_neg hd, List.flatMap_assoc]
    simp only [hsplit, List.nil_append]

theorem isDeletion_of_mem_redirectEdits {e : Edit} (he : e ∈ redirectEdits s names n) :
    e.isDeletion = false := by
  obtain ⟨c, text, rfl⟩ := exists_replacement_of_mem_redirectEdits he
  rfl

theorem isDeletion_of_mem_redirectsIn {e : Edit} (he : e ∈ s.redirectsIn names n) :
    e.isDeletion = false := by
  obtain ⟨call, -, he⟩ := List.mem_flatMap.1 he
  exact isDeletion_of_mem_redirectEdits he

theorem within_callEdits (hs : s.IsLaidOut) (hspans : n.all (Node.isSpanned s.text) = true)
    (hp : ∀ e ∈ s.callEdits names n, e.IsProper) : s.Within n (s.callEdits names n) := by
  intro e he
  obtain ⟨-, c, hc, hin⟩ := exists_child_of_mem_callEdits hspans hs he (hp e he)
  have hb := (hs.spanned hspans).follow.bounds hc
  exact hin.mono hb.1 hb.2.2

theorem within_redirectsIn (hs : s.IsLaidOut) (hspans : n.all (Node.isSpanned s.text) = true)
    (hp : ∀ e ∈ s.redirectsIn names n, e.IsProper) : s.Within n (s.redirectsIn names n) := by
  induction n using Node.induct with
  | step n ih =>
    rw [redirectsIn_eq] at hp ⊢
    refine (within_callEdits hs hspans fun e he => hp e (List.mem_append_left _ he)).append
      (Within.numbered (E := fun _ c => if c.isNamed then s.redirectsIn names c else []) ?_
        (hs.spanned hspans).follow)
    intro e he
    have hmem := (mem_numbered he).1
    have hpe : ∀ x ∈ (if e.2.isNamed then s.redirectsIn names e.2 else []), x.IsProper :=
      fun x hx => hp x (List.mem_append_right _ (List.mem_flatMap.2 ⟨e, he, hx⟩))
    by_cases hn : e.2.isNamed = true
    · rw [if_pos hn] at hpe ⊢
      exact ih e.2 hmem ((Node.all_iff.1 hspans).2 e.2 hmem) hpe
    · rw [if_neg hn]
      exact within_nil _

/-! ## The edits of a node -/

/-- The edits of a node: those of the references in it if `rebinds` says so, what is put in instead
of it, and those of the calls in it if `redirects` says so. -/
def nodeEdits (s : Script) (names : Settings) (imports : ImportTable) (statement : Node)
    (rebinds redirects : Bool) (trail : Trail) (swap : Swap) (n : Node) : List Edit :=
  (if rebinds then (visitsIn statement trail n).flatMap (s.localEdits imports) else []) ++
    (s.swapEdits n swap ++ if redirects then s.redirectsIn names n else [])

/-- What is printed instead of a node fits it: only callees and strings are printed as something
else, and only where a string is the only node inside. -/
def SwapFits (rebinds : Bool) (swap : Swap) (n : Node) : Prop :=
  match swap with
  | .none => True
  | .whole _ => n.kind = .importCallee ∨ (n.kind = .string ∧ rebinds = false)
  | .inner _ => ∃ argument, n.mainChildren = [argument] ∧ argument.kind = .string

theorem isWord_of_kind (h : n.kind = .importCallee) : n.isWord = true := by
  rw [Node.isWord, h]

theorem mem_mainChildren (hi : n.children[i]? = some c) (hn : c.isNamed = true)
    (hk : c.kind ≠ .comment) : c ∈ n.mainChildren :=
  List.mem_filter.2 ⟨List.mem_filter.2 ⟨List.mem_of_getElem? hi, hn⟩, decide_eq_true hk⟩

theorem callSwap_fits (hi : n.children[i]? = some c) :
    SwapFits rebinds (s.callSwap names n i) c := by
  rw [callSwap]
  cases hk : s.redirectKey? n with
  | none => exact trivial
  | some key =>
    obtain ⟨callee, arguments, argument, hf, hcallee, ha, hargs, hstring, -⟩ :=
      redirectKey?_eq_some names hk
    obtain ⟨iF, hiF, hcF, -⟩ := Node.exists_child hf
    obtain ⟨iA, hiA, hcA, -⟩ := Node.exists_child ha
    by_cases hF : n.isChildAt .function i = true
    · simp only [if_pos hF]
      have hifi : iF = i := Option.some.inj (hiF.symm.trans (Node.isChildAt_iff.1 hF))
      subst hifi
      obtain rfl : callee = c := Option.some.inj (hcF.symm.trans hi)
      exact .inl hcallee
    · simp only [if_neg hF]
      by_cases hA : n.isChildAt .arguments i = true
      · simp only [if_pos hA]
        have hiai : iA = i := Option.some.inj (hiA.symm.trans (Node.isChildAt_iff.1 hA))
        subst hiai
        obtain rfl : arguments = c := Option.some.inj (hcA.symm.trans hi)
        exact ⟨argument, hargs, hstring⟩
      · simp only [if_neg hA]
        exact trivial

theorem childSwap_fits (hfits : SwapFits rebinds swap n) (hi : n.children[i]? = some c) :
    SwapFits (rebinds && (c.isNamed && !c.kind.isSkipped))
      (s.childSwap names redirects swap n i c) c := by
  have hcall : ∀ rebinds', SwapFits rebinds'
      (if redirects then s.callSwap names n i else .none) c := by
    intro rebinds'
    split
    · exact callSwap_fits hi
    · exact trivial
  unfold childSwap
  cases swap with
  | inner text =>
    by_cases hc : (c.isNamed && decide (c.kind ≠ .comment)) = true
    · simp only [if_pos hc]
      obtain ⟨hn, hk⟩ := Bool.and_eq_true_iff.1 hc
      obtain ⟨argument, hargs, hstring⟩ := hfits
      have hmem := mem_mainChildren hi hn (of_decide_eq_true hk)
      rw [hargs, List.mem_singleton] at hmem
      subst hmem
      refine .inr ⟨hstring, ?_⟩
      rw [hstring]
      simp [Kind.isSkipped]
    · simp only [if_neg hc]
      exact hcall _
  | _ => exact hcall _

theorem callSwap_eq_none (hsound : n.all Node.isSound = true) {argument : Node}
    (hstring : argument.kind = .string) (hi : n.children[i]? = some argument) :
    s.callSwap names n i = .none := by
  rw [callSwap]
  cases hk : s.redirectKey? n with
  | none => rfl
  | some key =>
    obtain ⟨callee, arguments, argument', hf, hcallee, ha, hargs', hstring', -⟩ :=
      redirectKey?_eq_some names hk
    obtain ⟨iF, hiF, hcF, -⟩ := Node.exists_child hf
    obtain ⟨iA, hiA, hcA, -⟩ := Node.exists_child ha
    have hF : n.isChildAt .function i = false := by
      rw [← Bool.not_eq_true, Node.isChildAt_iff, hiF]
      rintro hifi
      rw [Option.some.inj hifi, hi] at hcF
      rw [← Option.some.inj hcF, hstring] at hcallee
      cases hcallee
    have hA : n.isChildAt .arguments i = false := by
      rw [← Bool.not_eq_true, Node.isChildAt_iff, hiA]
      rintro hiai
      rw [Option.some.inj hiai, hi] at hcA
      obtain rfl : argument = arguments := Option.some.inj hcA
      have hmem : argument' ∈ argument.mainChildren := by
        rw [hargs']
        exact List.mem_singleton.2 rfl
      have hnamed : argument'.isNamed = true :=
        (List.mem_filter.1 (List.mem_filter.1 hmem).1).2
      have hall := (Node.all_iff.1 ((Node.all_iff.1 hsound).2 argument (List.mem_of_getElem? hi))).1
      have hpart := Node.isStringPart_of_mem hall hstring (Node.mem_namedDescendants.2
        ⟨argument', mem_of_mem_mainChildren hmem, hnamed, argument'.mem_descendants_self⟩)
      rw [Node.isStringPart, hstring'] at hpart
      exact absurd hpart (by decide)
    simp only [hF, hA, Bool.false_eq_true, if_false]

/-! ## The edits of a child -/

theorem swapEdits_inner (text : Text) :
    s.swapEdits n (.inner text) = (Node.numbered 0 n.children).flatMap fun e =>
      if e.2.isNamed && decide (e.2.kind ≠ .comment) then [s.replacement e.2 text] else [] := by
  have hlist : ∀ (first : Nat) (ns : List Node),
      ((ns.filter Node.isNamed).filter fun c => decide (c.kind ≠ .comment)).map
          (fun c => s.replacement c text) =
        (Node.numbered first ns).flatMap fun e =>
          if e.2.isNamed && decide (e.2.kind ≠ .comment) then [s.replacement e.2 text] else [] := by
    intro first ns
    rw [List.filter_filter]
    induction ns generalizing first with
    | nil => rfl
    | cons c ns ih =>
      rw [List.filter_cons, Node.numbered, List.flatMap_cons, ← ih (first + 1), Bool.and_comm]
      split
      · rfl
      · rfl
  exact hlist 0 n.children

theorem filter_swapEdits_inner {text : Text} (hs : s.IsLaidOut)
    (hspans : n.all (Node.isSpanned s.text) = true)
    (hp : ∀ e ∈ s.swapEdits n (.inner text), e.IsProper) (hi : n.children[i]? = some c) :
    (s.swapEdits n (.inner text)).filter (touches (s.startAt c) (s.stopAt c)) =
      if c.isNamed && decide (c.kind ≠ .comment) then [s.replacement c text] else [] := by
  have hwithin : ∀ e ∈ Node.numbered 0 n.children, s.Within e.2
      (if e.2.isNamed && decide (e.2.kind ≠ .comment) then [s.replacement e.2 text] else []) := by
    intro e he
    have hpe : ∀ x ∈ (if e.2.isNamed && decide (e.2.kind ≠ .comment)
        then [s.replacement e.2 text] else []), x.IsProper := by
      intro x hx
      refine hp x ?_
      rw [swapEdits_inner]
      exact List.mem_flatMap.2 ⟨e, he, hx⟩
    split
    · next hc =>
      rw [if_pos hc] at hpe
      exact within_replacement (hpe _ List.mem_cons_self)
    · exact within_nil _
  rw [swapEdits_inner, filter_numbered (E := fun _ c =>
    if c.isNamed && decide (c.kind ≠ .comment) then [s.replacement c text] else []) hwithin
    (hs.spanned hspans).follow hi]
  refine filter_touches_eq_self fun e he => ⟨?_, ?_⟩
  · exact hwithin (i, c) (mem_numbered_of_getElem? hi) e he
  · split at he
    · rw [List.mem_singleton.1 he]
      rfl
    · exact absurd he List.not_mem_nil

/-- Of what is put in instead of a node, and of a call at the node, what touches a child is put in
instead of the child. -/
theorem filter_swaps (hs : s.IsLaidOut) (hspans : n.all (Node.isSpanned s.text) = true)
    (hsound : n.all Node.isSound = true) (hfits : SwapFits rebinds swap n)
    (hwhole : ∀ text, swap ≠ .whole text)
    (hp : ∀ e ∈ s.swapEdits n swap ++ (if redirects then s.callEdits names n else []), e.IsProper)
    (hi : n.children[i]? = some c) :
    (s.swapEdits n swap ++ if redirects then s.callEdits names n else []).filter
        (touches (s.startAt c) (s.stopAt c)) =
      s.swapEdits c (s.childSwap names redirects swap n i c) := by
  have hcall : (if redirects then s.callEdits names n else []).filter
      (touches (s.startAt c) (s.stopAt c)) =
      s.swapEdits c (if redirects then s.callSwap names n i else .none) := by
    cases redirects with
    | false => rfl
    | true =>
      exact filter_callEdits hs hspans (fun e he => hp e (List.mem_append_right _ he)) hi
  rw [List.filter_append, hcall]
  unfold childSwap
  cases swap with
  | none => rfl
  | whole text => exact absurd rfl (hwhole text)
  | inner text =>
    have hinner := filter_swapEdits_inner hs hspans
      (fun e he => hp e (List.mem_append_left _ he)) hi
    rw [hinner]
    by_cases hc : (c.isNamed && decide (c.kind ≠ .comment)) = true
    · obtain ⟨hn, hk⟩ := Bool.and_eq_true_iff.1 hc
      obtain ⟨argument, hargs, hstring⟩ := hfits
      have hmem := mem_mainChildren hi hn (of_decide_eq_true hk)
      rw [hargs, List.mem_singleton] at hmem
      subst hmem
      have hnone : (if redirects then s.callSwap names n i else Swap.none) = .none := by
        rw [callSwap_eq_none hsound hstring hi]
        split <;> rfl
      simp only [if_pos hc, hnone]
      rfl
    · simp only [if_neg hc, List.nil_append]

theorem filter_visitsOfNode (hs : s.IsLaidOut) (hspans : n.all (Node.isSpanned s.text) = true)
    (hsound : n.all Node.isSound = true) (hi : n.children[i]? = some c) :
    (if rebinds then (visitsIn statement trail n).flatMap (s.localEdits imports)
      else []).filter (touches (s.startAt c) (s.stopAt c)) =
      if rebinds && (c.isNamed && !c.kind.isSkipped) then
        (visitsIn statement ((n, i) :: trail) c).flatMap (s.localEdits imports) else [] := by
  cases rebinds with
  | false => rfl
  | true =>
    rw [if_pos rfl, filter_visitsIn hs hspans hsound hi, childEdits, Bool.true_and]
    split
    · rfl
    · rfl

theorem redirectsOfNode_eq : (if redirects then s.redirectsIn names n else []) =
    (if redirects then s.callEdits names n else []) ++
      (Node.numbered 0 n.children).flatMap fun e =>
        if redirects && e.2.isNamed then s.redirectsIn names e.2 else [] := by
  cases redirects with
  | false => simp
  | true =>
    rw [if_pos rfl, redirectsIn_eq]
    rfl

theorem within_redirectsOfChild (hs : s.IsLaidOut) (hspans : n.all (Node.isSpanned s.text) = true)
    (hp : ∀ e ∈ (if redirects then s.redirectsIn names n else []), e.IsProper) {e : Nat × Node}
    (he : e ∈ Node.numbered 0 n.children) :
    s.Within e.2 (if redirects && e.2.isNamed then s.redirectsIn names e.2 else []) := by
  rw [redirectsOfNode_eq] at hp
  have hpe : ∀ x ∈ (if redirects && e.2.isNamed then s.redirectsIn names e.2 else []),
      x.IsProper :=
    fun x hx => hp x (List.mem_append_right _ (List.mem_flatMap.2 ⟨e, he, hx⟩))
  by_cases hn : (redirects && e.2.isNamed) = true
  · rw [if_pos hn] at hpe ⊢
    exact within_redirectsIn hs ((Node.all_iff.1 hspans).2 e.2 (mem_numbered he).1) hpe
  · rw [if_neg hn]
    exact within_nil _

theorem filter_redirectsOfChildren (hs : s.IsLaidOut)
    (hspans : n.all (Node.isSpanned s.text) = true)
    (hp : ∀ e ∈ (if redirects then s.redirectsIn names n else []), e.IsProper)
    (hi : n.children[i]? = some c) :
    ((Node.numbered 0 n.children).flatMap fun e =>
      if redirects && e.2.isNamed then s.redirectsIn names e.2 else []).filter
        (touches (s.startAt c) (s.stopAt c)) =
      if redirects && c.isNamed then s.redirectsIn names c else [] := by
  have hwithin : ∀ e ∈ Node.numbered 0 n.children, s.Within e.2
      (if redirects && e.2.isNamed then s.redirectsIn names e.2 else []) :=
    fun e he => within_redirectsOfChild hs hspans hp he
  rw [filter_numbered (E := fun _ c =>
    if redirects && c.isNamed then s.redirectsIn names c else []) hwithin
    (hs.spanned hspans).follow hi]
  refine filter_touches_eq_self fun e he =>
    ⟨hwithin (i, c) (mem_numbered_of_getElem? hi) e he, ?_⟩
  split at he
  · exact isDeletion_of_mem_redirectsIn he
  · exact absurd he List.not_mem_nil

theorem filter_nodeEdits (hs : s.IsLaidOut) (hspans : n.all (Node.isSpanned s.text) = true)
    (hsound : n.all Node.isSound = true) (hfits : SwapFits rebinds swap n)
    (hwhole : ∀ text, swap ≠ .whole text)
    (hp : ∀ e ∈ s.nodeEdits names imports statement rebinds redirects trail swap n, e.IsProper)
    (hi : n.children[i]? = some c) :
    (s.nodeEdits names imports statement rebinds redirects trail swap n).filter
        (touches (s.startAt c) (s.stopAt c)) =
      s.nodeEdits names imports statement (rebinds && (c.isNamed && !c.kind.isSkipped))
        (redirects && c.isNamed) ((n, i) :: trail) (s.childSwap names redirects swap n i c) c := by
  rw [nodeEdits] at hp
  have hpr : ∀ e ∈ (if redirects then s.redirectsIn names n else []), e.IsProper :=
    fun e he => hp e (List.mem_append_right _ (List.mem_append_right _ he))
  have hps : ∀ e ∈ s.swapEdits n swap ++ (if redirects then s.callEdits names n else []),
      e.IsProper := by
    intro e he
    rcases List.mem_append.1 he with he | he
    · exact hp e (List.mem_append_right _ (List.mem_append_left _ he))
    · refine hpr e ?_
      rw [redirectsOfNode_eq]
      exact List.mem_append_left _ he
  rw [nodeEdits, nodeEdits, redirectsOfNode_eq, ← List.append_assoc (s.swapEdits n swap),
    List.filter_append, List.filter_append, filter_visitsOfNode hs hspans hsound hi,
    filter_redirectsOfChildren hs hspans hpr hi,
    filter_swaps hs hspans hsound hfits hwhole hps hi]

/-! ## Printing -/

theorem printNode_eq (hwhole : ∀ text, swap ≠ .whole text) :
    s.printNode names imports rebinds redirects trail swap n =
      if rebinds && n.kind.isNameUse then s.printName imports trail n
      else s.printChildren names imports rebinds redirects trail swap n (s.startAt n) 0
        n.children := by
  cases n
  unfold printNode
  cases swap with
  | whole text => exact absurd rfl (hwhole text)
  | _ => rfl

theorem stretch_eq_printChildren {es : List Edit} {cs : List Node} {start : Nat}
    (hfollow : s.Follow start (s.stopAt n) cs)
    (hgap : ∀ x y, start ≤ x → y ≤ s.stopAt n →
      (∀ c ∈ cs, s.stopAt c ≤ x ∨ y ≤ s.startAt c) → es.filter (touches x y) = [])
    (hchild : ∀ j c, cs[j]? = some c → stretch s.text es (s.startAt c) (s.stopAt c) =
      s.printNode names imports (rebinds && (c.isNamed && !c.kind.isSkipped))
        (redirects && c.isNamed) ((n, i + j) :: trail)
        (s.childSwap names redirects swap n (i + j) c) c) :
    stretch s.text es start (s.stopAt n) =
      s.printChildren names imports rebinds redirects trail swap n start i cs := by
  -- Each child takes the gap in front of it along, and the last gap ends the list.
  induction cs generalizing start i with
  | nil =>
    rw [printChildren]
    exact stretch_untouched (hgap start _ le_rfl le_rfl fun c hc => absurd hc List.not_mem_nil)
  | cons c cs ih =>
    obtain ⟨h1, h2, h3⟩ := hfollow
    have hfront : stretch s.text es start (s.startAt c) = s.text.cut start (s.startAt c) := by
      refine stretch_untouched (hgap start (s.startAt c) le_rfl (h2.trans h3.le) fun d hd => ?_)
      rcases List.mem_cons.1 hd with rfl | hd
      · exact .inr le_rfl
      · exact .inr (h2.trans (h3.bounds hd).1)
    have hrest := @ih (i + 1) (s.stopAt c) h3
      (fun x y hx hy hd => hgap x y (h1.trans (h2.trans hx)) hy fun d hmem => by
        rcases List.mem_cons.1 hmem with rfl | hmem
        · exact .inl hx
        · exact hd d hmem)
      (fun j d hj => by
        have := hchild (j + 1) d hj
        rwa [Nat.add_comm j 1, ← Nat.add_assoc] at this)
    rw [printChildren, stretch_append (h1.trans h2) h3.le, stretch_append h1 h2, hfront, hrest,
      hchild 0 c rfl, Nat.add_zero]

theorem stretch_eq_printName (hs : s.IsLaidOut) (hspan : n.isSpanned s.text = true)
    (hsound : n.isSound = true) (hk : n.kind.isNameUse = true) :
    stretch s.text (s.localEdits imports ⟨statement, trail, n⟩) (s.startAt n) (s.stopAt n) =
      s.printName imports trail n := by
  have hlt := (hs.word hspan hsound (isWord_of_isNameUse hk)).2
  rw [localEdits, printName]
  cases s.rebinding? imports trail n with
  | none => exact stretch_nil
  | some r =>
    cases r with
    | replaced expression => exact stretch_replace expression hlt
    | expanded expression =>
      simp only
      rw [List.append_assoc]
      exact stretch_insertAfter _ hlt
    | declared name expression => exact stretch_nil

theorem nodeEdits_whole {text : Text} (hs : s.IsLaidOut) (hspan : n.isSpanned s.text = true)
    (hsound : n.isSound = true) (hfits : SwapFits rebinds (.whole text) n) :
    s.nodeEdits names imports statement rebinds redirects trail (.whole text) n =
      [s.replacement n text] := by
  rcases hfits with hcallee | ⟨hstring, rfl⟩
  · have hleaf := (hs.word hspan hsound (isWord_of_kind hcallee)).1
    have hcall : n.isDynamicImport = false := by
      rw [Node.isDynamicImport, hcallee]
      rfl
    have hred : s.redirectsIn names n = [] := by
      rw [redirectsIn_eq, callEdits, hcall, hleaf]
      rfl
    have hlocal : s.localEdits imports ⟨statement, trail, n⟩ = [] := by
      rw [localEdits, rebinding?, hcallee]
      rfl
    rw [nodeEdits, visitsIn_localEdits, hlocal, hred, hleaf]
    simp [Node.numbered, swapEdits]
  · have hred : s.redirectsIn names n = [] := by
      rw [redirectsIn, Node.descendants_eq, List.flatMap_eq_nil_iff]
      intro call hcall
      obtain ⟨hmem, hdyn⟩ := List.mem_filter.1 hcall
      exfalso
      rw [Node.isDynamicImport, Bool.and_eq_true, decide_eq_true_eq] at hdyn
      rcases List.mem_cons.1 hmem with rfl | hmem
      · rw [hstring] at hdyn
        exact absurd hdyn.1 (by decide)
      · have hpart := Node.isStringPart_of_mem hsound hstring hmem
        rw [Node.isStringPart, hdyn.1] at hpart
        exact absurd hpart (by decide)
    rw [nodeEdits, hred]
    simp [swapEdits]

theorem localEdits_eq_nil_of_not_isNameUse (h : n.kind.isNameUse = false) :
    s.localEdits imports ⟨statement, trail, n⟩ = [] := by
  rw [localEdits]
  cases hr : s.rebinding? imports trail n with
  | none => rfl
  | some r =>
    rw [isNameUse_of_rebinding? hr] at h
    exact absurd h.symm Bool.false_ne_true

theorem exists_child_of_mem_redirectsIn (hs : s.IsLaidOut)
    (hspans : n.all (Node.isSpanned s.text) = true)
    (hp : ∀ e ∈ s.redirectsIn names n, e.IsProper) {e : Edit} (he : e ∈ s.redirectsIn names n) :
    ∃ c ∈ n.children, Inside (s.startAt c) (s.stopAt c) e := by
  have hpe := hp e he
  rw [redirectsIn_eq] at he hp
  rcases List.mem_append.1 he with he | he
  · exact (exists_child_of_mem_callEdits hspans hs he hpe).2
  · obtain ⟨c, hc, he'⟩ := List.mem_flatMap.1 he
    have hmem := (mem_numbered hc).1
    by_cases hn : c.2.isNamed = true
    · rw [if_pos hn] at he'
      refine ⟨c.2, hmem, within_redirectsIn hs ((Node.all_iff.1 hspans).2 c.2 hmem)
        (fun x hx => hp x (List.mem_append_right _ (List.mem_flatMap.2 ⟨c, hc, ?_⟩))) e he'⟩
      rw [if_pos hn]
      exact hx
    · rw [if_neg hn] at he'
      exact absurd he' List.not_mem_nil

/-- Every edit of a node that is not printed as a name or as something else is inside a child. -/
theorem exists_child_of_mem_nodeEdits (hs : s.IsLaidOut)
    (hspans : n.all (Node.isSpanned s.text) = true) (hsound : n.all Node.isSound = true)
    (hwhole : ∀ text, swap ≠ .whole text) (hname : (rebinds && n.kind.isNameUse) = false)
    (hp : ∀ e ∈ s.nodeEdits names imports statement rebinds redirects trail swap n, e.IsProper)
    {e : Edit} (he : e ∈ s.nodeEdits names imports statement rebinds redirects trail swap n) :
    ∃ c ∈ n.children, Inside (s.startAt c) (s.stopAt c) e := by
  have hpe := hp e he
  rw [nodeEdits, List.mem_append, List.mem_append] at he
  rcases he with he | he | he
  · cases rebinds with
    | false => exact absurd he List.not_mem_nil
    | true =>
      rw [if_pos rfl, visitsIn_localEdits, localEdits_eq_nil_of_not_isNameUse hname,
        List.nil_append] at he
      obtain ⟨c, hc, he⟩ := List.mem_flatMap.1 he
      exact ⟨c.2, (mem_numbered hc).1, within_childEdits _ _ _ hs hspans hsound c hc e he⟩
  · cases swap with
    | none => exact absurd he List.not_mem_nil
    | whole text => exact absurd rfl (hwhole text)
    | inner text =>
      obtain ⟨c, hc, rfl⟩ := List.mem_map.1 he
      exact ⟨c, mem_of_mem_mainChildren hc, inside_replacement hpe⟩
  · cases redirects with
    | false => exact absurd he List.not_mem_nil
    | true =>
      rw [if_pos rfl] at he
      refine exists_child_of_mem_redirectsIn hs hspans (fun x hx => hp x ?_) he
      rw [nodeEdits]
      exact List.mem_append_right _ (List.mem_append_right _ hx)

/-- What stands between the children of a node is touched by none of its edits. -/
theorem filter_nodeEdits_gap (hs : s.IsLaidOut) (hspans : n.all (Node.isSpanned s.text) = true)
    (hsound : n.all Node.isSound = true) (hwhole : ∀ text, swap ≠ .whole text)
    (hname : (rebinds && n.kind.isNameUse) = false)
    (hp : ∀ e ∈ s.nodeEdits names imports statement rebinds redirects trail swap n, e.IsProper)
    {x y : Nat} (hgap : ∀ c ∈ n.children, s.stopAt c ≤ x ∨ y ≤ s.startAt c) :
    (s.nodeEdits names imports statement rebinds redirects trail swap n).filter
      (touches x y) = [] := by
  rw [List.filter_eq_nil_iff]
  intro e he
  obtain ⟨c, hc, hin⟩ := exists_child_of_mem_nodeEdits hs hspans hsound hwhole hname hp he
  rw [hin.touches_eq_false (hgap c hc)]
  exact Bool.false_ne_true

theorem nodeEdits_name (hs : s.IsLaidOut) (hspan : n.isSpanned s.text = true)
    (hsound : n.isSound = true) (hk : n.kind.isNameUse = true)
    (hwhole : ∀ text, swap ≠ .whole text) :
    s.nodeEdits names imports statement true redirects trail swap n =
      s.localEdits imports ⟨statement, trail, n⟩ := by
  have hleaf := (hs.word hspan hsound (isWord_of_isNameUse hk)).1
  have hkind : n.kind ≠ .callExpression := by
    intro hkind
    rw [hkind] at hk
    exact absurd hk Bool.false_ne_true
  have hcall : n.isDynamicImport = false := by
    rw [Node.isDynamicImport, decide_eq_false hkind, Bool.false_and]
  have hred : s.redirectsIn names n = [] := by
    rw [redirectsIn_eq, callEdits, hcall, hleaf]
    rfl
  have hswap : s.swapEdits n swap = [] := by
    cases swap with
    | none => rfl
    | whole text => exact absurd rfl (hwhole text)
    | inner text =>
      rw [swapEdits_inner, hleaf]
      rfl
  rw [nodeEdits, if_pos rfl, visitsIn_localEdits, hleaf, hswap, hred]
  simp [Node.numbered]

/-- The stretch of a node is what is printed of it, whenever the edits that touch it are its own. -/
theorem stretch_eq_printNode (hs : s.IsLaidOut) {es : List Edit}
    (hspans : n.all (Node.isSpanned s.text) = true) (hsound : n.all Node.isSound = true)
    (hfits : SwapFits rebinds swap n)
    (hp : ∀ e ∈ s.nodeEdits names imports statement rebinds redirects trail swap n, e.IsProper)
    (hes : es.filter (touches (s.startAt n) (s.stopAt n)) =
      s.nodeEdits names imports statement rebinds redirects trail swap n) :
    stretch s.text es (s.startAt n) (s.stopAt n) =
      s.printNode names imports rebinds redirects trail swap n := by
  induction n using Node.induct generalizing rebinds redirects trail swap with
  | step n ih =>
    obtain ⟨hspan', hspans'⟩ := Node.all_iff.1 hspans
    obtain ⟨hsound', hsounds'⟩ := Node.all_iff.1 hsound
    -- A node is printed as something else, as a name, or child by child.
    by_cases hw : ∃ text, swap = .whole text
    · obtain ⟨text, rfl⟩ := hw
      rw [nodeEdits_whole hs hspan' hsound' hfits] at hes hp
      rw [← stretch_filter, hes]
      have hlt : (s.startAt n : Int) < s.stopAt n := hp _ List.mem_cons_self
      cases n
      rw [printNode]
      exact stretch_replace text (by exact_mod_cast hlt)
    · have hwhole : ∀ text, swap ≠ .whole text := fun text h => hw ⟨text, h⟩
      rw [printNode_eq hwhole]
      by_cases hname : (rebinds && n.kind.isNameUse) = true
      · obtain ⟨rfl, hk⟩ := Bool.and_eq_true_iff.1 hname
        rw [if_pos hname, ← stretch_filter, hes, nodeEdits_name hs hspan' hsound' hk hwhole]
        exact stretch_eq_printName hs hspan' hsound' hk
      · rw [if_neg hname]
        have hspanned := hs.spanned hspans
        refine stretch_eq_printChildren hspanned.follow ?_ ?_
        · intro x y hx hy hgap
          rw [← filter_touches_of_le hx hy, hes]
          exact filter_nodeEdits_gap hs hspans hsound hwhole (Bool.not_eq_true _ ▸ hname) hp hgap
        · intro j c hj
          have hb := hspanned.follow.bounds (List.mem_of_getElem? hj)
          have hmem := List.mem_of_getElem? hj
          have hchild := filter_nodeEdits hs hspans hsound hfits hwhole hp hj
          rw [Nat.zero_add]
          refine ih c hmem (hspans' c hmem) (hsounds' c hmem) (childSwap_fits hfits hj) ?_ ?_
          · intro e he
            rw [← hchild] at he
            exact hp e (List.mem_filter.1 he).1
          · rw [← filter_touches_of_le hb.1 hb.2.2, hes, hchild]

end Script

end RegistryScript
