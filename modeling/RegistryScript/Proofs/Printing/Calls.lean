import Mathlib
import RegistryScript.Proofs.Printing.Printer

/-! # Redirected calls in the printer

* `swapEdits`: the edits that put in what is printed instead of a node.
* `redirectEdits_spec`: a redirected call replaces its callee and its argument, which are one of its
  children and the only node inside another.
* `Script.filter_redirectEdits`: the edits of a call that touch one of its children put in what is
  printed instead of the child.
-/

namespace RegistryScript
set_option autoImplicit false

open Edit

/-! ## Edits of swaps -/

/-- The nodes inside a node, comments and tokens left out. -/
def Node.mainChildren (n : Node) : List Node := n.namedChildren.filter fun c => c.kind ≠ .comment

def Script.replacement (s : Script) (n : Node) (text : Text) : Edit :=
  .replace (s.startAt n) (s.stopAt n) text

def Script.swapEdits (s : Script) (n : Node) : Swap → List Edit
  | .none => []
  | .whole text => [s.replacement n text]
  | .inner text => n.mainChildren.map fun c => s.replacement c text

namespace Script

variable {s : Script} {names : Settings} {n c : Node}

theorem inside_replacement {text : Text} (h : (s.replacement n text).IsProper) :
    Inside (s.startAt n) (s.stopAt n) (s.replacement n text) :=
  ⟨le_rfl, h, le_rfl⟩

theorem within_replacement {text : Text} (h : (s.replacement n text).IsProper) :
    s.Within n [s.replacement n text] := by
  intro e he
  rw [List.mem_singleton.1 he]
  exact inside_replacement h

theorem mem_of_mem_mainChildren (h : c ∈ n.mainChildren) : c ∈ n.children :=
  (List.mem_filter.1 (List.mem_filter.1 h).1).1

theorem isDeletion_of_mem_swapEdits {swap : Swap} {e : Edit} (he : e ∈ s.swapEdits n swap) :
    e.isDeletion = false := by
  cases swap with
  | none => exact absurd he List.not_mem_nil
  | whole text =>
    rw [List.mem_singleton.1 he]
    rfl
  | inner text =>
    obtain ⟨c, -, rfl⟩ := List.mem_map.1 he
    rfl

theorem callArguments_eq_singleton_iff {call argument : Node} :
    call.callArguments = [argument] ↔ ∃ arguments, call.child? .arguments = some arguments ∧
      (arguments.namedChildren.filter fun n => n.kind ≠ .comment) = [argument] := by
  rw [Node.callArguments]
  cases call.child? .arguments with
  | none => simp
  | some arguments => simp

theorem isDynamicImport_iff {call : Node} :
    call.isDynamicImport = true ↔ call.kind = .callExpression ∧
      ∃ callee, call.child? .function = some callee ∧ callee.kind = .importCallee := by
  rw [Node.isDynamicImport, Bool.and_eq_true, decide_eq_true_eq]
  refine and_congr_right fun _ => ?_
  cases call.child? .function with
  | none => simp
  | some callee => simp

variable (names) in
theorem redirectKey?_eq_some {call : Node} {key : Text} (h : s.redirectKey? call = some key) :
    ∃ callee arguments argument, call.child? .function = some callee ∧
      callee.kind = .importCallee ∧ call.child? .arguments = some arguments ∧
      arguments.mainChildren = [argument] ∧ argument.kind = .string ∧
      redirectEdits s names call =
        [s.replacement callee names.dynamicImportHelper, s.replacement argument key] := by
  rw [redirectKey?] at h
  split at h
  · next hd =>
    obtain ⟨-, callee, hcallee, himport⟩ := isDynamicImport_iff.1 hd
    split at h
    · next argument harguments =>
      obtain ⟨arguments, ha, hmain⟩ := callArguments_eq_singleton_iff.1 harguments
      split at h
      · next hk =>
        refine ⟨callee, arguments, argument, hcallee, himport, ha, hmain,
          of_decide_eq_true (Bool.and_eq_true_iff.1 hk).1, ?_⟩
        rw [redirectEdits, hcallee, harguments]
        simp only [if_pos hk, ← Option.some.inj h]
        rfl
      · cases h
    · cases h
  · cases h

theorem exists_replacement_of_mem_redirectEdits {e : Edit} (he : e ∈ redirectEdits s names n) :
    ∃ c text, e = s.replacement c text := by
  unfold redirectEdits at he
  split at he
  · next callee argument _ _ =>
    split at he
    · rcases List.mem_cons.1 he with rfl | he
      · exact ⟨callee, _, rfl⟩
      · exact ⟨argument, _, List.mem_singleton.1 he⟩
    · exact absurd he List.not_mem_nil
  · exact absurd he List.not_mem_nil

theorem redirectEdits_eq_nil {call : Node} (hd : call.isDynamicImport = true)
    (h : s.redirectKey? call = none) : redirectEdits s names call = [] := by
  rw [redirectKey?, if_pos hd] at h
  unfold redirectEdits
  split
  · next callee argument _ hargs =>
    rw [hargs] at h
    by_cases hk : (decide (argument.kind = .string) && isRelative (s.stringAt argument)) = true
    · simp only [if_pos hk, reduceCtorEq] at h
    · rw [if_neg hk]
  · rfl

def callEdits (s : Script) (names : Settings) (n : Node) : List Edit :=
  if n.isDynamicImport then redirectEdits s names n else []

theorem callEdits_eq_nil (h : s.redirectKey? n = none) : s.callEdits names n = [] := by
  rw [callEdits]
  by_cases hd : n.isDynamicImport = true
  · rw [if_pos hd, redirectEdits_eq_nil hd h]
  · rw [if_neg hd]

theorem isDynamicImport_of_redirectKey? {key : Text} (h : s.redirectKey? n = some key) :
    n.isDynamicImport = true := by
  by_contra hd
  rw [redirectKey?, if_neg hd] at h
  exact nomatch h

theorem exists_child_of_mem_callEdits (hspans : n.all (Node.isSpanned s.text) = true)
    (hs : s.IsLaidOut) {e : Edit} (he : e ∈ s.callEdits names n) (hp : e.IsProper) :
    e.isDeletion = false ∧ ∃ c ∈ n.children, Inside (s.startAt c) (s.stopAt c) e := by
  cases hk : s.redirectKey? n with
  | none =>
    rw [callEdits_eq_nil hk] at he
    exact absurd he List.not_mem_nil
  | some key =>
    obtain ⟨callee, arguments, argument, hf, -, ha, hargs, -, hedits⟩ :=
      redirectKey?_eq_some names hk
    rw [callEdits, if_pos (isDynamicImport_of_redirectKey? hk), hedits, List.mem_cons,
      List.mem_singleton] at he
    obtain ⟨i, -, hi, -⟩ := Node.exists_child hf
    obtain ⟨j, -, hj, -⟩ := Node.exists_child ha
    have hmem := List.mem_of_getElem? hj
    rcases he with rfl | rfl
    · exact ⟨rfl, callee, List.mem_of_getElem? hi, inside_replacement hp⟩
    · have harg : argument ∈ arguments.children :=
        mem_of_mem_mainChildren (by rw [hargs]; exact List.mem_singleton.2 rfl)
      have hb := (hs.spanned ((Node.all_iff.1 hspans).2 arguments hmem)).follow.bounds harg
      exact ⟨rfl, arguments, hmem, (inside_replacement hp).mono hb.1 hb.2.2⟩

/-- The edits of a call that touch one of its children put in what is printed instead of it. -/
theorem filter_callEdits (hs : s.IsLaidOut) (hspans : n.all (Node.isSpanned s.text) = true)
    (hp : ∀ e ∈ s.callEdits names n, e.IsProper) {i : Nat} (hi : n.children[i]? = some c) :
    (s.callEdits names n).filter (touches (s.startAt c) (s.stopAt c)) =
      s.swapEdits c (s.callSwap names n i) := by
  cases hk : s.redirectKey? n with
  | none =>
    rw [callEdits_eq_nil hk, callSwap, hk]
    rfl
  | some key =>
    obtain ⟨callee, arguments, argument, hf, -, ha, hargs, -, hedits⟩ :=
      redirectKey?_eq_some names hk
    have hcall : s.callEdits names n =
        [s.replacement callee names.dynamicImportHelper, s.replacement argument key] := by
      rw [callEdits, if_pos (isDynamicImport_of_redirectKey? hk), hedits]
    rw [hcall] at hp ⊢
    obtain ⟨iF, hiF, hcF, hrF⟩ := Node.exists_child hf
    obtain ⟨iA, hiA, hcA, hrA⟩ := Node.exists_child ha
    have hne : iF ≠ iA := by
      rintro rfl
      rw [hcF] at hcA
      rw [Option.some.inj hcA, hrA] at hrF
      exact nomatch hrF
    have hfollow := (hs.spanned hspans).follow
    have hargument : argument ∈ arguments.children :=
      mem_of_mem_mainChildren (by rw [hargs]; exact List.mem_singleton.2 rfl)
    have hbounds := (hs.spanned ((Node.all_iff.1 hspans).2 arguments
      (List.mem_of_getElem? hcA))).follow.bounds hargument
    have hinF := inside_replacement (hp (s.replacement callee names.dynamicImportHelper)
      List.mem_cons_self)
    have hinA := (inside_replacement (hp (s.replacement argument key)
      (List.mem_cons_of_mem _ List.mem_cons_self))).mono hbounds.1 hbounds.2.2
    rw [callSwap, hk]
    simp only [Node.isChildAt, hiF, hiA, Option.some.injEq, decide_eq_true_eq]
    by_cases hF : iF = i
    · subst hF
      obtain rfl : callee = c := Option.some.inj (hcF.symm.trans hi)
      have happart := hfollow.apart_of_ne hcA hcF hne.symm
      rw [if_pos rfl, List.filter_cons, if_pos (hinF.touches_eq_true rfl), List.filter_singleton,
        hinA.touches_eq_false happart]
      rfl
    · rw [if_neg hF, List.filter_cons,
        hinF.touches_eq_false (hfollow.apart_of_ne hcF hi hF), if_neg Bool.false_ne_true]
      by_cases hA : iA = i
      · subst hA
        obtain rfl : arguments = c := Option.some.inj (hcA.symm.trans hi)
        rw [if_pos rfl, List.filter_singleton, hinA.touches_eq_true rfl, swapEdits, hargs]
        rfl
      · rw [if_neg hA, List.filter_singleton,
          hinA.touches_eq_false (hfollow.apart_of_ne hcA hi hA)]
        rfl

end Script

end RegistryScript
