import Mathlib
import RegistryScript.Proofs.Overlay.Acceptance

/-! # The order of edits

The edits of a collection in which no range gets into the way of another edit may be made in any
order. What they print depends on their order only where texts are inserted in the same place.

* `Edit.Slot`: a place in which inserted texts follow one another.
* `Edit.SameOrder`: two orders of edits agree in each of these places.
* `rendering_of_perm`: such orders have the same rendering.
* `Overlay.fitsIn_of_made`, `Overlay.Consistent.isOverlap_of_refused`: an edit that is made on one
  overlay is refused on another of the same text only because it overlaps an edit there.
* `exists_takes`: edits that leave room for those behind them are all accepted.
* `Compatible`: a collection of edits in which each leaves room for each other one.
* `Compatible.commute`: every order of them is accepted, and orders that agree where texts are
  inserted in the same place print the same.
-/

namespace RegistryScript
set_option autoImplicit false

namespace Edit

inductive Slot
  | front
  | back
  | before (offset : Int)
  | after (offset : Int)
deriving DecidableEq, Repr

/-- The place in which an edit inserts its text. The text of a replacement is alone in its place. -/
def slot? : Edit → Option Slot
  | .prepend _ => some .front
  | .append _ => some .back
  | .insertBefore offset _ => some (.before offset)
  | .insertAfter offset _ => some (.after offset)
  | .replace _ _ _ | .delete _ _ => none

/-- Two lists of edits insert the same texts in the same order, place by place. -/
def SameOrder (es es' : List Edit) : Prop :=
  ∀ slot, es.filter (fun e => e.slot? = some slot) = es'.filter fun e => e.slot? = some slot

/-! ## Renderings of permuted edits -/

section Rendering

variable {es es' : List Edit}

theorem SameOrder.filterMap_eq (h : SameOrder es es') (slot : Slot) {text? : Edit → Option Text}
    (hslot : ∀ e text, text? e = some text → e.slot? = some slot) :
    es.filterMap text? = es'.filterMap text? := by
  have hfilter (fs : List Edit) :
      fs.filterMap text? = (fs.filter fun e => e.slot? = some slot).filterMap text? := by
    rw [List.filterMap_filter]
    refine List.filterMap_congr fun e _ => ?_
    cases htext : text? e with
    | none => simp
    | some text => rw [if_pos (decide_eq_true (hslot e text htext))]
  rw [hfilter es, hfilter es', h slot]

theorem SameOrder.prepended_eq (h : SameOrder es es') : prepended es = prepended es' := by
  refine congrArg List.reverse (h.filterMap_eq .front fun e text htext => ?_)
  cases e <;> first | rfl | exact nomatch htext

theorem SameOrder.appended_eq (h : SameOrder es es') : appended es = appended es' := by
  refine h.filterMap_eq .back fun e text htext => ?_
  cases e <;> first | rfl | exact nomatch htext

theorem SameOrder.textsBefore_eq (h : SameOrder es es') (p : Int) :
    textsBefore p es = textsBefore p es' := by
  refine h.filterMap_eq (.before p) fun e text htext => ?_
  cases e with
  | insertBefore q text' =>
    obtain ⟨rfl, -⟩ := (Option.ite_none_right_eq_some ..).1 htext
    rfl
  | _ => exact nomatch htext

theorem SameOrder.textsAfter_eq (h : SameOrder es es') (p : Int) :
    textsAfter p es = textsAfter p es' := by
  refine h.filterMap_eq (.after p) fun e text htext => ?_
  cases e with
  | insertAfter q text' =>
    obtain ⟨rfl, -⟩ := (Option.ite_none_right_eq_some ..).1 htext
    rfl
  | _ => exact nomatch htext

theorem flatMap_of_perm {α β : Type} {f : α → List β} {xs ys : List α} (hperm : xs.Perm ys)
    (halone : xs.Pairwise fun x y => f x = [] ∨ f y = []) : xs.flatMap f = ys.flatMap f := by
  induction hperm with
  | nil => rfl
  | cons x _ ih =>
    rw [List.flatMap_cons, List.flatMap_cons, ih (List.pairwise_cons.1 halone).2]
  | swap x y l =>
    have hxy := (List.pairwise_cons.1 halone).1 x List.mem_cons_self
    rcases hxy with h | h <;> simp [List.flatMap_cons, h]
  | trans h₁ _ ih₁ ih₂ =>
    exact (ih₁ halone).trans (ih₂ ((h₁.pairwise_iff fun h => h.symm).1 halone))

/-- Of edits that leave room for those behind them, at most one replaces a range that starts at a
given offset. -/
theorem textInPlace_of_perm (hperm : es.Perm es') (hproper : ∀ e ∈ es, e.IsProper)
    (hroom : es.Pairwise leavesRoom) (p : Int) : textInPlace p es = textInPlace p es' := by
  refine flatMap_of_perm hperm (hroom.imp_of_mem fun {e f} he hf hef => ?_)
  cases e with
  | replace a b text =>
    cases f with
    | replace a' b' text' =>
      have hab : a < b := hproper _ he
      have hab' : a' < b' := hproper _ hf
      have hclear : b' ≤ a ∨ b ≤ a' := hef (a, b) (if_pos hab)
      by_cases ha : a = p
      · exact .inr (if_neg (by omega))
      · exact .inl (if_neg ha)
    | _ => exact .inr rfl
  | _ => exact .inl rfl

theorem rendering_of_perm (hperm : es.Perm es') (hproper : ∀ e ∈ es, e.IsProper)
    (hroom : es.Pairwise leavesRoom) (hsame : SameOrder es es') (base : Text) :
    rendering base es = rendering base es' := by
  have hat : renderingAt base es = renderingAt base es' := by
    funext p
    rw [renderingAt, renderingAt, hsame.textsAfter_eq, hsame.textsBefore_eq,
      textInPlace_of_perm hperm hproper hroom, show isCovered p es = isCovered p es' from
        hperm.any_eq]
  rw [rendering, rendering, hat, hsame.prepended_eq, hsame.appended_eq]

end Rendering

theorem isProper_of_fitsIn {e : Edit} {length : Nat} (h : e.FitsIn length) : e.IsProper := by
  cases e with
  | replace a b text => exact h.2.1
  | _ => trivial

/-! ## Compatible edits -/

/-- A collection of edits of a text of some length: their offsets are in range, and no range
reaches into another one or around an offset at which a text is inserted. -/
structure Compatible (length : Nat) (es : List Edit) : Prop where
  fits : ∀ e ∈ es, e.FitsIn length
  room : es.Pairwise fun e e' => e.leavesRoom e' ∧ e'.leavesRoom e

theorem Compatible.of_perm {length : Nat} {es es' : List Edit} (h : Compatible length es)
    (hperm : es.Perm es') : Compatible length es' :=
  ⟨fun e he => h.fits e (hperm.mem_iff.2 he), (hperm.pairwise_iff And.symm).1 h.room⟩

instance (length : Nat) : DecidablePred (FitsIn length)
  | .prepend _ | .append _ => .isTrue trivial
  | .insertBefore p _ | .insertAfter p _ => inferInstanceAs (Decidable (0 ≤ p ∧ p ≤ length))
  | .replace a b _ => inferInstanceAs (Decidable (0 ≤ a ∧ a < b ∧ b ≤ length))
  | .delete a b => inferInstanceAs (Decidable (0 ≤ a ∧ a ≤ b ∧ b ≤ length))

instance (start stop : Int) : DecidablePred (StaysClear start stop)
  | .prepend _ | .append _ => .isTrue trivial
  | .insertBefore p _ | .insertAfter p _ => inferInstanceAs (Decidable (p ≤ start ∨ stop ≤ p))
  | .replace a b _ | .delete a b => inferInstanceAs (Decidable (b ≤ start ∨ stop ≤ a))

instance (e e' : Edit) : Decidable (e.leavesRoom e') :=
  decidable_of_iff (∀ r ∈ e.range?, StaysClear r.1 r.2 e') Iff.rfl

instance (length : Nat) (es : List Edit) : Decidable (Compatible length es) :=
  decidable_of_iff ((∀ e ∈ es, e.FitsIn length) ∧
    es.Pairwise fun e e' => e.leavesRoom e' ∧ e'.leavesRoom e)
    ⟨fun h => ⟨h.1, h.2⟩, fun h => ⟨h.fits, h.room⟩⟩

end Edit

/-! ## One edit on several overlays -/

namespace Overlay

section Base

variable {o o' : Overlay} {e : Edit}

theorem fitsIn_of_made (h : outcome e.run o = (.ok (), o')) : e.FitsIn o.base.length := by
  have hoffset {x : Editing Unit} {p : Int}
      (h : outcome (checkOffset p >>= fun _ => x) o = (.ok (), o')) :
      0 ≤ p ∧ p ≤ o.base.length := by
    by_contra hnot
    rw [outcome_bind_of_error (outcome_checkOffset_of_not hnot)] at h
    exact nomatch (Prod.mk.inj h).1
  have hrange {x : Editing Unit} {a b : Int}
      (h : outcome (checkRange a b >>= fun _ => x) o = (.ok (), o')) : o.InRange a b := by
    by_contra hnot
    obtain ⟨err, herr⟩ := outcome_checkRange_of_not_inRange hnot
    rw [outcome_bind_of_error herr] at h
    exact nomatch (Prod.mk.inj h).1
  cases e with
  | prepend text => trivial
  | append text => trivial
  | insertBefore p text => exact hoffset h
  | insertAfter p text => exact hoffset h
  | replace a b text =>
    obtain ⟨h1, h2, h3⟩ := hrange h
    have ha : o.accepts (.replace a b text) = true := by rw [accepts, h]; rfl
    exact ⟨h1, isProper_of_accepts ha, h3⟩
  | delete a b => exact hrange h

theorem Consistent.isOverlap_of_refused (hc : o.Consistent) (hfits : e.FitsIn o.base.length)
    {err : EditError} (h : outcome e.run o = (.error err, o')) : err.isOverlap = true := by
  have hinsertion {p : Int} (hcases : RefusedInside e.run o p ∨
      ∃ o', Made e.run o (o.view.apply e) e.offsets o') : err.isOverlap = true := by
    rcases hcases with ⟨key, -, -, -, -, hrun⟩ | ⟨o₁, hmade⟩
    · rw [Except.error.inj (Prod.mk.inj (h.symm.trans hrun)).1]
      rfl
    · exact nomatch (Prod.mk.inj (h.symm.trans hmade.outcome_eq)).1
  have hrange {a b : Int} {text : Text} (hlt : a < b) (h0 : 0 ≤ a) (hn : b ≤ o.base.length)
      (hrun : outcome (edit a b text) o = (.error err, o')) : err.isOverlap = true := by
    rcases hc.outcome_edit text h0 hlt hn with ⟨key, -, -, -, -, hrefused⟩ | ⟨-, o₁, hmade⟩
    · rw [Except.error.inj (Prod.mk.inj (hrun.symm.trans hrefused)).1]
      rfl
    · exact nomatch (Prod.mk.inj (hrun.symm.trans hmade.outcome_eq)).1
  cases e with
  | prepend text => exact nomatch (Prod.mk.inj h).1
  | append text => exact nomatch (Prod.mk.inj h).1
  | insertBefore p text => exact hinsertion (hc.outcome_insertBefore text hfits.1 hfits.2)
  | insertAfter p text => exact hinsertion (hc.outcome_insertAfter text hfits.1 hfits.2)
  | replace a b text =>
    have hin : o.InRange a b := ⟨hfits.1, hfits.2.1.le, hfits.2.2⟩
    exact hrange hfits.2.1 hfits.1 hfits.2.2 ((outcome_replace_of_lt text hin hfits.2.1).symm.trans h)
  | delete a b =>
    have hin : o.InRange a b := ⟨hfits.1, hfits.2.1, hfits.2.2⟩
    rcases hfits.2.1.eq_or_lt with rfl | hlt
    · exact nomatch (Prod.mk.inj (h.symm.trans (outcome_delete_empty hin))).1
    · exact hrange hlt hfits.1 hfits.2.2 ((outcome_delete_of_lt hin hlt).symm.trans h)

theorem Consistent.of_made (hc : o.Consistent) (h : outcome e.run o = (.ok (), o')) :
    o'.Consistent ∧ o'.base = o.base := by
  have htakes := takes_single h
  have hview : o'.view.base = o.base := by
    rw [htakes.view hc, View.foldl_apply_base]
    rfl
  exact ⟨htakes.consistent hc, hview⟩

end Base

end Overlay

/-! ## Accepted orders -/

namespace Overlay

theorem exists_takes {base : Text} {es : List Edit} (hfits : ∀ e ∈ es, e.FitsIn base.length)
    (hroom : es.Pairwise Edit.leavesRoom) : ∃ o, (ofText base).Takes es o := by
  -- The last edit is judged by all those before it, so the list is taken apart from its end.
  induction es using List.reverseRecOn with
  | nil => exact ⟨_, takes_nil⟩
  | append_singleton es e ih =>
    obtain ⟨hes, -, hlast⟩ := List.pairwise_append.1 hroom
    obtain ⟨o, ho⟩ := ih (fun e' he' => hfits e' (List.mem_append_left _ he')) hes
    have he : e ∈ [e] := List.mem_singleton_self e
    obtain ⟨o', ho'⟩ := ho.accepts (hfits e (List.mem_append_right _ he))
      fun e' he' => hlast e' he' e he
    exact ⟨o', ho.append (takes_single ho')⟩

end Overlay

/-- In every order of compatible edits none is refused, and any two orders that keep the order of
the texts inserted in the same place print the same text. -/
theorem Edit.Compatible.commute {base : Text} {es : List Edit} (h : Compatible base.length es) :
    (∀ es', es.Perm es' → (Overlay.ofText base).accepted es' = es') ∧
      ∀ es₁ es₂, es.Perm es₁ → es.Perm es₂ → SameOrder es₁ es₂ →
        ((Overlay.ofText base).performAll es₁).serialize =
          ((Overlay.ofText base).performAll es₂).serialize := by
  have htakes (es' : List Edit) (hperm : es.Perm es') :
      ∃ o, (Overlay.ofText base).Takes es' o :=
    Overlay.exists_takes (h.of_perm hperm).fits ((h.of_perm hperm).room.imp And.left)
  refine ⟨fun es' hperm => (htakes es' hperm).choose_spec.1, fun es₁ es₂ h₁ h₂ hsame => ?_⟩
  obtain ⟨o₁, ho₁⟩ := htakes es₁ h₁
  obtain ⟨o₂, ho₂⟩ := htakes es₂ h₂
  rw [ho₁.2, ho₂.2, ho₁.serialize, ho₂.serialize]
  exact rendering_of_perm (h₁.symm.trans h₂)
    (fun e he => isProper_of_fitsIn ((h.of_perm h₁).fits e he))
    ((h.of_perm h₁).room.imp And.left) hsame base

theorem Edit.commute_sample :
    let base : Text := ['a', 'b', 'c', 'd', 'e']
    let es : List Edit := [.replace 1 3 ['x'], .insertBefore 1 ['1'], .insertBefore 1 ['2'],
      .insertAfter 3 ['3'], .delete 3 4, .prepend ['p'], .append ['q']]
    let es' : List Edit := [.delete 3 4, .append ['q'], .insertAfter 3 ['3'], .prepend ['p'],
      .insertBefore 1 ['1'], .replace 1 3 ['x'], .insertBefore 1 ['2']]
    Compatible base.length es ∧ (Overlay.ofText base).accepted es' = es' ∧
      ((Overlay.ofText base).performAll es).serialize =
        ((Overlay.ofText base).performAll es').serialize := by
  intro base es es'
  have hes : Compatible base.length es := by decide
  have hperm : es.Perm es' := by decide
  have hsame : SameOrder es es' := by
    intro slot
    simp only [es, es', List.filter_cons, slot?]
    cases slot <;> simp
  exact ⟨hes, hes.commute.1 es' hperm, hes.commute.2 es es' (List.Perm.refl es) hperm hsame⟩

end RegistryScript
