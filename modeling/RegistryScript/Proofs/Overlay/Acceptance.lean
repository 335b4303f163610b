import Mathlib
import RegistryScript.Proofs.Overlay.Stretch

/-! # Edits that are accepted

* `Edit.range?`, `Edit.leavesRoom`: the range an edit overwrites, and that another edit stays clear
  of it.
* `Takes.isBoundary`: the offsets of edits that were taken are boundaries.
* `Takes.exists_range`: an edited segment lies in the range of one of them.
* `Takes.accepts`: an edit whose offsets are in range is accepted if the edits before it leave room
  for it.
* `Takes.isOverlap_eq_false`: then it does not overlap them, whatever its offsets are.
-/

namespace RegistryScript
set_option autoImplicit false

def EditError.isOverlap : EditError → Bool
  | .overlap _ _ _ => true
  | _ => false

namespace Edit

def range? : Edit → Option (Int × Int)
  | .replace start stop _ | .delete start stop => if start < stop then some (start, stop) else none
  | _ => none

/-- A range does not get into the way of an edit: it does not reach into the range of the edit, nor
around its offset. -/
def StaysClear (start stop : Int) : Edit → Prop
  | .prepend _ | .append _ => True
  | .insertBefore p _ | .insertAfter p _ => p ≤ start ∨ stop ≤ p
  | .replace a b _ | .delete a b => b ≤ start ∨ stop ≤ a

/-- An edit does not get into the way of a later one. -/
def leavesRoom (e e' : Edit) : Prop := ∀ r, e.range? = some r → StaysClear r.1 r.2 e'

/-- The offsets of an edit are those of a text of some length, and what it replaces is not empty. -/
def FitsIn (length : Nat) : Edit → Prop
  | .prepend _ | .append _ => True
  | .insertBefore p _ | .insertAfter p _ => 0 ≤ p ∧ p ≤ length
  | .replace a b _ => 0 ≤ a ∧ a < b ∧ b ≤ length
  | .delete a b => 0 ≤ a ∧ a ≤ b ∧ b ≤ length

theorem exists_range_of_isCovered {es : List Edit} {p : Int} (h : isCovered p es = true) :
    ∃ e ∈ es, ∃ r, e.range? = some r ∧ r.1 ≤ p ∧ p < r.2 := by
  obtain ⟨e, he, h⟩ := List.any_eq_true.1 h
  refine ⟨e, he, ?_⟩
  cases e with
  | replace start stop text =>
    obtain ⟨h1, h2⟩ := of_decide_eq_true h
    exact ⟨(start, stop), if_pos (h1.trans_lt h2), h1, h2⟩
  | delete start stop =>
    obtain ⟨h1, h2⟩ := of_decide_eq_true h
    exact ⟨(start, stop), if_pos (h1.trans_lt h2), h1, h2⟩
  | _ => exact nomatch h

theorem mem_offsets_of_range {e : Edit} {r : Int × Int} (h : e.range? = some r) :
    r.1 ∈ e.offsets ∧ r.2 ∈ e.offsets := by
  cases e with
  | replace start stop text =>
    rw [range?, Option.ite_none_right_eq_some] at h
    obtain ⟨hlt, h⟩ := h
    obtain rfl := Option.some.inj h
    rw [offsets, if_pos hlt]
    simp
  | delete start stop =>
    rw [range?, Option.ite_none_right_eq_some] at h
    obtain ⟨hlt, h⟩ := h
    obtain rfl := Option.some.inj h
    rw [offsets, if_pos hlt]
    simp
  | _ => cases h

end Edit

namespace Overlay

variable {o o' : Overlay} {es : List Edit} {base : Text}

theorem accepted_sublist (o : Overlay) (es : List Edit) : (o.accepted es).Sublist es := by
  induction es generalizing o with
  | nil => exact .slnil
  | cons e es ih =>
    rw [accepted]
    split
    · exact (ih _).cons_cons e
    · exact (ih _).cons e

theorem takes_cons {e : Edit} :
    o.Takes (e :: es) o' ↔ ∃ o₁, outcome e.run o = (.ok (), o₁) ∧ o₁.Takes es o' := by
  rcases h : outcome e.run o with ⟨_ | ⟨⟩, o₁⟩
  · have ha : o.accepts e = false := by rw [accepts, h]; rfl
    constructor
    · rintro ⟨haccepted, -⟩
      rw [accepted, ha, if_neg Bool.false_ne_true] at haccepted
      have := (accepted_sublist (o.perform e) es).length_le
      rw [haccepted, List.length_cons] at this
      omega
    · rintro ⟨o₂, h₂, -⟩
      cases (Prod.mk.inj h₂).1
  · have ha : o.accepts e = true := by rw [accepts, h]; rfl
    have hp : o.perform e = o₁ := congrArg Prod.snd h
    rw [Takes, accepted, if_pos ha, performAll, List.foldl_cons, hp, List.cons_inj_right]
    constructor
    · exact fun hes => ⟨o₁, rfl, hes⟩
    · rintro ⟨o₂, h₂, hes⟩
      obtain rfl := (Prod.mk.inj h₂).2
      exact hes

/-! ## Refusals -/

theorem outcome_checkOffset_of_not {p : Int} (h : ¬ (0 ≤ p ∧ p ≤ o.base.length)) :
    outcome (checkOffset p) o = (.error (.outOfRange p o.base.length), o) := by
  rw [outcome_checkOffset, if_neg h]

theorem outcome_checkRange_refuses {start stop : Int} (h : ¬ o.InRange start stop) :
    ∃ err, outcome (checkRange start stop) o = (.error err, o) ∧ err.isOverlap = false := by
  obtain ⟨err, herr⟩ := outcome_checkRange_of_not_inRange h
  refine ⟨err, herr, ?_⟩
  rw [outcome_checkRange] at herr
  split at herr
  · rw [← Except.error.inj (Prod.mk.inj herr).1]
    rfl
  · split at herr
    · rw [← Except.error.inj (Prod.mk.inj herr).1]
      rfl
    · split at herr
      · rw [← Except.error.inj (Prod.mk.inj herr).1]
        rfl
      · exact nomatch (Prod.mk.inj herr).1

/-! ## Taken edits -/

theorem Takes.isBoundary (h : o.Takes es o') (hc : o.Consistent) :
    (∀ q, o.isBoundary q = true → o'.isBoundary q = true) ∧
      ∀ e ∈ es, ∀ q ∈ e.offsets, o'.isBoundary q = true := by
  induction es generalizing o with
  | nil =>
    obtain ⟨-, rfl⟩ := h
    exact ⟨fun q hq => hq, fun e he => absurd he List.not_mem_nil⟩
  | cons e es ih =>
    obtain ⟨o₁, hrun, hes⟩ := takes_cons.1 h
    rcases hc.settles e with ⟨err, herr⟩ | ⟨o₂, hmade⟩
    · rw [hrun] at herr
      exact nomatch (Prod.mk.inj herr).1
    · obtain rfl : o₁ = o₂ := (Prod.mk.inj (hrun.symm.trans hmade.outcome_eq)).2
      obtain ⟨hkeep, hnew⟩ := ih hes hmade.consistent
      refine ⟨fun q hq => hkeep q ((hmade.isBoundary_iff q).2 (.inr hq)), fun e' he' q hq => ?_⟩
      rcases List.mem_cons.1 he' with rfl | he'
      · exact hkeep q ((hmade.isBoundary_iff q).2 (.inl hq))
      · exact hnew e' he' q hq

section OfText

variable (h : (ofText base).Takes es o)
include h

theorem Takes.base_eq : o.base = base := by
  have hv := h.view (consistent_ofText base)
  have : o.view.base = base := by
    rw [hv, View.foldl_apply_base]
    rfl
  exact this

theorem Takes.isCovered (p : Int) : o.isCovered p = Edit.isCovered p es := by
  have hv := h.view (consistent_ofText base)
  have : o.view.covered p = Edit.isCovered p es := by
    rw [hv, View.foldl_apply_covered, view_ofText]
    exact Bool.false_or _
  exact this

theorem Takes.exists_range {key : Nat} (hk : key ∈ o.order)
    (he : (o.segment key).isEdited = true)
    (hlt : (o.segment key).start < (o.segment key).stop) :
    ∃ e ∈ es, ∃ r, e.range? = some r ∧ r.1 ≤ (o.segment key).start ∧
      (o.segment key).stop ≤ r.2 := by
  have hc := h.consistent (consistent_ofText base)
  have hcovered : o.isCovered (o.segment key).start = true :=
    isCovered_iff.2 ⟨key, hk, he, le_rfl, hlt⟩
  rw [h.isCovered] at hcovered
  obtain ⟨e, hmem, r, hr, h1, h2⟩ := Edit.exists_range_of_isCovered hcovered
  -- The end of the range is a boundary, and no boundary stands inside the segment.
  have hbound := (h.isBoundary (consistent_ofText base)).2 e hmem r.2
    (Edit.mem_offsets_of_range hr).2
  have hinside := hc.not_inside hbound hk
  exact ⟨e, hmem, r, hr, h1, by omega⟩

theorem Takes.accepts_insertion {p : Int} {e : Edit}
    (hroom : ∀ e' ∈ es, ∀ r, e'.range? = some r → p ≤ r.1 ∨ r.2 ≤ p)
    (hrun : RefusedInside e.run o p ∨ ∃ o', Made e.run o (o.view.apply e) e.offsets o') :
    ∃ o', outcome e.run o = (.ok (), o') := by
  rcases hrun with ⟨key, hk, he, h1, h2, -⟩ | ⟨o', hmade⟩
  · obtain ⟨e', he', r, hr, h3, h4⟩ := h.exists_range hk he (h1.trans h2)
    have := hroom e' he' r hr
    omega
  · exact ⟨o', hmade.outcome_eq⟩

theorem Takes.accepts_range {a b : Int} (text : Text) (hr : 0 ≤ a ∧ a < b ∧ b ≤ base.length)
    (hroom : ∀ e' ∈ es, ∀ r, e'.range? = some r → b ≤ r.1 ∨ r.2 ≤ a) :
    ∃ o', outcome (edit a b text) o = (.ok (), o') := by
  have hc := h.consistent (consistent_ofText base)
  rcases hc.outcome_edit text hr.1 hr.2.1 (by rw [h.base_eq]; exact hr.2.2) with
    ⟨key, hk, he, h1, h2, -⟩ | ⟨-, o', hmade⟩
  · have hbase : o.base ≠ [] := by
      rw [h.base_eq]
      rintro rfl
      have hlength : b ≤ 0 := hr.2.2
      omega
    have hlt := (hc.bounds hbase hk).2.1
    obtain ⟨e', he', r, hr, h3, h4⟩ := h.exists_range hk he hlt
    have := hroom e' he' r hr
    omega
  · exact ⟨o', hmade.outcome_eq⟩

/-- An edit whose offsets are in range is accepted if the edits so far leave room for it. -/
theorem Takes.accepts {e : Edit} (hfits : e.FitsIn base.length)
    (hroom : ∀ e' ∈ es, e'.leavesRoom e) : ∃ o', outcome e.run o = (.ok (), o') := by
  have hc := h.consistent (consistent_ofText base)
  have hbase := h.base_eq
  cases e with
  | prepend text => exact ⟨_, rfl⟩
  | append text => exact ⟨_, rfl⟩
  | insertBefore p text =>
    exact h.accepts_insertion hroom (hc.outcome_insertBefore text hfits.1 (hbase ▸ hfits.2))
  | insertAfter p text =>
    exact h.accepts_insertion hroom (hc.outcome_insertAfter text hfits.1 (hbase ▸ hfits.2))
  | replace a b text =>
    have hrange : o.InRange a b := ⟨hfits.1, hfits.2.1.le, hbase ▸ hfits.2.2⟩
    obtain ⟨o', ho'⟩ := h.accepts_range text hfits hroom
    exact ⟨o', (outcome_replace_of_lt text hrange hfits.2.1).trans ho'⟩
  | delete a b =>
    have hrange : o.InRange a b := ⟨hfits.1, hfits.2.1, hbase ▸ hfits.2.2⟩
    rcases hfits.2.1.eq_or_lt with rfl | hlt
    · exact ⟨o, outcome_delete_empty hrange⟩
    · obtain ⟨o', ho'⟩ := h.accepts_range [] ⟨hfits.1, hlt, hfits.2.2⟩ hroom
      exact ⟨o', (outcome_delete_of_lt hrange hlt).trans ho'⟩

theorem Takes.isOverlap_eq_false {e : Edit} (hroom : ∀ e' ∈ es, e'.leavesRoom e) {err : EditError}
    (hrun : outcome e.run o = (.error err, o')) : err.isOverlap = false := by
  by_cases hfits : e.FitsIn base.length
  · obtain ⟨o₁, ho₁⟩ := h.accepts hfits hroom
    exact nomatch ho₁.symm.trans hrun
  have hbase := h.base_eq
  cases e with
  | prepend text => exact absurd trivial hfits
  | append text => exact absurd trivial hfits
  | insertBefore p text =>
    have herr := (outcome_bind_of_error (outcome_checkOffset_of_not (hbase ▸ hfits))).symm.trans hrun
    rw [← Except.error.inj (Prod.mk.inj herr).1]
    rfl
  | insertAfter p text =>
    have herr := (outcome_bind_of_error (outcome_checkOffset_of_not (hbase ▸ hfits))).symm.trans hrun
    rw [← Except.error.inj (Prod.mk.inj herr).1]
    rfl
  | replace a b text =>
    by_cases hrange : o.InRange a b
    · obtain rfl : a = b := by
        by_contra hne
        exact hfits ⟨hrange.1, lt_of_le_of_ne hrange.2.1 hne, hbase ▸ hrange.2.2⟩
      have herr := (outcome_replace_empty text hrange).symm.trans hrun
      rw [← Except.error.inj (Prod.mk.inj herr).1]
      rfl
    · obtain ⟨err', hcheck, herr'⟩ := outcome_checkRange_refuses hrange
      have herr := (outcome_bind_of_error hcheck).symm.trans hrun
      rwa [← Except.error.inj (Prod.mk.inj herr).1]
  | delete a b =>
    have hrange : ¬ o.InRange a b := fun hin => hfits ⟨hin.1, hin.2.1, hbase ▸ hin.2.2⟩
    obtain ⟨err', hcheck, herr'⟩ := outcome_checkRange_refuses hrange
    have herr := (outcome_bind_of_error hcheck).symm.trans hrun
    rwa [← Except.error.inj (Prod.mk.inj herr).1]

end OfText

end Overlay

end RegistryScript
