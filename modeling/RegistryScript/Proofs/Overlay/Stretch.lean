import Mathlib
import RegistryScript.Proofs.Overlay.History

/-! # Stretches of a rendering

What edits make of a text is read stretch by stretch: a stretch of offsets is rendered by the edits
that touch it, and neighbouring stretches are rendered one after the other.

* `Edit.unitAt`, `Edit.stretch`: what edits make of the code point at an offset, and of those
  between two offsets.
* `Edit.rendering_eq_stretch`: a rendering is one stretch, but for what stands at both ends.
* `Edit.stretch_append`: a stretch is made up of its parts.
* `Edit.stretch_filter`: only the edits that touch a stretch count.
* `Overlay.Takes`: an overlay takes edits one after another, none of them being refused.
-/

namespace RegistryScript
set_option autoImplicit false

namespace Edit

variable (base : Text) (es : List Edit)

/-! ## Units and stretches -/

/-- What edits make of the code point at an offset, with the texts that cling to it in front and
behind. -/
def unitAt (p : Nat) : Text :=
  (textsBefore p es).flatten ++ textInPlace p es ++
    (if isCovered p es then [] else base[p]?.toList) ++ (textsAfter (p + 1) es).flatten

def stretch (a b : Nat) : Text := (List.range' a (b - a)).flatMap (unitAt base es)

theorem rendering_eq_stretch :
    rendering base es =
      (prepended es).flatten ++ (textsAfter 0 es).flatten ++ stretch base es 0 base.length ++
        ((textsBefore base.length es).flatten ++ textInPlace base.length es) ++
        (appended es).flatten := by
  have hat : renderingAt base es = fun p : Nat => (textsAfter p es).flatten ++
      ((textsBefore p es).flatten ++ textInPlace p es ++
        if isCovered p es then [] else base[p]?.toList) := by
    funext p
    rw [renderingAt]
    simp only [List.append_assoc]
  have hend : (if isCovered base.length es then [] else base[base.length]?.toList) = [] := by
    simp
  have hunit : ∀ p : Nat, ((textsBefore p es).flatten ++ textInPlace p es ++
      if isCovered p es then [] else base[p]?.toList) ++ (textsAfter (p + 1 : Nat) es).flatten =
        unitAt base es p := by
    intro p
    rw [unitAt, Nat.cast_add, Nat.cast_one]
  rw [rendering, hat, Overlay.flatMap_range_shift, hend, stretch, ← List.range_eq_range']
  simp only [hunit]
  simp only [List.append_assoc, List.append_nil, Nat.cast_zero, Nat.sub_zero]

variable {base es} {a b c : Nat}

theorem stretch_append (hab : a ≤ b) (hbc : b ≤ c) :
    stretch base es a c = stretch base es a b ++ stretch base es b c := by
  have hlen : c - a = (b - a) + (c - b) := by omega
  have hmid : a + 1 * (b - a) = b := by omega
  rw [stretch, hlen, ← List.range'_append, List.flatMap_append, hmid, stretch, stretch]

theorem stretch_self : stretch base es a a = [] := by
  rw [stretch, Nat.sub_self]
  rfl

theorem stretch_congr {es' : List Edit}
    (h : ∀ p, a ≤ p → p < b → unitAt base es p = unitAt base es' p) :
    stretch base es a b = stretch base es' a b := by
  refine List.flatMap_congr fun p hp => ?_
  have := List.mem_range'_1.1 hp
  exact h p (by omega) (by omega)

/-! ## The edits that touch a stretch -/

/-- An edit shows in the rendering of the code points between two offsets. -/
def touches (a b : Nat) : Edit → Bool
  | .prepend _ | .append _ => false
  | .insertBefore p _ => decide (a ≤ p ∧ p < b)
  | .insertAfter p _ => decide (a < p ∧ p ≤ b)
  | .replace start stop _ => decide (start < b ∧ (a < stop ∨ a ≤ start))
  | .delete start stop => decide (start < b ∧ a < stop)

theorem filterMap_filter_of_imp {α β : Type} {f : α → Option β} {q : α → Bool} (l : List α)
    (h : ∀ x, q x = false → f x = none) : (l.filter q).filterMap f = l.filterMap f := by
  induction l with
  | nil => rfl
  | cons x l ih =>
    rw [List.filter_cons]
    by_cases hx : q x = true
    · rw [if_pos hx, List.filterMap_cons, List.filterMap_cons, ih]
    · rw [if_neg hx, ih, List.filterMap_cons_none (h x (Bool.not_eq_true _ ▸ hx))]

theorem flatMap_filter_of_imp {α β : Type} {f : α → List β} {q : α → Bool} (l : List α)
    (h : ∀ x, q x = false → f x = []) : (l.filter q).flatMap f = l.flatMap f := by
  induction l with
  | nil => rfl
  | cons x l ih =>
    rw [List.filter_cons]
    by_cases hx : q x = true
    · rw [if_pos hx, List.flatMap_cons, List.flatMap_cons, ih]
    · rw [if_neg hx, ih, List.flatMap_cons, h x (Bool.not_eq_true _ ▸ hx), List.nil_append]

theorem any_filter_of_imp {α : Type} {f q : α → Bool} (l : List α)
    (h : ∀ x, q x = false → f x = false) : (l.filter q).any f = l.any f := by
  induction l with
  | nil => rfl
  | cons x l ih =>
    rw [List.filter_cons]
    by_cases hx : q x = true
    · rw [if_pos hx, List.any_cons, List.any_cons, ih]
    · rw [if_neg hx, ih, List.any_cons, h x (Bool.not_eq_true _ ▸ hx), Bool.false_or]

theorem unitAt_filter {p : Nat} (h1 : a ≤ p) (h2 : p < b) :
    unitAt base (es.filter (touches a b)) p = unitAt base es p := by
  have hb : textsBefore p (es.filter (touches a b)) = textsBefore p es := by
    refine filterMap_filter_of_imp es fun e he => ?_
    cases e with
    | insertBefore q text =>
      have : q ≠ p := by
        simp only [touches, decide_eq_false_iff_not] at he
        omega
      exact if_neg this
    | _ => rfl
  have hi : textInPlace p (es.filter (touches a b)) = textInPlace p es := by
    refine flatMap_filter_of_imp es fun e he => ?_
    cases e with
    | replace start stop text =>
      have : start ≠ p := by
        simp only [touches, decide_eq_false_iff_not] at he
        omega
      exact if_neg this
    | _ => rfl
  have hc : isCovered p (es.filter (touches a b)) = isCovered p es := by
    refine any_filter_of_imp es fun e he => ?_
    cases e with
    | replace start stop text =>
      simp only [touches, decide_eq_false_iff_not] at he
      exact decide_eq_false (by omega)
    | delete start stop =>
      simp only [touches, decide_eq_false_iff_not] at he
      exact decide_eq_false (by omega)
    | _ => rfl
  have ha : textsAfter (p + 1) (es.filter (touches a b)) = textsAfter (p + 1) es := by
    refine filterMap_filter_of_imp es fun e he => ?_
    cases e with
    | insertAfter q text =>
      have : q ≠ p + 1 := by
        simp only [touches, decide_eq_false_iff_not] at he
        omega
      exact if_neg this
    | _ => rfl
  rw [unitAt, hb, hi, hc, ha, unitAt]

theorem stretch_filter : stretch base (es.filter (touches a b)) a b = stretch base es a b :=
  stretch_congr fun _ h1 h2 => unitAt_filter h1 h2

theorem touches_mono {e : Edit} {a' b' : Nat} (ha : a' ≤ a) (hb : b ≤ b')
    (h : touches a b e = true) : touches a' b' e = true := by
  cases e <;> simp only [touches, decide_eq_true_eq, Bool.false_eq_true] at h ⊢ <;> omega

theorem filter_touches_of_le {a' b' : Nat} (ha : a' ≤ a) (hb : b ≤ b') :
    (es.filter (touches a' b')).filter (touches a b) = es.filter (touches a b) := by
  rw [List.filter_filter]
  refine List.filter_congr fun e _ => ?_
  by_cases h : touches a b e = true
  · rw [h, touches_mono ha hb h, Bool.and_self]
  · rw [Bool.not_eq_true] at h
    rw [h, Bool.false_and]

/-- An edit changes nothing but code points between two offsets. -/
def Inside (a b : Nat) : Edit → Prop
  | .insertAfter p _ => (a : Int) < p ∧ p ≤ b
  | .replace start stop _ => (a : Int) ≤ start ∧ start < stop ∧ stop ≤ b
  | .delete start stop => (a : Int) ≤ start ∧ start ≤ stop ∧ stop ≤ b
  | _ => False

def isDeletion : Edit → Bool
  | .delete _ _ => true
  | _ => false

theorem Inside.mono {e : Edit} {a' b' : Nat} (h : Inside a b e) (ha : a' ≤ a) (hb : b ≤ b') :
    Inside a' b' e := by
  cases e <;> simp only [Inside] at h ⊢ <;> omega

theorem Inside.touches_eq_false {e : Edit} {a' b' : Nat} (h : Inside a b e)
    (hd : b ≤ a' ∨ b' ≤ a) : touches a' b' e = false := by
  cases e with
  | insertAfter p text =>
    simp only [Inside] at h
    exact decide_eq_false (by omega)
  | replace start stop text =>
    simp only [Inside] at h
    exact decide_eq_false (by omega)
  | delete start stop =>
    simp only [Inside] at h
    exact decide_eq_false (by omega)
  | _ => exact h.elim

theorem Inside.touches_eq_true {e : Edit} (h : Inside a b e) (hd : e.isDeletion = false) :
    touches a b e = true := by
  cases e with
  | insertAfter p text => exact decide_eq_true h
  | replace start stop text =>
    simp only [Inside] at h
    exact decide_eq_true (by omega)
  | delete start stop => exact nomatch hd
  | _ => exact h.elim

theorem filter_touches_eq_nil {a' b' : Nat} (h : ∀ e ∈ es, Inside a b e)
    (hd : b ≤ a' ∨ b' ≤ a) : es.filter (touches a' b') = [] := by
  rw [List.filter_eq_nil_iff]
  intro e he
  rw [(h e he).touches_eq_false hd]
  exact Bool.false_ne_true

theorem filter_touches_eq_self (h : ∀ e ∈ es, Inside a b e ∧ e.isDeletion = false) :
    es.filter (touches a b) = es :=
  List.filter_eq_self.2 fun e he => (h e he).1.touches_eq_true (h e he).2

/-! ## Simple stretches -/

theorem stretch_nil : stretch base [] a b = base.cut a b := by
  have h : unitAt base [] = fun p => base[p]?.toList := by
    funext p
    simp [unitAt, textsBefore, textsAfter, textInPlace, isCovered]
  rw [stretch, h, Overlay.flatMap_range'_getElem?, Text.cut]
  by_cases hab : a ≤ b
  · rw [Nat.add_sub_cancel' hab]
  · rw [List.drop_eq_nil_of_le (by simp; omega), List.drop_eq_nil_of_le (by simp; omega)]

theorem stretch_untouched (h : es.filter (touches a b) = []) :
    stretch base es a b = base.cut a b := by
  rw [← stretch_filter, h, stretch_nil]

theorem stretch_replace (text : Text) (hab : a < b) :
    stretch base [.replace a b text] a b = text := by
  obtain ⟨k, rfl⟩ : ∃ k, b = a + (k + 1) := ⟨b - a - 1, by omega⟩
  have h : ∀ p ∈ List.range' a (k + 1),
      unitAt base [.replace a (a + (k + 1) : Nat) text] p =
        (if p = a then text else []) ++ [] := by
    intro p hp
    have := List.mem_range'_1.1 hp
    have hc : isCovered p [.replace a (a + (k + 1) : Nat) text] = true := by
      simp only [isCovered, List.any_cons, List.any_nil, Bool.or_false, decide_eq_true_eq]
      omega
    rw [unitAt, hc]
    by_cases hpa : p = a
    · simp [textsBefore, textsAfter, textInPlace, hpa]
    · simp [textsBefore, textsAfter, textInPlace, hpa, Ne.symm hpa]
  rw [stretch, Nat.add_sub_cancel_left, List.flatMap_congr h, Overlay.flatMap_range'_first]
  simp

theorem stretch_delete (hab : a < b) : stretch base [.delete a b] a b = [] := by
  rw [stretch, List.flatMap_eq_nil_iff]
  intro p hp
  have := List.mem_range'_1.1 hp
  have hc : isCovered p [.delete a b] = true := by
    simp only [isCovered, List.any_cons, List.any_nil, Bool.or_false, decide_eq_true_eq]
    omega
  rw [unitAt, hc]
  simp [textsBefore, textsAfter, textInPlace]

theorem stretch_insertAfter (text : Text) (hab : a < b) :
    stretch base [.insertAfter b text] a b = base.cut a b ++ text := by
  obtain ⟨k, rfl⟩ : ∃ k, b = a + (k + 1) := ⟨b - a - 1, by omega⟩
  have h : ∀ p ∈ List.range' a (k + 1),
      unitAt base [.insertAfter (a + (k + 1) : Nat) text] p =
        unitAt base [] p ++ if p + 1 = a + (k + 1) then text else [] := by
    intro p hp
    have hcast : ((a + (k + 1) : Nat) : Int) = (p : Int) + 1 ↔ p + 1 = a + (k + 1) := by omega
    by_cases hpa : p + 1 = a + (k + 1)
    · simp [unitAt, textsBefore, textsAfter, textInPlace, isCovered, hpa, hcast.2 hpa]
    · have ha : textsAfter (p + 1) [.insertAfter (a + (k + 1) : Nat) text] = [] :=
        List.filterMap_cons_none (if_neg (mt hcast.1 hpa))
      rw [unitAt, ha, if_neg hpa]
      simp [unitAt, textsBefore, textsAfter, textInPlace, isCovered]
  rw [stretch, Nat.add_sub_cancel_left, List.flatMap_congr h, Overlay.flatMap_range'_last]
  congr 1
  have := @stretch_nil base a (a + (k + 1))
  rwa [stretch, Nat.add_sub_cancel_left] at this

/-! ## Texts inserted before offsets -/

def isInsertBefore : Edit → Bool
  | .insertBefore _ _ => true
  | _ => false

theorem unitAt_eq_textsBefore (p : Nat) :
    unitAt base es p = (textsBefore p es).flatten ++
      unitAt base (es.filter fun e => !e.isInsertBefore) p := by
  have hb : textsBefore p (es.filter fun e => !e.isInsertBefore) = [] := by
    rw [textsBefore, List.filterMap_eq_nil_iff]
    intro e he
    have hno := (List.mem_filter.1 he).2
    cases e with
    | insertBefore q text => exact absurd hno Bool.false_ne_true
    | _ => rfl
  have hi : textInPlace p (es.filter fun e => !e.isInsertBefore) = textInPlace p es := by
    refine flatMap_filter_of_imp es fun e he => ?_
    cases e with
    | insertBefore q text => rfl
    | _ => cases he
  have hc : isCovered p (es.filter fun e => !e.isInsertBefore) = isCovered p es := by
    refine any_filter_of_imp es fun e he => ?_
    cases e with
    | insertBefore q text => rfl
    | _ => cases he
  have ha : textsAfter (p + 1) (es.filter fun e => !e.isInsertBefore) = textsAfter (p + 1) es := by
    refine filterMap_filter_of_imp es fun e he => ?_
    cases e with
    | insertBefore q text => rfl
    | _ => cases he
  rw [unitAt, unitAt, hb, hi, hc, ha]
  simp only [List.flatten_nil, List.nil_append, List.append_assoc]

theorem stretch_eq_textsBefore (hab : a < b)
    (h : ∀ p : Nat, a < p → p < b → (textsBefore p es).flatten = []) :
    stretch base es a b = (textsBefore a es).flatten ++
      stretch base (es.filter fun e => !e.isInsertBefore) a b := by
  obtain ⟨k, rfl⟩ : ∃ k, b = a + (k + 1) := ⟨b - a - 1, by omega⟩
  have hunit : ∀ p ∈ List.range' a (k + 1), unitAt base es p =
      (if p = a then (textsBefore a es).flatten else []) ++
        unitAt base (es.filter fun e => !e.isInsertBefore) p := by
    intro p hp
    have hp := List.mem_range'_1.1 hp
    rw [unitAt_eq_textsBefore]
    by_cases hpa : p = a
    · rw [if_pos hpa, hpa]
    · rw [if_neg hpa, h p (by omega) (by omega)]
  rw [stretch, Nat.add_sub_cancel_left, List.flatMap_congr hunit, Overlay.flatMap_range'_first,
    stretch, Nat.add_sub_cancel_left]

theorem stretch_of_textsBefore_eq_nil
    (h : ∀ p : Nat, a ≤ p → p < b → (textsBefore p es).flatten = []) :
    stretch base es a b = stretch base (es.filter fun e => !e.isInsertBefore) a b := by
  refine stretch_congr fun p h1 h2 => ?_
  rw [unitAt_eq_textsBefore, h p h1 h2, List.nil_append]

/-! ## Proper edits -/

/-- When all edits but insertions in front of offsets lie inside a text, and nothing is inserted
behind its last code point, the text is rendered as one stretch. -/
theorem rendering_eq_stretch_of_inside
    (hplain : ∀ e ∈ es, e.isInsertBefore = false → Inside 0 base.length e)
    (hbefore : (textsBefore base.length es).flatten = []) :
    rendering base es = stretch base es 0 base.length := by
  have hprepended : prepended es = [] := by
    rw [prepended, List.reverse_eq_nil_iff, List.filterMap_eq_nil_iff]
    intro e he
    cases e with
    | prepend text => exact (hplain _ he rfl).elim
    | _ => rfl
  have happended : appended es = [] := by
    rw [appended, List.filterMap_eq_nil_iff]
    intro e he
    cases e with
    | append text => exact (hplain _ he rfl).elim
    | _ => rfl
  have hafter : textsAfter 0 es = [] := by
    rw [textsAfter, List.filterMap_eq_nil_iff]
    intro e he
    cases e with
    | insertAfter p text =>
      have hin : (0 : Int) < p ∧ p ≤ base.length := hplain _ he rfl
      exact if_neg (by omega)
    | _ => rfl
  have hinPlace : textInPlace base.length es = [] := by
    rw [textInPlace, List.flatMap_eq_nil_iff]
    intro e he
    cases e with
    | replace start stop text =>
      have hin : (0 : Int) ≤ start ∧ start < stop ∧ stop ≤ base.length := hplain _ he rfl
      exact if_neg (by omega)
    | _ => rfl
  rw [rendering_eq_stretch, hprepended, happended, hafter, hinPlace, hbefore]
  simp

/-- A range that is replaced is not empty. -/
def IsProper : Edit → Prop
  | .replace start stop _ => start < stop
  | _ => True

end Edit

/-! ## Accepted edits -/

namespace Overlay

/-- An overlay takes edits one after another, none of them being refused, and becomes another. -/
def Takes (o : Overlay) (es : List Edit) (o' : Overlay) : Prop :=
  o.accepted es = es ∧ o.performAll es = o'

variable {o o' o'' : Overlay} {es es' : List Edit}

theorem takes_nil : o.Takes [] o := ⟨rfl, rfl⟩

theorem takes_single {e : Edit} (h : outcome e.run o = (.ok (), o')) : o.Takes [e] o' := by
  have ha : o.accepts e = true := by rw [accepts, h]; rfl
  have hp : o.perform e = o' := congrArg Prod.snd h
  exact ⟨by rw [accepted, if_pos ha, accepted], hp⟩

theorem accepted_append (o : Overlay) (es es' : List Edit) :
    o.accepted (es ++ es') = o.accepted es ++ (o.performAll es).accepted es' := by
  induction es generalizing o with
  | nil => rfl
  | cons e es ih =>
    rw [List.cons_append, accepted, accepted, ih]
    split <;> rfl

theorem Takes.append (h : o.Takes es o') (h' : o'.Takes es' o'') : o.Takes (es ++ es') o'' := by
  obtain ⟨ha, rfl⟩ := h
  obtain ⟨ha', rfl⟩ := h'
  exact ⟨by rw [accepted_append, ha, ha'], by rw [performAll, List.foldl_append]; rfl⟩

theorem Takes.consistent (h : o.Takes es o') (hc : o.Consistent) : o'.Consistent := by
  rw [← h.2]
  exact (hc.performAll es).1

theorem Takes.view (h : o.Takes es o') (hc : o.Consistent) :
    o'.view = es.foldl View.apply o.view := by
  rw [← h.2, (hc.performAll es).2, h.1]

theorem Takes.serialize {base : Text} (h : (ofText base).Takes es o') :
    o'.serialize = Edit.rendering base es := by
  have hc := consistent_ofText base
  rw [(h.consistent hc).serialize_eq_print, h.view hc, view_ofText, View.print_foldl_apply]

theorem isProper_of_accepts {e : Edit} (h : o.accepts e = true) : e.IsProper := by
  cases e with
  | replace start stop text =>
    rw [accepts] at h
    by_cases hr : o.InRange start stop
    · rcases hr.2.1.eq_or_lt with rfl | hlt
      · have hrun : outcome (Edit.run (.replace start start text)) o = _ :=
          outcome_replace_empty text hr
        rw [hrun] at h
        exact absurd h Bool.false_ne_true
      · exact hlt
    · obtain ⟨err, herr⟩ := outcome_checkRange_of_not_inRange hr
      have hrun : outcome (Edit.run (.replace start stop text)) o = (.error err, o) := by
        rw [Edit.run, replace, outcome_bind_of_error herr]
      rw [hrun] at h
      exact absurd h Bool.false_ne_true
  | _ => exact trivial

theorem isProper_of_accepted {e : Edit} (h : e ∈ o.accepted es) : e.IsProper := by
  induction es generalizing o with
  | nil => exact absurd h List.not_mem_nil
  | cons e' es ih =>
    rw [accepted] at h
    by_cases ha : o.accepts e' = true
    · rw [if_pos ha, List.mem_cons] at h
      rcases h with rfl | h
      · exact isProper_of_accepts ha
      · exact ih h
    · rw [if_neg ha] at h
      exact ih h

theorem Takes.isProper (h : o.Takes es o') : ∀ e ∈ es, e.IsProper := by
  intro e he
  rw [← h.1] at he
  exact isProper_of_accepted he

end Overlay

end RegistryScript
