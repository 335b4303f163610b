import Mathlib
import RegistryScript.Proofs.Overlay.Order

/-! # Edits that are refused

A refused edit leaves an overlay as it was, so that what an overlay refuses can be told from the
edits it has taken.

* `Overlay.Consistent.eq_of_refused`, `Overlay.Consistent.takes_accepted`: a refused edit changes
  nothing, and an overlay is what the accepted edits have made of it.
* `Meet`, `Edit.Overlaps`: two ranges have a code point in common.
* `Overlay.range_refused_iff`: an edit of a range is refused because of an overlap exactly if the
  range meets one that was edited before; the segment that is reported meets it too. Whatever is
  refused, for whatever reason, changes nothing.
* `Overlay.Takes.isBoundary_iff`, `Overlay.Takes.not_isBoundary`: the boundaries of an overlay are
  those it had and the offsets of the edits it has taken; inside an edited range none is added.
* `Overlay.insertion_refused_iff`: an insertion inside an edited range is refused exactly if no
  edit made before that one has left a boundary there.
* `Overlay.accepts_insertion_deleted`: at such a boundary it is accepted.
-/

namespace RegistryScript
set_option autoImplicit false

def Meet (a b c d : Int) : Prop := ∃ p, a ≤ p ∧ p < b ∧ c ≤ p ∧ p < d

theorem meet_of_lt {a b c d : Int} (hab : a < b) (hcd : c < d) (had : a < d) (hcb : c < b) :
    Meet a b c d :=
  ⟨max a c, by omega, by omega, by omega, by omega⟩

def Edit.Overlaps (start stop : Int) (e : Edit) : Prop :=
  ∃ r, e.range? = some r ∧ Meet start stop r.1 r.2

namespace Edit

variable {e : Edit} {r : Int × Int}

theorem exists_of_range (h : e.range? = some r) :
    r.1 < r.2 ∧ ((∃ text, e = .replace r.1 r.2 text) ∨ e = .delete r.1 r.2) := by
  cases e with
  | replace start stop text =>
    obtain ⟨hlt, h⟩ := Option.ite_none_right_eq_some.1 h
    obtain rfl := Option.some.inj h
    exact ⟨hlt, .inl ⟨text, rfl⟩⟩
  | delete start stop =>
    obtain ⟨hlt, h⟩ := Option.ite_none_right_eq_some.1 h
    obtain rfl := Option.some.inj h
    exact ⟨hlt, .inr rfl⟩
  | _ => exact nomatch h

theorem offsets_of_range (h : e.range? = some r) : e.offsets = [r.1, r.2] := by
  obtain ⟨hlt, ⟨text, rfl⟩ | rfl⟩ := exists_of_range h
  · exact if_pos hlt
  · exact if_pos hlt

theorem isCovered_of_range {es : List Edit} {p : Int} (he : e ∈ es) (h : e.range? = some r)
    (h1 : r.1 ≤ p) (h2 : p < r.2) : isCovered p es = true := by
  refine List.any_eq_true.2 ⟨e, he, ?_⟩
  obtain ⟨-, ⟨text, rfl⟩ | rfl⟩ := exists_of_range h
  · exact decide_eq_true ⟨h1, h2⟩
  · exact decide_eq_true ⟨h1, h2⟩

end Edit

namespace Overlay

variable {o o' : Overlay} {es : List Edit} {base : Text} {e : Edit}

/-! ## Refused edits -/

theorem Consistent.eq_of_refused (hc : o.Consistent) {err : EditError}
    (h : outcome e.run o = (.error err, o')) : o' = o := by
  rcases hc.settles e with ⟨err', h'⟩ | ⟨o₁, hmade⟩
  · exact (Prod.mk.inj (h.symm.trans h')).2
  · exact nomatch (Prod.mk.inj (h.symm.trans hmade.outcome_eq)).1

theorem Consistent.made (hc : o.Consistent) (h : outcome e.run o = (.ok (), o')) :
    Made e.run o (o.view.apply e) e.offsets o' := by
  rcases hc.settles e with ⟨err, h'⟩ | ⟨o₁, hmade⟩
  · exact nomatch (Prod.mk.inj (h.symm.trans h')).1
  · obtain rfl : o' = o₁ := (Prod.mk.inj (h.symm.trans hmade.outcome_eq)).2
    exact hmade

theorem Consistent.takes_accepted (hc : o.Consistent) (es : List Edit) :
    o.Takes (o.accepted es) (o.performAll es) := by
  induction es generalizing o with
  | nil => exact takes_nil
  | cons e es ih =>
    rw [accepted, Overlay.performAll, List.foldl_cons]
    rcases hc.settles e with ⟨err, h⟩ | ⟨o₁, hmade⟩
    · have hp : o.perform e = o := congrArg Prod.snd h
      have ha : o.accepts e = false := by rw [accepts, h]; rfl
      rw [ha, if_neg Bool.false_ne_true, hp]
      exact ih hc
    · have hp : o.perform e = o₁ := congrArg Prod.snd hmade.outcome_eq
      have ha : o.accepts e = true := by rw [accepts, hmade.outcome_eq]; rfl
      rw [ha, if_pos rfl, hp]
      exact takes_cons.2 ⟨o₁, hmade.outcome_eq, ih hmade.consistent⟩

theorem takes_performAll (base : Text) (es : List Edit) :
    (ofText base).Takes ((ofText base).accepted es) ((ofText base).performAll es) :=
  (consistent_ofText base).takes_accepted es

theorem outcome_slice (o : Overlay) (start stop : Int) : (outcome (slice start stop) o).2 = o := by
  by_cases h : o.InRange start stop
  · rw [slice, outcome_bind_of_ok (outcome_checkRange_of_inRange h)]
    rfl
  · obtain ⟨err, hcheck⟩ := outcome_checkRange_of_not_inRange h
    rw [slice, outcome_bind_of_error hcheck]

theorem eq_of_slice_refused {start stop : Int} {err : EditError}
    (h : outcome (slice start stop) o = (.error err, o')) : o' = o := by
  have hslice := outcome_slice o start stop
  rwa [h] at hslice

/-! ## Ranges -/

theorem outcome_run_of_range {r : Int × Int} (h : e.range? = some r) (hr : o.InRange r.1 r.2) :
    ∃ text, outcome e.run o = outcome (edit r.1 r.2 text) o := by
  obtain ⟨hlt, ⟨text, rfl⟩ | rfl⟩ := Edit.exists_of_range h
  · exact ⟨text, outcome_replace_of_lt text hr hlt⟩
  · exact ⟨[], outcome_delete_of_lt hr hlt⟩

theorem inRange_of_made {r : Int × Int} (h : e.range? = some r)
    (hrun : outcome e.run o = (.ok (), o')) : o.InRange r.1 r.2 := by
  have hfits := fitsIn_of_made hrun
  obtain ⟨hlt, ⟨text, rfl⟩ | rfl⟩ := Edit.exists_of_range h
  · exact ⟨hfits.1, hlt.le, hfits.2.2⟩
  · exact hfits

/-- The outcome of an edit of a range: it is refused, and then an edited segment meets the range, or
nothing in the range was covered. -/
theorem Consistent.outcome_run_of_range (hc : o.Consistent) {r : Int × Int}
    (h : e.range? = some r) (hr : o.InRange r.1 r.2) :
    (∃ s ∈ o.segments, s.isEdited = true ∧ Meet r.1 r.2 s.start s.stop ∧
      outcome e.run o = (.error (.overlap r.1 r.2 s), o)) ∨
    (∀ q, r.1 ≤ q → q < r.2 → o.isCovered q = false) ∧ ∃ o', outcome e.run o = (.ok (), o') := by
  have hlt := (Edit.exists_of_range h).1
  obtain ⟨text, hrun⟩ := Overlay.outcome_run_of_range h hr
  rw [hrun]
  rcases hc.outcome_edit text hr.1 hlt hr.2.2 with ⟨key, hk, he, h1, h2, herr⟩ | ⟨hfree, o₁, hmade⟩
  · have hbase : o.base ≠ [] := by
      intro hb
      have := hr.2.2
      have := hr.1
      simp only [hb, List.length_nil, Nat.cast_zero] at *
      omega
    exact .inl ⟨o.segment key, List.mem_map_of_mem hk, he,
      meet_of_lt hlt (hc.bounds hbase hk).2.1 h1 h2, herr⟩
  · exact .inr ⟨hfree, o₁, hmade.outcome_eq⟩

theorem Takes.refuses_range_iff (h : (ofText base).Takes es o) {r : Int × Int}
    (hr : e.range? = some r) (h0 : 0 ≤ r.1) (hn : r.2 ≤ base.length) :
    (∃ err o', outcome e.run o = (.error err, o') ∧ err.isOverlap = true) ↔
      ∃ e' ∈ es, e'.Overlaps r.1 r.2 := by
  have hc := h.consistent (consistent_ofText base)
  have hlt := (Edit.exists_of_range hr).1
  have hin : o.InRange r.1 r.2 := ⟨h0, hlt.le, by rwa [h.base_eq]⟩
  rcases hc.outcome_run_of_range hr hin with ⟨s, hs, he, hmeet, herr⟩ | ⟨hfree, o₁, hok⟩
  · refine iff_of_true ⟨_, o, herr, rfl⟩ ?_
    obtain ⟨key, hk, rfl⟩ := List.mem_map.1 hs
    obtain ⟨p, h1, h2, h3, h4⟩ := hmeet
    obtain ⟨e', he', r', hr', h5, h6⟩ := h.exists_range hk he (by omega)
    exact ⟨e', he', r', hr', p, h1, h2, by omega, by omega⟩
  · refine iff_of_false ?_ ?_
    · rintro ⟨err, o', herr, -⟩
      exact nomatch (Prod.mk.inj (herr.symm.trans hok)).1
    · rintro ⟨e', he', r', hr', p, h1, h2, h3, h4⟩
      have hcovered := Edit.isCovered_of_range he' hr' h3 h4
      rw [← h.isCovered, hfree p h1 h2] at hcovered
      exact absurd hcovered Bool.false_ne_true

/-- On a text on which any edits were made, accepted or refused: an edit of a range of the text is
refused because of an overlap exactly if the range has a code point in common with the range of an
accepted edit. The segment that is then reported is an edited one and has a code point in common
with the range. And whatever is refused, for whatever reason, leaves all parts of the overlay as
they were. -/
theorem range_refused_iff (base : Text) (es : List Edit) :
    let o := (ofText base).performAll es
    (∀ start stop : Int, 0 ≤ start → stop ≤ base.length →
      ∀ e : Edit, e.range? = some (start, stop) →
        ((∃ err o', outcome e.run o = (.error err, o') ∧ err.isOverlap = true) ↔
          ∃ e' ∈ (ofText base).accepted es, e'.Overlaps start stop) ∧
        ∀ a b s o', outcome e.run o = (.error (.overlap a b s), o') →
          a = start ∧ b = stop ∧ s ∈ o.segments ∧ s.isEdited = true ∧
            Meet start stop s.start s.stop) ∧
    (∀ (e : Edit) err o', outcome e.run o = (.error err, o') → o' = o) ∧
    ∀ start stop err o', outcome (slice start stop) o = (.error err, o') → o' = o := by
  intro o
  have h : (ofText base).Takes ((ofText base).accepted es) o := takes_performAll base es
  have hc := h.consistent (consistent_ofText base)
  refine ⟨fun start stop h0 hn e hr => ⟨h.refuses_range_iff hr h0 hn, ?_⟩,
    fun e err o' herr => hc.eq_of_refused herr,
    fun start stop err o' herr => eq_of_slice_refused herr⟩
  intro a b s o' herr
  have hin : o.InRange start stop := ⟨h0, (Edit.exists_of_range hr).1.le, by rwa [h.base_eq]⟩
  rcases hc.outcome_run_of_range hr hin with ⟨s', hs, he, hmeet, herr'⟩ | ⟨-, o₁, hok⟩
  · have heq := Except.error.inj (Prod.mk.inj (herr.symm.trans herr')).1
    injection heq with ha hb hseg
    subst ha hb hseg
    exact ⟨rfl, rfl, hs, he, hmeet⟩
  · exact nomatch (Prod.mk.inj (herr.symm.trans hok)).1

theorem range_refused_sample :
    let base : Text := ['a', 'b', 'c', 'd', 'e', 'f']
    let es : List Edit := [.insertBefore 2 ['1'], .replace 1 3 ['x'], .replace 2 5 ['y']]
    let o := (ofText base).performAll es
    (ofText base).accepted es = [.insertBefore 2 ['1'], .replace 1 3 ['x']] ∧
      (∃ err o', outcome (Edit.run (.delete 2 4)) o = (.error err, o') ∧ err.isOverlap = true) ∧
      ¬ ∃ err o', outcome (Edit.run (.delete 3 5)) o = (.error err, o') ∧ err.isOverlap = true := by
  intro base es o
  have hes : (ofText base).accepted es = [.insertBefore 2 ['1'], .replace 1 3 ['x']] := by decide
  have hranges := (range_refused_iff base es).1
  refine ⟨hes, (hranges 2 4 (by decide) (by decide) _ rfl).1.2 ?_, fun hrefused => ?_⟩
  · rw [hes]
    exact ⟨.replace 1 3 ['x'], by simp, (1, 3), rfl, 2, by decide⟩
  · obtain ⟨e', he', r, hr, p, h1, h2, h3, h4⟩ :=
      (hranges 3 5 (by decide) (by decide) _ rfl).1.1 hrefused
    rw [hes] at he'
    rcases List.mem_cons.1 he' with rfl | he'
    · exact nomatch hr
    · obtain rfl := List.mem_singleton.1 he'
      obtain rfl := Option.some.inj hr
      omega

/-! ## Boundaries -/

theorem Takes.isBoundary_iff (h : o.Takes es o') (hc : o.Consistent) (q : Int) :
    o'.isBoundary q = true ↔ (∃ e ∈ es, q ∈ e.offsets) ∨ o.isBoundary q = true := by
  induction es generalizing o with
  | nil =>
    obtain rfl : o = o' := h.2
    simp
  | cons e es ih =>
    obtain ⟨o₁, hrun, hes⟩ := takes_cons.1 h
    have hmade := hc.made hrun
    rw [ih hes hmade.consistent, hmade.isBoundary_iff q]
    simp only [List.mem_cons, exists_eq_or_imp]
    exact or_left_comm.trans or_assoc.symm

theorem isBoundary_of_ofText {q : Int} (h : (ofText base).isBoundary q = true) :
    q = 0 ∨ q = base.length := by
  obtain ⟨key, hk, hq⟩ := (consistent_ofText base).isBoundary_iff.1 h
  obtain rfl : key = 0 := List.mem_singleton.1 hk
  exact hq.imp Eq.symm Eq.symm

/-! ## Insertions -/

section Insertion

variable {p : Int} {text : Text} {i : Edit}

theorem Consistent.refuses_insertion (hc : o.Consistent)
    (hi : i = .insertBefore p text ∨ i = .insertAfter p text) (hcovered : o.isCovered p = true)
    (hp : ¬ o.isBoundary p = true) : ∃ s, outcome i.run o = (.error (.overlap p p s), o) := by
  obtain ⟨key, hk, he, hle, h2⟩ := isCovered_iff.1 hcovered
  have h1 : (o.segment key).start < p :=
    lt_of_le_of_ne hle fun heq => hp (hc.isBoundary_iff.2 ⟨key, hk, .inl heq⟩)
  refine ⟨o.segment key, ?_⟩
  have hb := hc.base_ne_nil hk h1.le h2
  have hbounds := hc.bounds hb hk
  obtain ⟨L, R, -, hsplit⟩ := hc.outcome_split_inside hk h1 h2
  rw [if_pos he] at hsplit
  have hcheck : outcome (checkOffset p) o = (.ok (), o) := by
    rw [outcome_checkOffset, if_pos (by omega)]
  rcases hi with rfl | rfl
  · rw [Edit.run, Overlay.insertBefore, outcome_bind_of_ok hcheck,
      outcome_bind_of_ok (outcome_get o), if_neg (by omega), outcome_bind_of_error hsplit]
  · rw [Edit.run, Overlay.insertAfter, outcome_bind_of_ok hcheck, if_neg (by omega),
      outcome_bind_of_error hsplit]

theorem Consistent.accepts_insertion (hc : o.Consistent)
    (hi : i = .insertBefore p text ∨ i = .insertAfter p text) (hp : o.isBoundary p = true) :
    ∃ o', outcome i.run o = (.ok (), o') := by
  have hin : 0 ≤ p ∧ p ≤ o.base.length := by
    obtain ⟨key, hk, rfl | rfl⟩ := hc.isBoundary_iff.1 hp
    · have := hc.bounds_le hk
      omega
    · have := hc.bounds_le hk
      omega
  have hmade : RefusedInside i.run o p ∨ ∃ o', Made i.run o (o.view.apply i) i.offsets o' := by
    rcases hi with rfl | rfl
    · exact hc.outcome_insertBefore text hin.1 hin.2
    · exact hc.outcome_insertAfter text hin.1 hin.2
  rcases hmade with ⟨key, hk, -, h1, h2, -⟩ | ⟨o', hmade⟩
  · exact absurd ⟨h1, h2⟩ (hc.not_inside hp hk)
  · exact ⟨o', hmade.outcome_eq⟩

end Insertion

/-! ## Covered code points -/

section Covered

variable {p : Int}

theorem exists_insertion_of_mem_offsets (hr : e.range? = none) (hp : p ∈ e.offsets) :
    ∃ text, e = .insertBefore p text ∨ e = .insertAfter p text := by
  cases e with
  | insertBefore q text =>
    obtain rfl := List.mem_singleton.1 hp
    exact ⟨text, .inl rfl⟩
  | insertAfter q text =>
    obtain rfl := List.mem_singleton.1 hp
    exact ⟨text, .inr rfl⟩
  | replace a b text =>
    have hab : ¬ a < b := fun hab => nomatch (if_pos hab).symm.trans hr
    rw [Edit.offsets, if_neg hab] at hp
    exact absurd hp List.not_mem_nil
  | delete a b =>
    have hab : ¬ a < b := fun hab => nomatch (if_pos hab).symm.trans hr
    rw [Edit.offsets, if_neg hab] at hp
    exact absurd hp List.not_mem_nil
  | _ => exact absurd hp List.not_mem_nil

theorem Consistent.not_mem_offsets (hc : o.Consistent) (hrun : outcome e.run o = (.ok (), o'))
    (hfront : o.isCovered (p - 1) = true) (hback : o.isCovered p = true)
    (hp : ¬ o.isBoundary p = true) : p ∉ e.offsets := by
  intro hmem
  cases hrange : e.range? with
  | none =>
    obtain ⟨text, hi⟩ := exists_insertion_of_mem_offsets hrange hmem
    obtain ⟨s, herr⟩ := hc.refuses_insertion hi hback hp
    exact nomatch (Prod.mk.inj (hrun.symm.trans herr)).1
  | some r =>
    -- An end of the range at the offset has a covered code point of the range beside it.
    have hlt := (Edit.exists_of_range hrange).1
    rcases hc.outcome_run_of_range hrange (inRange_of_made hrange hrun) with ⟨s, -, -, -, herr⟩ | ⟨hfree, -⟩
    · exact nomatch (Prod.mk.inj (hrun.symm.trans herr)).1
    · rw [Edit.offsets_of_range hrange] at hmem
      rcases List.mem_cons.1 hmem with rfl | hmem
      · exact nomatch hback.symm.trans (hfree r.1 le_rfl hlt)
      · obtain rfl := List.mem_singleton.1 hmem
        exact nomatch hfront.symm.trans (hfree (r.2 - 1) (by omega) (by omega))

theorem Takes.not_isBoundary (h : o.Takes es o') (hc : o.Consistent)
    (hfront : o.isCovered (p - 1) = true) (hback : o.isCovered p = true)
    (hp : ¬ o.isBoundary p = true) : ¬ o'.isBoundary p = true := by
  induction es generalizing o with
  | nil =>
    obtain rfl : o = o' := h.2
    exact hp
  | cons e es ih =>
    obtain ⟨o₁, hrun, hes⟩ := takes_cons.1 h
    have hmade := hc.made hrun
    have hcovered : ∀ q, o.isCovered q = true → o₁.isCovered q = true := by
      intro q hq
      have hview : o₁.isCovered q = (o.isCovered q || Edit.isCovered q [e]) :=
        (congrArg (fun v => v.covered q) hmade.view_eq).trans (View.foldl_apply_covered [e] o.view q)
      rw [hview, hq, Bool.true_or]
    refine ih hes hmade.consistent (hcovered _ hfront) (hcovered _ hback) fun hq => ?_
    rcases (hmade.isBoundary_iff p).1 hq with hq | hq
    · exact hc.not_mem_offsets hrun hfront hback hp hq
    · exact hp hq

end Covered

theorem takes_append {es' : List Edit} {o'' : Overlay} :
    o.Takes (es ++ es') o'' ↔ ∃ o', o.Takes es o' ∧ o'.Takes es' o'' := by
  refine ⟨fun h => ?_, fun ⟨o', h, h'⟩ => h.append h'⟩
  induction es generalizing o with
  | nil => exact ⟨o, takes_nil, h⟩
  | cons e es ih =>
    obtain ⟨o₁, hrun, hes⟩ := takes_cons.1 h
    obtain ⟨o', h₁, h₂⟩ := ih hes
    exact ⟨o', takes_cons.2 ⟨o₁, hrun, h₁⟩, h₂⟩

section Within

variable {before after : List Edit} {start stop p : Int}

/-- Strictly inside a range that was edited last, the boundaries are those that earlier edits have
left. -/
theorem Takes.isBoundary_within (h : (ofText base).Takes (before ++ [e]) o)
    (hr : e.range? = some (start, stop)) (h1 : start < p) (h2 : p < stop) :
    o.isBoundary p = true ↔ ∃ e' ∈ before, p ∈ e'.offsets := by
  obtain ⟨o₁, hbefore, hlast⟩ := takes_append.1 h
  obtain ⟨o₂, hrun, -⟩ := takes_cons.1 hlast
  have hin := inRange_of_made hr hrun
  have hends : p ∉ e.offsets := by
    simp only [Edit.offsets_of_range hr, List.mem_cons, List.not_mem_nil, or_false]
    omega
  have hbase : ¬ (ofText base).isBoundary p = true := fun hp => by
    have hp := isBoundary_of_ofText hp
    rw [Overlay.InRange, hbefore.base_eq] at hin
    change 0 ≤ start ∧ start ≤ stop ∧ stop ≤ base.length at hin
    omega
  rw [h.isBoundary_iff (consistent_ofText base), or_iff_left hbase]
  simp only [List.mem_append, List.mem_singleton, or_and_right, exists_or, exists_eq_left]
  exact or_iff_left hends

/-- On a text on which any edits were made, one of which has overwritten a range: an insertion
strictly inside the range is refused because of an overlap exactly if no edit accepted before that
one has left a boundary at its offset. -/
theorem insertion_refused_iff {es : List Edit} {text : Text}
    {i : Edit} (hes : (ofText base).accepted es = before ++ e :: after)
    (hr : e.range? = some (start, stop)) (h1 : start < p) (h2 : p < stop)
    (hi : i = .insertBefore p text ∨ i = .insertAfter p text) :
    (∃ err o', outcome i.run ((ofText base).performAll es) = (.error err, o') ∧
        err.isOverlap = true) ↔
      ∀ e' ∈ before, p ∉ e'.offsets := by
  have h := takes_performAll base es
  rw [hes, List.append_cons] at h
  generalize (ofText base).performAll es = o at h ⊢
  have htext := consistent_ofText base
  have hc := h.consistent htext
  -- the overlay right behind the edit of the range, whose boundaries inside the range stay
  obtain ⟨o₁, hedited, hafter⟩ := takes_append.1 h
  have hc₁ := hedited.consistent htext
  have hboundary := hedited.isBoundary_within hr h1 h2
  by_cases hp : ∃ e' ∈ before, p ∈ e'.offsets
  · obtain ⟨e', he', hmem⟩ := hp
    have hpo : o.isBoundary p = true := (hafter.isBoundary hc₁).1 p (hboundary.2 ⟨e', he', hmem⟩)
    obtain ⟨o', hok⟩ := hc.accepts_insertion hi hpo
    refine iff_of_false ?_ fun hnone => hnone e' he' hmem
    rintro ⟨err, o'', herr, -⟩
    exact nomatch (Prod.mk.inj (herr.symm.trans hok)).1
  · have hcovered {es' : List Edit} {o' : Overlay} (h' : (ofText base).Takes es' o') (he : e ∈ es')
        (q : Int) (hq : start ≤ q ∧ q < stop) : o'.isCovered q = true :=
      (h'.isCovered q).trans (Edit.isCovered_of_range he hr hq.1 hq.2)
    have hnot : ¬ o.isBoundary p = true := hafter.not_isBoundary hc₁
      (hcovered hedited (by simp) (p - 1) (by omega)) (hcovered hedited (by simp) p (by omega))
      (mt hboundary.1 hp)
    obtain ⟨s, herr⟩ := hc.refuses_insertion hi (hcovered h (by simp) p (by omega)) hnot
    exact iff_of_true ⟨_, o, herr, rfl⟩ fun e' he' hmem => hp ⟨e', he', hmem⟩

end Within

theorem insertion_refused_sample :
    let base : Text := ['a', 'b', 'c', 'd', 'e', 'f']
    let es : List Edit := [.insertBefore 3 ['1'], .replace 1 5 ['x'], .insertAfter 5 ['2']]
    (ofText base).accepted es = es ∧
      ∃ err o', outcome (Edit.run (.insertAfter 2 ['3'])) ((ofText base).performAll es) =
        (.error err, o') ∧ err.isOverlap = true := by
  intro base es
  have hes : (ofText base).accepted es =
      [.insertBefore 3 ['1']] ++ .replace 1 5 ['x'] :: [.insertAfter 5 ['2']] := by decide
  exact ⟨hes, (insertion_refused_iff hes rfl (by decide) (by decide) (.inr rfl)).2 (by decide)⟩

/-- Where a text was inserted before the code points around it were deleted, there are further
insertions, though the range that was deleted lies around them. -/
theorem accepts_insertion_deleted :
    let es : List Edit := [.insertBefore 1 ['x'], .delete 0 2]
    let o := ofText ['a', 'b']
    o.accepted es = es ∧ (o.performAll es).accepts (.insertBefore 1 ['y']) = true ∧
      (o.performAll es).accepts (.insertAfter 1 ['y']) = true := by
  decide

end Overlay

end RegistryScript
