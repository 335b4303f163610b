import Mathlib
import RegistryScript.Proofs.Overlay.View

/-! # What an edit does to an overlay

Each edit of a consistent overlay is either refused, and then nothing has changed, or it is made,
and then the view has changed at the offsets that the edit speaks of and nowhere else.

* `Overlay.outcome_split`: making an offset a boundary shows nowhere.
* `Overlay.outcome_insertBefore`, `Overlay.outcome_insertAfter`, `Overlay.outcome_edit`: when an
  edit is refused, and what it changes otherwise.
-/

namespace RegistryScript
set_option autoImplicit false

namespace View

def insertBefore (p : Int) (text : Text) (v : View) : View :=
  { v with before := fun q => if q = p then v.before q ++ [text] else v.before q }

def insertAfter (p : Int) (text : Text) (v : View) : View :=
  { v with after := fun q => if q = p then v.after q ++ [text] else v.after q }

def cover (start stop : Int) (text : Text) (v : View) : View :=
  { v with
    inPlace := fun q => if q = start then v.inPlace q ++ text else v.inPlace q
    covered := fun q => v.covered q || decide (start ≤ q ∧ q < stop) }

end View

namespace Overlay

section Consistent

variable {o : Overlay}

theorem Consistent.base_ne_nil (hc : o.Consistent) {key : Nat} {p : Int} (hk : key ∈ o.order)
    (h1 : (o.segment key).start ≤ p) (h2 : p < (o.segment key).stop) : o.base ≠ [] := by
  intro hb
  have := hc.bounds_le hk
  simp [hb] at this
  omega

/-! ## The view of an overlay, known from its segments -/

/-- A view shows what is attached to the segments of an overlay and around them. -/
structure Fits (v : View) (o : Overlay) : Prop where
  base_eq : v.base = o.base
  prologue_eq : v.prologue = o.prologue
  epilogue_eq : v.epilogue = o.epilogue
  head_eq : v.after 0 = o.head
  tail_eq : v.before o.base.length = o.tail
  agrees : ∀ key ∈ o.order, Agrees v (o.segment key)
  outside : ∀ p : Int, p < 0 ∨ o.base.length < p → v.before p = [] ∧ v.after p = []
  unedited : ∀ p : Int, p < 0 ∨ o.base.length ≤ p → v.inPlace p = [] ∧ v.covered p = false

/-- The segments of an overlay determine what it shows. -/
theorem Fits.unique {v w : View} (hc : o.Consistent) (hv : Fits v o) (hw : Fits w o) : v = w := by
  have hbefore : ∀ p : Int, 0 ≤ p → p < o.base.length →
      v.before p = w.before p ∧ v.inPlace p = w.inPlace p ∧ v.covered p = w.covered p := by
    intro p h0 hp
    obtain ⟨key, hk, h1, h2⟩ := hc.exists_around h0 hp
    have hv' := hv.agrees key hk
    have hw' := hw.agrees key hk
    have hcov : v.covered p = w.covered p := by rw [hv'.covered p h1 h2, hw'.covered p h1 h2]
    rcases h1.eq_or_lt with rfl | h1
    · exact ⟨by rw [hv'.before_start, hw'.before_start],
        by rw [hv'.inPlace_start, hw'.inPlace_start], hcov⟩
    · obtain ⟨h3, -, h4⟩ := hv'.inside p h1 h2
      obtain ⟨h5, -, h6⟩ := hw'.inside p h1 h2
      exact ⟨by rw [h3, h5], by rw [h4, h6], hcov⟩
  have hafter : ∀ p : Int, 0 < p → p ≤ o.base.length → v.after p = w.after p := by
    intro p h0 hp
    obtain ⟨key, hk, h1, h2⟩ := @Consistent.exists_around o hc (p - 1) (by omega) (by omega)
    have hv' := hv.agrees key hk
    have hw' := hw.agrees key hk
    by_cases hstop : p = (o.segment key).stop
    · rw [hstop, hv'.after_stop, hw'.after_stop]
    · rw [(hv'.inside p (by omega) (by omega)).2.1, (hw'.inside p (by omega) (by omega)).2.1]
  refine View.ext (by rw [hv.base_eq, hw.base_eq]) (by rw [hv.prologue_eq, hw.prologue_eq])
    (by rw [hv.epilogue_eq, hw.epilogue_eq]) ?_ ?_ ?_ ?_
  · funext p
    by_cases hin : 0 ≤ p ∧ p < o.base.length
    · exact (hbefore p hin.1 hin.2).1
    · by_cases hn : p = o.base.length
      · rw [hn, hv.tail_eq, hw.tail_eq]
      · rw [(hv.outside p (by omega)).1, (hw.outside p (by omega)).1]
  · funext p
    by_cases hin : 0 < p ∧ p ≤ o.base.length
    · exact hafter p hin.1 hin.2
    · by_cases h0 : p = 0
      · rw [h0, hv.head_eq, hw.head_eq]
      · rw [(hv.outside p (by omega)).2, (hw.outside p (by omega)).2]
  · funext p
    by_cases hin : 0 ≤ p ∧ p < o.base.length
    · exact (hbefore p hin.1 hin.2).2.1
    · rw [(hv.unedited p (by omega)).1, (hw.unedited p (by omega)).1]
  · funext p
    by_cases hin : 0 ≤ p ∧ p < o.base.length
    · exact (hbefore p hin.1 hin.2).2.2
    · rw [(hv.unedited p (by omega)).2, (hw.unedited p (by omega)).2]

theorem Consistent.startingAt_eq_none (hc : o.Consistent) (hb : o.base ≠ []) {p : Int}
    (hp : p < 0 ∨ o.base.length ≤ p) : o.startingAt.lookup p = none := by
  rw [Option.eq_none_iff_forall_ne_some]
  intro key hl
  obtain ⟨hk, hs⟩ := (hc.starting p key).1 hl
  have := hc.bounds hb hk
  omega

theorem Consistent.endingAt_eq_none (hc : o.Consistent) (hb : o.base ≠ []) {p : Int}
    (hp : p < 0 ∨ o.base.length < p) : o.endingAt.lookup p = none := by
  rw [Option.eq_none_iff_forall_ne_some]
  intro key hl
  obtain ⟨hk, hs⟩ := (hc.ending p key).1 hl
  have := hc.bounds hb hk
  omega

theorem Consistent.fits (hc : o.Consistent) (hb : o.base ≠ []) : Fits o.view o where
  base_eq := rfl
  prologue_eq := rfl
  epilogue_eq := rfl
  head_eq := by
    change o.textsAfter 0 = _
    rw [textsAfter, if_pos rfl]
  tail_eq := by
    change o.textsBefore _ = _
    rw [textsBefore, if_pos rfl]
  agrees := fun key hk => hc.agrees hb hk
  outside := by
    intro p hp
    constructor
    · change o.textsBefore _ = _
      rw [textsBefore, if_neg (by omega), hc.startingAt_eq_none hb (hp.imp_right le_of_lt)]
    · change o.textsAfter _ = _
      rw [textsAfter, if_neg (by omega), hc.endingAt_eq_none hb hp]
  unedited := by
    intro p hp
    constructor
    · change o.textInPlace _ = _
      rw [textInPlace, hc.startingAt_eq_none hb hp]
    · refine isCovered_eq_false_iff.2 fun key hk h1 h2 => ?_
      have := hc.bounds hb hk
      omega

/-! ## Boundaries -/

section CutAt

variable {L R : List Nat} {key : Nat} {p : Int}

theorem Consistent.view_cutAt (hc : o.Consistent) (ho : o.order = L ++ key :: R)
    (h1 : (o.segment key).start < p) (h2 : p < (o.segment key).stop)
    (he : (o.segment key).isEdited = false) : (o.cutAt L.length key p).view = o.view := by
  have hk : key ∈ o.order := by simp [ho]
  have hb := hc.base_ne_nil hk h1.le h2
  have hc' := hc.cutAt ho h1 h2
  have hfits := hc.fits hb
  have hkey := hfits.agrees key hk
  obtain ⟨hbefore, hafter, hplace⟩ := hkey.inside p h1 h2
  refine Fits.unique hc' (hc'.fits hb) ⟨hfits.base_eq, hfits.prologue_eq, hfits.epilogue_eq,
    hfits.head_eq, hfits.tail_eq, ?_, hfits.outside, hfits.unedited⟩
  intro l hl
  rcases (mem_order_cutAt ho).1 hl with rfl | hl
  · rw [hc.segment_cutAt_back hk]
    refine ⟨hbefore, hkey.after_stop, hplace, ?_, ?_⟩
    · exact fun q h3 h4 => hkey.inside q (lt_trans h1 h3) h4
    · exact fun q h3 h4 => (hkey.covered q (h1.le.trans h3) h4).trans he
  · by_cases hne : l = key
    · rw [hne, hc.segment_cutAt_front hk]
      refine ⟨hkey.before_start, hafter, hkey.inPlace_start, ?_, ?_⟩
      · exact fun q h3 h4 => hkey.inside q h3 (lt_trans h4 h2)
      · exact fun q h3 h4 => hkey.covered q h3 (lt_trans h4 h2)
    · rw [hc.segment_cutAt_of_ne hk hl hne]
      exact hfits.agrees l hl

theorem Consistent.isBoundary_cutAt (hc : o.Consistent) (ho : o.order = L ++ key :: R)
    (q : Int) :
    (o.cutAt L.length key p).isBoundary q = true ↔ q = p ∨ o.isBoundary q = true := by
  have hk : key ∈ o.order := by simp [ho]
  have hlookup : (o.cutAt L.length key p).startingAt.lookup q =
      if q = p then some o.pool.length else o.startingAt.lookup q :=
    lookup_cons_eq_ite q p o.pool.length o.startingAt
  have hlookup' : (o.cutAt L.length key p).endingAt.lookup q =
      if q = (o.segment key).stop then some o.pool.length
      else if q = p then some key else o.endingAt.lookup q := by
    simp only [Overlay.cutAt, lookup_cons_eq_ite]
  have hstop : (o.endingAt.lookup (o.segment key).stop).isSome = true := by
    rw [(hc.ending _ key).2 ⟨hk, rfl⟩]
    rfl
  rw [isBoundary, isBoundary, hlookup, hlookup', Bool.or_eq_true, Bool.or_eq_true]
  by_cases hq : q = p
  · simp [hq]
  · by_cases hq' : q = (o.segment key).stop
    · subst hq'
      simp [hstop]
    · rw [if_neg hq, if_neg hq', if_neg hq]
      simp [hq]

end CutAt

theorem Consistent.isBoundary_zero (hc : o.Consistent) : o.isBoundary 0 = true := by
  rw [hc.isBoundary_iff]
  by_cases hb : o.base = []
  · have hp := hc.partition
    rw [IsPartition, if_pos hb] at hp
    obtain ⟨key, R, ho, hs, -⟩ := List.map_eq_cons_iff.1 hp
    exact ⟨key, by simp [ho], .inl (by rw [hs])⟩
  · obtain ⟨key, hk, h1, h2⟩ := @Consistent.exists_around o hc 0 le_rfl (by
      have := List.length_pos_iff.2 hb
      omega)
    have := hc.bounds hb hk
    exact ⟨key, hk, .inl (by omega)⟩

theorem Consistent.isBoundary_length (hc : o.Consistent) :
    o.isBoundary o.base.length = true := by
  by_cases hb : o.base = []
  · have h0 := hc.isBoundary_zero
    rwa [hb]
  · obtain ⟨key, hk, h1, h2⟩ := @Consistent.exists_around o hc (o.base.length - 1)
      (by have := List.length_pos_iff.2 hb; omega) (by omega)
    have := hc.bounds hb hk
    exact hc.isBoundary_iff.2 ⟨key, hk, .inr (by omega)⟩

theorem Consistent.not_inside (hc : o.Consistent) {p : Int} (hp : o.isBoundary p = true)
    {key : Nat} (hk : key ∈ o.order) :
    ¬ ((o.segment key).start < p ∧ p < (o.segment key).stop) := by
  rintro ⟨h1, h2⟩
  obtain ⟨l, hl, h⟩ := hc.isBoundary_iff.1 hp
  have := hc.ne_of_inside hk h1 h2 hl
  tauto

theorem Consistent.outcome_split_inside (hc : o.Consistent) {p : Int} {key : Nat}
    (hk : key ∈ o.order) (h1 : (o.segment key).start < p) (h2 : p < (o.segment key).stop) :
    ∃ L R, o.order = L ++ key :: R ∧ outcome (split p) o =
      if (o.segment key).isEdited then (.error (.overlap p p (o.segment key)), o)
      else (.ok (), o.cutAt L.length key p) := by
  have hb := hc.base_ne_nil hk h1.le h2
  have hbounds := hc.bounds hb hk
  have hp : ¬ o.isBoundary p = true := fun hp => hc.not_inside hp hk ⟨h1, h2⟩
  obtain ⟨L, l, R, ho, hL, h3, h4⟩ := @Consistent.locate o hc p (by omega) (by omega)
  obtain rfl : l = key := hc.eq_of_around (by simp [ho]) hk h3 h4 h1.le h2
  have hplace : o.order[o.locate p]? = some l := by
    rw [← hL, ho]
    simp
  refine ⟨L, R, ho, ?_⟩
  rw [split, outcome_bind_of_ok (outcome_get o), if_neg hp, hL]
  simp only [hplace]
  split <;> rfl

/-- Making an offset a boundary is refused strictly inside an edited segment. Otherwise it shows
nowhere. -/
theorem Consistent.outcome_split (hc : o.Consistent) {p : Int} (h0 : 0 ≤ p)
    (hn : p ≤ o.base.length) :
    (∃ key ∈ o.order, (o.segment key).isEdited = true ∧ (o.segment key).start < p ∧
      p < (o.segment key).stop ∧
      outcome (split p) o = (.error (.overlap p p (o.segment key)), o)) ∨
    ∃ o', outcome (split p) o = (.ok (), o') ∧ o'.Consistent ∧ o'.view = o.view ∧
      ∀ q, o'.isBoundary q = true ↔ q = p ∨ o.isBoundary q = true := by
  by_cases hp : o.isBoundary p = true
  · refine .inr ⟨o, ?_, hc, rfl, fun q => ?_⟩
    · rw [split, outcome_bind_of_ok (outcome_get o), if_pos hp]
      rfl
    · constructor
      · exact .inr
      · rintro (rfl | h)
        · exact hp
        · exact h
  · have hpn : p ≠ o.base.length := by
      rintro rfl
      exact hp hc.isBoundary_length
    obtain ⟨key, hk, h1, h2⟩ := @Consistent.exists_around o hc p h0 (by omega)
    have h1' : (o.segment key).start < p := by
      refine lt_of_le_of_ne h1 fun h => hp ?_
      exact hc.isBoundary_iff.2 ⟨key, hk, .inl h⟩
    obtain ⟨L, R, ho, hrun⟩ := hc.outcome_split_inside hk h1' h2
    cases he : (o.segment key).isEdited with
    | true =>
      refine .inl ⟨key, hk, he, h1', h2, ?_⟩
      rw [hrun, if_pos he]
    | false =>
      refine .inr ⟨o.cutAt L.length key p, ?_, hc.cutAt ho h1' h2, hc.view_cutAt ho h1' h2 he,
        hc.isBoundary_cutAt ho⟩
      rw [hrun, he, if_neg Bool.false_ne_true]

/-! ## Insertions -/

theorem Consistent.exists_start (hc : o.Consistent) {p : Int} (h0 : 0 ≤ p)
    (hn : p < o.base.length) (hp : o.isBoundary p = true) :
    ∃ key ∈ o.order, (o.segment key).start = p := by
  obtain ⟨key, hk, h1, h2⟩ := hc.exists_around h0 hn
  refine ⟨key, hk, ?_⟩
  by_contra hne
  obtain ⟨l, hl, h⟩ := hc.isBoundary_iff.1 hp
  have := hc.ne_of_inside hk (lt_of_le_of_ne h1 hne) h2 hl
  tauto

theorem Consistent.exists_stop (hc : o.Consistent) {p : Int} (h0 : 0 < p)
    (hn : p ≤ o.base.length) (hp : o.isBoundary p = true) :
    ∃ key ∈ o.order, (o.segment key).stop = p := by
  obtain ⟨key, hk, h1, h2⟩ := @Consistent.exists_around o hc (p - 1) (by omega) (by omega)
  refine ⟨key, hk, ?_⟩
  by_contra hne
  obtain ⟨l, hl, h⟩ := hc.isBoundary_iff.1 hp
  have := @Consistent.ne_of_inside o key p hc hk (by omega) (by omega) l hl
  tauto

theorem Agrees.insertBefore {v : View} {s : Segment} {p : Int} (h : Agrees v s) (text : Text)
    (hp : ¬ (s.start < p ∧ p < s.stop)) :
    Agrees (v.insertBefore p text)
      (if s.start = p then { s with left := s.left ++ [text] } else s) := by
  have hinside : ∀ q, s.start < q → q < s.stop → q ≠ p := by
    rintro q h1 h2 rfl
    exact hp ⟨h1, h2⟩
  by_cases hs : s.start = p
  · rw [if_pos hs]
    refine ⟨?_, h.after_stop, h.inPlace_start, fun q h1 h2 => ?_, h.covered⟩
    · simp only [View.insertBefore, if_pos hs]
      rw [h.before_start]
    · simp only [View.insertBefore, if_neg (hinside q h1 h2)]
      exact h.inside q h1 h2
  · rw [if_neg hs]
    refine ⟨?_, h.after_stop, h.inPlace_start, fun q h1 h2 => ?_, h.covered⟩
    · simp only [View.insertBefore, if_neg hs]
      exact h.before_start
    · simp only [View.insertBefore, if_neg (hinside q h1 h2)]
      exact h.inside q h1 h2

theorem Agrees.insertAfter {v : View} {s : Segment} {p : Int} (h : Agrees v s) (text : Text)
    (hp : ¬ (s.start < p ∧ p < s.stop)) :
    Agrees (v.insertAfter p text)
      (if s.stop = p then { s with right := s.right ++ [text] } else s) := by
  have hinside : ∀ q, s.start < q → q < s.stop → q ≠ p := by
    rintro q h1 h2 rfl
    exact hp ⟨h1, h2⟩
  by_cases hs : s.stop = p
  · rw [if_pos hs]
    refine ⟨h.before_start, ?_, h.inPlace_start, fun q h1 h2 => ?_, h.covered⟩
    · simp only [View.insertAfter, if_pos hs]
      rw [h.after_stop]
    · simp only [View.insertAfter, if_neg (hinside q h1 h2)]
      exact h.inside q h1 h2
  · rw [if_neg hs]
    refine ⟨h.before_start, ?_, h.inPlace_start, fun q h1 h2 => ?_, h.covered⟩
    · simp only [View.insertAfter, if_neg hs]
      exact h.after_stop
    · simp only [View.insertAfter, if_neg (hinside q h1 h2)]
      exact h.inside q h1 h2

theorem Consistent.attachLeft (hc : o.Consistent) {p : Int} (text : Text) (h0 : 0 ≤ p)
    (hn : p < o.base.length) (hp : o.isBoundary p = true) :
    (attachLeft p text o).Consistent ∧ (attachLeft p text o).view = o.view.insertBefore p text ∧
      (attachLeft p text o).isBoundary = o.isBoundary := by
  obtain ⟨key, hk, rfl⟩ := hc.exists_start h0 hn hp
  have hb := hc.base_ne_nil hk le_rfl (hc.bounds (by rintro h; simp [h] at hn; omega) hk).2.1
  have hrun : Overlay.attachLeft (o.segment key).start text o =
      o.update key fun s => { s with left := s.left ++ [text] } := by
    rw [Overlay.attachLeft, (hc.starting _ key).2 ⟨hk, rfl⟩]
  rw [hrun]
  have hc' : (o.update key fun s => { s with left := s.left ++ [text] }).Consistent :=
    hc.update hb hk fun _ => rfl
  have hfits := hc.fits hb
  refine ⟨hc', ?_, rfl⟩
  refine Fits.unique hc' (hc'.fits hb) ⟨rfl, rfl, rfl, hfits.head_eq, ?_, ?_, ?_, hfits.unedited⟩
  · change (if _ then _ else _) = _
    rw [if_neg (by simp only [Overlay.update]; omega)]
    exact hfits.tail_eq
  · intro l hl
    have hagrees := (hfits.agrees l hl).insertBefore text (hc.not_inside hp hl)
    rw [segment_update (hc.known key hk)]
    by_cases hne : l = key
    · rw [hne, if_pos rfl] at hagrees
      rwa [if_pos hne]
    · rw [if_neg fun h => hne (hc.eq_of_start_eq hl hk h)] at hagrees
      rwa [if_neg hne]
  · intro q hq
    have hbounds := hc.bounds hb hk
    simp only [View.insertBefore]
    rw [if_neg (by simp only [Overlay.update] at hq; omega)]
    exact hfits.outside q hq

theorem Consistent.attachRight (hc : o.Consistent) {p : Int} (text : Text) (h0 : 0 < p)
    (hn : p ≤ o.base.length) (hp : o.isBoundary p = true) :
    (attachRight p text o).Consistent ∧ (attachRight p text o).view = o.view.insertAfter p text ∧
      (attachRight p text o).isBoundary = o.isBoundary := by
  obtain ⟨key, hk, rfl⟩ := hc.exists_stop h0 hn hp
  have hb : o.base ≠ [] := by
    rintro h
    simp [h] at hn
    omega
  have hrun : Overlay.attachRight (o.segment key).stop text o =
      o.update key fun s => { s with right := s.right ++ [text] } := by
    rw [Overlay.attachRight, (hc.ending _ key).2 ⟨hk, rfl⟩]
  rw [hrun]
  have hc' : (o.update key fun s => { s with right := s.right ++ [text] }).Consistent :=
    hc.update hb hk fun _ => rfl
  have hfits := hc.fits hb
  refine ⟨hc', ?_, rfl⟩
  refine Fits.unique hc' (hc'.fits hb) ⟨rfl, rfl, rfl, ?_, hfits.tail_eq, ?_, ?_, hfits.unedited⟩
  · change (if _ then _ else _) = _
    rw [if_neg (by omega)]
    exact hfits.head_eq
  · intro l hl
    have hagrees := (hfits.agrees l hl).insertAfter text (hc.not_inside hp hl)
    rw [segment_update (hc.known key hk)]
    by_cases hne : l = key
    · rw [hne, if_pos rfl] at hagrees
      rwa [if_pos hne]
    · rw [if_neg fun h => hne (hc.eq_of_stop_eq hl hk h)] at hagrees
      rwa [if_neg hne]
  · intro q hq
    have hbounds := hc.bounds hb hk
    simp only [View.insertAfter]
    rw [if_neg (by simp only [Overlay.update] at hq; omega)]
    exact hfits.outside q hq

theorem outcome_checkOffset (p : Int) (o : Overlay) :
    outcome (checkOffset p) o =
      if 0 ≤ p ∧ p ≤ o.base.length then (.ok (), o)
      else (.error (.outOfRange p o.base.length), o) := by
  rw [checkOffset, outcome_bind_of_ok (outcome_get o)]
  by_cases h : 0 ≤ p ∧ p ≤ o.base.length
  · simp only [if_pos h, outcome_pure]
  · simp only [if_neg h, outcome_throw]

/-- An edit that goes through leaves an overlay that shows the given view; the boundaries it adds
are the given offsets. -/
structure Made (e : Editing Unit) (o : Overlay) (v : View) (offsets : List Int) (o' : Overlay) :
    Prop where
  outcome_eq : outcome e o = (.ok (), o')
  consistent : o'.Consistent
  view_eq : o'.view = v
  isBoundary_iff : ∀ q, o'.isBoundary q = true ↔ q ∈ offsets ∨ o.isBoundary q = true

def RefusedInside (e : Editing Unit) (o : Overlay) (p : Int) : Prop :=
  ∃ key ∈ o.order, (o.segment key).isEdited = true ∧ (o.segment key).start < p ∧
    p < (o.segment key).stop ∧ outcome e o = (.error (.overlap p p (o.segment key)), o)

theorem Made.of_isBoundary {e : Editing Unit} {o' : Overlay} {v : View} {p : Int}
    (hrun : outcome e o = (.ok (), o')) (hc : o'.Consistent) (hv : o'.view = v)
    (hsame : o'.isBoundary = o.isBoundary) (hp : o.isBoundary p = true) : Made e o v [p] o' := by
  refine ⟨hrun, hc, hv, fun q => ?_⟩
  rw [hsame, List.mem_singleton]
  constructor
  · exact .inr
  · rintro (rfl | h)
    · exact hp
    · exact h

/-- An insertion that makes its offset a boundary is refused strictly inside an edited segment.
Otherwise it attaches its text at the boundary. -/
theorem Consistent.outcome_attach (hc : o.Consistent) {p : Int} (h0 : 0 ≤ p)
    (hn : p ≤ o.base.length) {e : Editing Unit} {attach : Overlay → Overlay} {insert : View → View}
    (hrun : outcome e o = outcome (split p >>= fun _ => modify attach) o)
    (hattach : ∀ o' : Overlay, o'.Consistent → o'.base = o.base → o'.isBoundary p = true →
      (attach o').Consistent ∧ (attach o').view = insert o'.view ∧
        (attach o').isBoundary = o'.isBoundary) :
    RefusedInside e o p ∨ ∃ o', Made e o (insert o.view) [p] o' := by
  rcases hc.outcome_split h0 hn with ⟨key, hk, he, h1, h2, hs⟩ | ⟨o', hs, hc', hv, hbd⟩
  · refine .inl ⟨key, hk, he, h1, h2, ?_⟩
    rw [hrun, outcome_bind_of_error hs]
  · obtain ⟨h3, h4, h5⟩ := hattach o' hc' (congrArg View.base hv) ((hbd p).2 (.inl rfl))
    refine .inr ⟨attach o', ?_, h3, by rw [h4, hv], fun q => ?_⟩
    · rw [hrun, outcome_bind_of_ok hs]
      rfl
    · rw [h5, hbd, List.mem_singleton]

theorem Consistent.outcome_insertBefore (hc : o.Consistent) {p : Int} (text : Text) (h0 : 0 ≤ p)
    (hn : p ≤ o.base.length) :
    RefusedInside (insertBefore p text) o p ∨
      ∃ o', Made (insertBefore p text) o (o.view.insertBefore p text) [p] o' := by
  have hcheck : outcome (checkOffset p) o = (.ok (), o) := by
    rw [outcome_checkOffset, if_pos ⟨h0, hn⟩]
  by_cases hp : p = o.base.length
  · refine .inr ⟨{ o with tail := o.tail ++ [text] }, Made.of_isBoundary ?_ ?_ ?_ rfl ?_⟩
    · rw [Overlay.insertBefore, outcome_bind_of_ok hcheck, outcome_bind_of_ok (outcome_get o),
        if_pos hp]
      rfl
    · exact ⟨hc.known, hc.distinct, hc.partition, hc.starts_eq, hc.starting, hc.ending⟩
    · refine View.ext rfl rfl rfl ?_ rfl rfl rfl
      funext q
      change (if q = o.base.length then _ else _) = if q = p then o.textsBefore q ++ _ else _
      rw [hp]
      split
      · next hq => rw [hq, textsBefore, if_pos rfl]
      · next hq =>
        change _ = o.textsBefore q
        rw [textsBefore, if_neg hq]
        rfl
    · rw [hp]
      exact hc.isBoundary_length
  · refine hc.outcome_attach h0 hn ?_ fun o' hc' hbase hb =>
      hc'.attachLeft text h0 (by rw [hbase]; omega) hb
    rw [Overlay.insertBefore, outcome_bind_of_ok hcheck, outcome_bind_of_ok (outcome_get o),
      if_neg hp]

theorem Consistent.outcome_insertAfter (hc : o.Consistent) {p : Int} (text : Text) (h0 : 0 ≤ p)
    (hn : p ≤ o.base.length) :
    RefusedInside (insertAfter p text) o p ∨
      ∃ o', Made (insertAfter p text) o (o.view.insertAfter p text) [p] o' := by
  have hcheck : outcome (checkOffset p) o = (.ok (), o) := by
    rw [outcome_checkOffset, if_pos ⟨h0, hn⟩]
  by_cases hp : p = 0
  · refine .inr ⟨{ o with head := o.head ++ [text] }, Made.of_isBoundary ?_ ?_ ?_ rfl ?_⟩
    · rw [Overlay.insertAfter, outcome_bind_of_ok hcheck, if_pos hp]
      rfl
    · exact ⟨hc.known, hc.distinct, hc.partition, hc.starts_eq, hc.starting, hc.ending⟩
    · refine View.ext rfl rfl rfl rfl ?_ rfl rfl
      funext q
      change (if q = 0 then _ else _) = if q = p then o.textsAfter q ++ _ else _
      rw [hp]
      split
      · next hq => rw [hq, textsAfter, if_pos rfl]
      · next hq =>
        change _ = o.textsAfter q
        rw [textsAfter, if_neg hq]
        rfl
    · rw [hp]
      exact hc.isBoundary_zero
  · refine hc.outcome_attach h0 hn ?_ fun o' hc' hbase hb =>
      hc'.attachRight text (lt_of_le_of_ne h0 (Ne.symm hp)) (by rw [hbase]; exact hn) hb
    rw [Overlay.insertAfter, outcome_bind_of_ok hcheck, if_neg hp]

/-! ## Ranges -/

theorem mem_takeWhile_of_pairwise {α : Type} {p : α → Bool} {l : List α}
    (hl : l.Pairwise fun a b => p b = true → p a = true) {x : α} (hx : x ∈ l) (hp : p x = true) :
    x ∈ l.takeWhile p := by
  induction l with
  | nil => exact absurd hx List.not_mem_nil
  | cons a l ih =>
    obtain ⟨hal, hl⟩ := List.pairwise_cons.1 hl
    rcases List.mem_cons.1 hx with rfl | hx
    · rw [List.takeWhile_cons, if_pos hp]
      exact List.mem_cons_self
    · rw [List.takeWhile_cons, if_pos (hal x hx hp)]
      exact List.mem_cons_of_mem _ (ih hl hx)

section Range

variable {start stop : Int}

theorem Consistent.keysWithin_eq (hc : o.Consistent) (h0 : 0 ≤ start) (hlt : start < stop)
    (hn : stop ≤ o.base.length) :
    ∃ L key R, o.order = L ++ key :: R ∧ (o.segment key).start ≤ start ∧
      start < (o.segment key).stop ∧
      o.keysWithin start stop = key :: R.takeWhile fun k => (o.segment k).start < stop := by
  obtain ⟨L, key, R, ho, hL, h1, h2⟩ := @Consistent.locate o hc start h0 (by omega)
  refine ⟨L, key, R, ho, h1, h2, ?_⟩
  rw [keysWithin, ← hL, ho, List.drop_left, List.takeWhile_cons,
    if_pos (decide_eq_true (by omega))]

theorem Consistent.mem_keysWithin (hc : o.Consistent) (h0 : 0 ≤ start) (hlt : start < stop)
    (hn : stop ≤ o.base.length) {k : Nat} :
    k ∈ o.keysWithin start stop ↔
      k ∈ o.order ∧ start < (o.segment k).stop ∧ (o.segment k).start < stop := by
  obtain ⟨L, key, R, ho, h1, h2, hK⟩ := hc.keysWithin_eq h0 hlt hn
  have hk : key ∈ o.order := by simp [ho]
  have hb := hc.base_ne_nil hk h1 h2
  have hpair := hc.pairwise hb
  rw [ho] at hpair
  obtain ⟨-, hR, hLR⟩ := List.pairwise_append.1 hpair
  obtain ⟨hkR, hR⟩ := List.pairwise_cons.1 hR
  have hsorted : R.Pairwise fun a b =>
      decide ((o.segment b).start < stop) = true → decide ((o.segment a).start < stop) = true := by
    refine hR.imp_of_mem fun {a b} ha _ hab h => ?_
    have := hc.bounds hb (show a ∈ o.order by simp [ho, ha])
    rw [decide_eq_true_eq] at h ⊢
    omega
  rw [hK]
  constructor
  · intro hmem
    rcases List.mem_cons.1 hmem with rfl | hmem
    · exact ⟨hk, h2, by omega⟩
    · have hkR' : k ∈ R := (List.takeWhile_prefix _).subset hmem
      have hlt' : (o.segment k).start < stop := by simpa using List.mem_takeWhile_imp hmem
      have h3 := hkR k hkR'
      have h4 := hc.bounds hb (show k ∈ o.order by simp [ho, hkR'])
      exact ⟨by simp [ho, hkR'], by omega, hlt'⟩
  · rintro ⟨hmem, h3, h4⟩
    rw [ho] at hmem
    rcases List.mem_append.1 hmem with hmem | hmem
    · have := hLR k hmem key List.mem_cons_self
      omega
    · rcases List.mem_cons.1 hmem with rfl | hmem
      · exact List.mem_cons_self
      · exact List.mem_cons_of_mem _ (mem_takeWhile_of_pairwise hsorted hmem (decide_eq_true h4))

theorem Consistent.editedWithin?_eq_none_iff (hc : o.Consistent) (h0 : 0 ≤ start)
    (hlt : start < stop) (hn : stop ≤ o.base.length) :
    o.editedWithin? start stop = none ↔
      ∀ q, start ≤ q → q < stop → o.isCovered q = false := by
  rw [editedWithin?, List.find?_eq_none]
  constructor
  · intro h q h1 h2
    refine isCovered_eq_false_iff.2 fun key hk h3 h4 => ?_
    rw [← Bool.not_eq_true]
    refine h _ (List.mem_map_of_mem ((hc.mem_keysWithin h0 hlt hn).2 ⟨hk, ?_, ?_⟩)) <;> omega
  · intro h s hs
    obtain ⟨key, hk, rfl⟩ := List.mem_map.1 hs
    obtain ⟨hk, h1, h2⟩ := (hc.mem_keysWithin h0 hlt hn).1 hk
    have hbounds := hc.bounds_le hk
    by_cases h3 : (o.segment key).start ≤ start
    · rw [isCovered_eq_false_iff.1 (h start le_rfl hlt) key hk h3 h1]
      exact Bool.false_ne_true
    · have hb := hc.bounds (by
        rintro hb
        simp [hb] at hn
        omega) hk
      rw [isCovered_eq_false_iff.1 (h (o.segment key).start (by omega) h2) key hk le_rfl hb.2.1]
      exact Bool.false_ne_true

theorem Consistent.editedWithin?_eq_some (hc : o.Consistent) (h0 : 0 ≤ start)
    (hlt : start < stop) (hn : stop ≤ o.base.length) {s : Segment}
    (hs : o.editedWithin? start stop = some s) :
    ∃ key ∈ o.order, o.segment key = s ∧ s.isEdited = true ∧ start < s.stop ∧ s.start < stop := by
  have he := List.find?_some hs
  obtain ⟨key, hk, rfl⟩ := List.mem_map.1 (List.mem_of_find?_eq_some hs)
  obtain ⟨hk, h1, h2⟩ := (hc.mem_keysWithin h0 hlt hn).1 hk
  exact ⟨key, hk, rfl, he, h1, h2⟩

end Range

/-! ## Overwriting -/

structure SameFrame (o o' : Overlay) : Prop where
  base_eq : o'.base = o.base
  prologue_eq : o'.prologue = o.prologue
  epilogue_eq : o'.epilogue = o.epilogue
  head_eq : o'.head = o.head
  tail_eq : o'.tail = o.tail
  order_eq : o'.order = o.order
  startingAt_eq : o'.startingAt = o.startingAt
  endingAt_eq : o'.endingAt = o.endingAt
  consistent : o'.Consistent

theorem Consistent.foldl_overwrite (hc : o.Consistent) (hb : o.base ≠ []) (text : Text)
    (keys : List Nat) (hkeys : ∀ key ∈ keys, key ∈ o.order) :
    SameFrame o (keys.foldl (overwrite text) o) ∧ ∀ l, (keys.foldl (overwrite text) o).segment l =
      if l ∈ keys then { o.segment l with replacement := some text } else o.segment l := by
  induction keys generalizing o with
  | nil => exact ⟨⟨rfl, rfl, rfl, rfl, rfl, rfl, rfl, rfl, hc⟩, fun l => by simp⟩
  | cons key keys ih =>
    have hk := hkeys key List.mem_cons_self
    have hc' : (o.overwrite text key).Consistent := hc.update hb hk fun _ => rfl
    obtain ⟨⟨h1, h2, h3, h4, h5, h6, h7, h8, h9⟩, hseg⟩ := ih hc' hb fun l hl =>
      hkeys l (List.mem_cons_of_mem _ hl)
    refine ⟨⟨h1, h2, h3, h4, h5, h6, h7, h8, h9⟩, fun l => ?_⟩
    · rw [List.foldl_cons, hseg l, overwrite, segment_update (hc.known key hk)]
      by_cases hl : l = key
      · subst hl
        simp
      · simp [hl]

section Overwrite

variable {start stop : Int}

/-- Several segments overwritten: the first with a text, the others with nothing. -/
theorem Consistent.segment_overwriteAll (hc : o.Consistent) (hb : o.base ≠ []) (text : Text)
    {key : Nat} {rest : List Nat} (hkeys : ∀ k ∈ key :: rest, k ∈ o.order) (hkey : key ∉ rest) :
    SameFrame o (o.overwriteAll text (key :: rest)) ∧
      ∀ l, (o.overwriteAll text (key :: rest)).segment l =
        if l ∈ key :: rest then
          { o.segment l with replacement := some (if l = key then text else []) }
        else o.segment l := by
  have hk := hkeys key List.mem_cons_self
  have hc' : (o.overwrite text key).Consistent := hc.update hb hk fun _ => rfl
  obtain ⟨⟨h1, h2, h3, h4, h5, h6, h7, h8, h9⟩, hseg⟩ := hc'.foldl_overwrite hb [] rest fun l hl =>
    hkeys l (List.mem_cons_of_mem _ hl)
  refine ⟨⟨h1, h2, h3, h4, h5, h6, h7, h8, h9⟩, fun l => ?_⟩
  rw [Overlay.overwriteAll, hseg, overwrite, segment_update (hc.known key hk)]
  by_cases hl : l = key
  · subst hl
    simp [hkey]
  · simp [hl]

theorem Consistent.within_range (hc : o.Consistent) (h0 : 0 ≤ start) (hlt : start < stop)
    (hn : stop ≤ o.base.length) (hstart : o.isBoundary start = true)
    (hstop : o.isBoundary stop = true) {k : Nat} (hk : k ∈ o.keysWithin start stop) :
    start ≤ (o.segment k).start ∧ (o.segment k).stop ≤ stop := by
  obtain ⟨hk, h1, h2⟩ := (hc.mem_keysWithin h0 hlt hn).1 hk
  have h3 := hc.not_inside hstart hk
  have h4 := hc.not_inside hstop hk
  omega

theorem Consistent.keysWithin_eq_cons (hc : o.Consistent) (h0 : 0 ≤ start) (hlt : start < stop)
    (hn : stop ≤ o.base.length) (hstart : o.isBoundary start = true) :
    ∃ key rest, o.keysWithin start stop = key :: rest ∧ (o.segment key).start = start ∧
      key ∉ rest := by
  obtain ⟨L, key, R, ho, h1, h2, hK⟩ := hc.keysWithin_eq h0 hlt hn
  have hk : key ∈ o.order := by simp [ho]
  refine ⟨key, _, hK, ?_, fun hmem => ?_⟩
  · have := hc.not_inside hstart hk
    omega
  · have hd := hc.distinct
    rw [ho] at hd
    exact (List.nodup_cons.1 (List.nodup_append.1 hd).2.1).1 ((List.takeWhile_prefix _).subset hmem)

theorem Agrees.overwrite {v : View} {s : Segment} (h : Agrees v s) (he : s.isEdited = false)
    (h1 : start ≤ s.start) (h2 : s.stop ≤ stop) {text new : Text}
    (hnew : new = if s.start = start then text else []) :
    Agrees (v.cover start stop text) { s with replacement := some new } := by
  have hnone : v.inPlace s.start = [] := by
    rw [h.inPlace_start]
    cases hr : s.replacement with
    | none => rfl
    | some t => simp [Segment.isEdited, hr] at he
  refine ⟨h.before_start, h.after_stop, ?_, fun q h3 h4 => ?_, fun q h3 h4 => ?_⟩
  · simp only [View.cover, Option.getD_some]
    rw [hnone, hnew]
    simp
  · obtain ⟨h5, h6, h7⟩ := h.inside q h3 h4
    refine ⟨h5, h6, ?_⟩
    simp only [View.cover] at h3 ⊢
    rw [if_neg (by omega), h7]
  · simp only at h3 h4
    simp only [View.cover]
    rw [decide_eq_true (show start ≤ q ∧ q < stop by omega), Bool.or_true]
    rfl

theorem Agrees.beside {v : View} {s : Segment} (h : Agrees v s) (hlt : start < stop)
    (hs : s.start < s.stop) (hout : s.stop ≤ start ∨ stop ≤ s.start) (text : Text) :
    Agrees (v.cover start stop text) s := by
  refine ⟨h.before_start, h.after_stop, ?_, fun q h3 h4 => ?_, fun q h3 h4 => ?_⟩
  · simp only [View.cover]
    rw [if_neg (by omega), h.inPlace_start]
  · obtain ⟨h5, h6, h7⟩ := h.inside q h3 h4
    refine ⟨h5, h6, ?_⟩
    simp only [View.cover]
    rw [if_neg (by omega), h7]
  · simp only [View.cover]
    rw [h.covered q h3 h4, decide_eq_false (by omega), Bool.or_false]

theorem Consistent.agrees_overwritten (hc : o.Consistent) (hb : o.base ≠ []) (text : Text)
    (hlt : start < stop) (hfree : ∀ q, start ≤ q → q < stop → o.isCovered q = false)
    {keys : List Nat} {key : Nat}
    (hmem : ∀ k, k ∈ keys ↔
      k ∈ o.order ∧ start < (o.segment k).stop ∧ (o.segment k).start < stop)
    (hwithin : ∀ k ∈ keys, start ≤ (o.segment k).start ∧ (o.segment k).stop ≤ stop)
    (hkey : key ∈ keys) (hstart : (o.segment key).start = start) {l : Nat} (hl : l ∈ o.order) :
    Agrees (o.view.cover start stop text)
      (if l ∈ keys then
        { o.segment l with replacement := some (if l = key then text else []) }
      else o.segment l) := by
  have hagrees := (hc.fits hb).agrees l hl
  have hbounds := hc.bounds hb hl
  by_cases hin : l ∈ keys
  · obtain ⟨h1, h2⟩ := hwithin l hin
    rw [if_pos hin]
    refine hagrees.overwrite ?_ h1 h2 ?_
    · rw [← hagrees.covered _ le_rfl hbounds.2.1]
      exact hfree _ h1 (by omega)
    · by_cases hne : l = key
      · rw [if_pos hne, if_pos (by rw [hne, hstart])]
      · have hk := ((hmem key).1 hkey).1
        rw [if_neg hne, if_neg fun h => hne (hc.eq_of_start_eq hl hk (h.trans hstart.symm))]
  · rw [if_neg hin]
    rw [hmem] at hin
    exact hagrees.beside hlt hbounds.2.1 (by by_contra hout; exact hin ⟨hl, by omega⟩) text

theorem Consistent.overwriteAll (hc : o.Consistent) (text : Text) (h0 : 0 ≤ start)
    (hlt : start < stop) (hn : stop ≤ o.base.length) (hstart : o.isBoundary start = true)
    (hstop : o.isBoundary stop = true)
    (hfree : ∀ q, start ≤ q → q < stop → o.isCovered q = false) :
    (o.overwriteAll text (o.keysWithin start stop)).Consistent ∧
      (o.overwriteAll text (o.keysWithin start stop)).view = o.view.cover start stop text ∧
      (o.overwriteAll text (o.keysWithin start stop)).isBoundary = o.isBoundary := by
  have hb : o.base ≠ [] := by
    rintro hb
    simp [hb] at hn
    omega
  have hmem : ∀ k, k ∈ o.keysWithin start stop ↔
      k ∈ o.order ∧ start < (o.segment k).stop ∧ (o.segment k).start < stop :=
    fun k => hc.mem_keysWithin h0 hlt hn
  have hwithin : ∀ k ∈ o.keysWithin start stop,
      start ≤ (o.segment k).start ∧ (o.segment k).stop ≤ stop :=
    fun k hk => hc.within_range h0 hlt hn hstart hstop hk
  obtain ⟨key, rest, hK, hkey, hnot⟩ := hc.keysWithin_eq_cons h0 hlt hn hstart
  rw [hK] at hmem hwithin ⊢
  obtain ⟨hframe, hseg⟩ := hc.segment_overwriteAll hb text (fun k hk => ((hmem k).1 hk).1) hnot
  generalize o.overwriteAll text (key :: rest) = o' at hframe hseg ⊢
  have hbase := hframe.base_eq
  have hc' := hframe.consistent
  have hfits := hc.fits hb
  refine ⟨hc', ?_, ?_⟩
  · refine Fits.unique hc' (hc'.fits (by rwa [hbase])) ⟨hbase.symm, ?_, ?_, ?_, ?_, ?_, ?_, ?_⟩
    · exact hframe.prologue_eq.symm
    · exact hframe.epilogue_eq.symm
    · exact hfits.head_eq.trans hframe.head_eq.symm
    · rw [hbase]
      exact hfits.tail_eq.trans hframe.tail_eq.symm
    · intro l hl
      rw [hframe.order_eq] at hl
      rw [hseg]
      exact hc.agrees_overwritten hb text hlt hfree hmem hwithin List.mem_cons_self hkey hl
    · rw [hbase]
      exact hfits.outside
    · intro q hq
      rw [hbase] at hq
      obtain ⟨h3, h4⟩ := hfits.unedited q hq
      simp only [View.cover]
      exact ⟨by rw [if_neg (by omega), h3],
        by rw [h4, decide_eq_false (by omega), Bool.or_false]⟩
  · funext q
    rw [isBoundary, isBoundary, hframe.startingAt_eq, hframe.endingAt_eq]

def RefusedRange (e : Editing Unit) (o : Overlay) (start stop : Int) : Prop :=
  ∃ key ∈ o.order, (o.segment key).isEdited = true ∧ start < (o.segment key).stop ∧
    (o.segment key).start < stop ∧
    outcome e o = (.error (.overlap start stop (o.segment key)), o)

theorem unedited_around (hfree : ∀ q, start ≤ q → q < stop → o.isCovered q = false)
    (hlt : start < stop) {p : Int} (h1 : start ≤ p) (h2 : p ≤ stop) {key : Nat}
    (hk : key ∈ o.order) (h3 : (o.segment key).start < p) (h4 : p < (o.segment key).stop) :
    (o.segment key).isEdited = false := by
  by_cases hp : p = stop
  · exact isCovered_eq_false_iff.1 (hfree (stop - 1) (by omega) (by omega)) key hk (by omega)
      (by omega)
  · exact isCovered_eq_false_iff.1 (hfree p h1 (by omega)) key hk h3.le h4

theorem Consistent.outcome_edit (hc : o.Consistent) (text : Text) (h0 : 0 ≤ start)
    (hlt : start < stop) (hn : stop ≤ o.base.length) :
    RefusedRange (edit start stop text) o start stop ∨
      (∀ q, start ≤ q → q < stop → o.isCovered q = false) ∧
      ∃ o', Made (edit start stop text) o (o.view.cover start stop text) [start, stop] o' := by
  cases hs : o.editedWithin? start stop with
  | some s =>
    obtain ⟨key, hk, rfl, he, h1, h2⟩ := hc.editedWithin?_eq_some h0 hlt hn hs
    refine .inl ⟨key, hk, he, h1, h2, ?_⟩
    rw [edit, outcome_bind_of_ok (outcome_get o)]
    simp only [hs]
    rfl
  | none =>
    have hfree := (hc.editedWithin?_eq_none_iff h0 hlt hn).1 hs
    have hrun : outcome (edit start stop text) o = outcome (split start >>= fun _ =>
        split stop >>= fun _ => modify fun o => o.overwriteAll text (o.keysWithin start stop)) o := by
      rw [edit, outcome_bind_of_ok (outcome_get o)]
      simp only [hs]
    refine .inr ⟨hfree, ?_⟩
    rcases hc.outcome_split h0 (hlt.le.trans hn) with
      ⟨key, hk, he, h1, h2, -⟩ | ⟨o₁, hs₁, hc₁, hv₁, hbd₁⟩
    · rw [unedited_around hfree hlt le_rfl hlt.le hk h1 h2] at he
      exact absurd he Bool.false_ne_true
    have hbase₁ : o₁.base = o.base := congrArg View.base hv₁
    have hcov₁ : o₁.isCovered = o.isCovered := congrArg View.covered hv₁
    rcases @Consistent.outcome_split o₁ hc₁ stop (by omega) (by rwa [hbase₁]) with
      ⟨key, hk, he, h1, h2, -⟩ | ⟨o₂, hs₂, hc₂, hv₂, hbd₂⟩
    · rw [unedited_around (by rwa [hcov₁]) hlt hlt.le le_rfl hk h1 h2] at he
      exact absurd he Bool.false_ne_true
    have hbase₂ : o₂.base = o₁.base := congrArg View.base hv₂
    have hcov₂ : o₂.isCovered = o₁.isCovered := congrArg View.covered hv₂
    obtain ⟨h1, h2, h3⟩ := hc₂.overwriteAll text h0 hlt (by rwa [hbase₂, hbase₁])
      ((hbd₂ _).2 (.inr ((hbd₁ _).2 (.inl rfl)))) ((hbd₂ _).2 (.inl rfl))
      (by rwa [hcov₂, hcov₁])
    refine ⟨_, ?_, h1, by rw [h2, hv₂, hv₁], fun q => ?_⟩
    · rw [hrun, outcome_bind_of_ok hs₁, outcome_bind_of_ok hs₂]
      rfl
    · rw [h3, hbd₂, hbd₁]
      simp only [List.mem_cons, List.not_mem_nil, or_false]
      tauto

theorem outcome_checkRange (start stop : Int) (o : Overlay) :
    outcome (checkRange start stop) o =
      if ¬ (0 ≤ start ∧ start ≤ o.base.length) then
        (.error (.outOfRange start o.base.length), o)
      else if ¬ (0 ≤ stop ∧ stop ≤ o.base.length) then
        (.error (.outOfRange stop o.base.length), o)
      else if stop < start then (.error (.inverted start stop), o) else (.ok (), o) := by
  rw [checkRange]
  by_cases h1 : 0 ≤ start ∧ start ≤ o.base.length
  · rw [if_neg (not_not_intro h1),
      outcome_bind_of_ok (by rw [outcome_checkOffset, if_pos h1])]
    by_cases h2 : 0 ≤ stop ∧ stop ≤ o.base.length
    · rw [if_neg (not_not_intro h2),
        outcome_bind_of_ok (by rw [outcome_checkOffset, if_pos h2])]
      split <;> rfl
    · rw [if_pos h2, outcome_bind_of_error (by rw [outcome_checkOffset, if_neg h2])]
  · rw [if_pos h1, outcome_bind_of_error (by rw [outcome_checkOffset, if_neg h1])]

def InRange (o : Overlay) (start stop : Int) : Prop :=
  0 ≤ start ∧ start ≤ stop ∧ stop ≤ o.base.length

theorem outcome_checkRange_of_inRange (h : o.InRange start stop) :
    outcome (checkRange start stop) o = (.ok (), o) := by
  obtain ⟨h0, hle, hn⟩ := h
  rw [outcome_checkRange, if_neg (by omega), if_neg (by omega), if_neg (by omega)]

theorem outcome_checkRange_of_not_inRange (h : ¬ o.InRange start stop) :
    ∃ err, outcome (checkRange start stop) o = (.error err, o) := by
  rw [outcome_checkRange]
  by_cases h1 : 0 ≤ start ∧ start ≤ o.base.length
  · by_cases h2 : 0 ≤ stop ∧ stop ≤ o.base.length
    · have h3 : stop < start := by
        by_contra h3
        exact h ⟨h1.1, by omega, h2.2⟩
      exact ⟨_, by rw [if_neg (not_not_intro h1), if_neg (not_not_intro h2), if_pos h3]⟩
    · exact ⟨_, by rw [if_neg (not_not_intro h1), if_pos h2]⟩
  · exact ⟨_, if_pos h1⟩

theorem outcome_replace_of_lt (text : Text) (h : o.InRange start stop) (hlt : start < stop) :
    outcome (replace start stop text) o = outcome (edit start stop text) o := by
  rw [replace, outcome_bind_of_ok (outcome_checkRange_of_inRange h), if_neg (by omega)]

theorem outcome_replace_empty (text : Text) (h : o.InRange start start) :
    outcome (replace start start text) o = (.error (.emptyRange start), o) := by
  rw [replace, outcome_bind_of_ok (outcome_checkRange_of_inRange h), if_pos rfl]
  rfl

theorem outcome_delete_of_lt (h : o.InRange start stop) (hlt : start < stop) :
    outcome (delete start stop) o = outcome (edit start stop []) o := by
  rw [delete, outcome_bind_of_ok (outcome_checkRange_of_inRange h), if_neg (by omega)]

theorem outcome_delete_empty (h : o.InRange start start) :
    outcome (delete start start) o = (.ok (), o) := by
  rw [delete, outcome_bind_of_ok (outcome_checkRange_of_inRange h), if_pos rfl]
  rfl

end Overwrite

end Consistent

end Overlay

end RegistryScript
