import Mathlib
import RegistryScript.Overlay.Basic

/-! # The representation of an overlay

An overlay keeps its segments in a pool, their keys from left to right, the offsets where they
start, and two tables of the offsets where they start and end. `Overlay.Consistent` says how these
belong together.

* `Overlay.IsPartition`: segments that lie side by side and cover a text. Only the empty text has
  an empty segment.
* `Overlay.Consistent.locate`: the segment that the bisection of the starts finds.
* `Overlay.Consistent.cutAt`, `Overlay.Consistent.update`: cutting a segment and attaching
  something to it keep an overlay consistent.
-/

namespace RegistryScript
set_option autoImplicit false

namespace Overlay

/-! ## Partitions -/

/-- Segments that cover a text from an offset to its end, one behind the other and none empty. -/
def Tiles (base : Text) : Int → List Segment → Prop
  | a, [] => a = base.length
  | a, s :: S =>
    s.start = a ∧ a < s.stop ∧ s.base = base.cut a.toNat s.stop.toNat ∧ Tiles base s.stop S

/-- Segments that are a partition of a text. Only the empty text has an empty segment. -/
def IsPartition (base : Text) (S : List Segment) : Prop :=
  if base = [] then S = [{ start := 0, stop := 0, base := [] }] else Tiles base 0 S

def span (s : Segment) : Int × Int × Text := (s.start, s.stop, s.base)

section Tiles

variable {base : Text} {a : Int} {S : List Segment}

theorem Tiles.le_length (h : Tiles base a S) : a ≤ base.length := by
  induction S generalizing a with
  | nil =>
    have ha : a = base.length := h
    omega
  | cons s S ih =>
    obtain ⟨-, h1, -, h2⟩ := h
    have := ih h2
    omega

theorem Tiles.bounds (h : Tiles base a S) :
    ∀ s ∈ S, a ≤ s.start ∧ s.start < s.stop ∧ s.stop ≤ base.length := by
  induction S generalizing a with
  | nil => simp
  | cons s S ih =>
    obtain ⟨h0, h1, -, h2⟩ := h
    have hle := h2.le_length
    intro t ht
    rcases List.mem_cons.1 ht with rfl | ht
    · omega
    · have := ih h2 t ht
      omega

theorem Tiles.pairwise (h : Tiles base a S) : S.Pairwise fun s t => s.stop ≤ t.start := by
  induction S generalizing a with
  | nil => exact List.Pairwise.nil
  | cons s S ih =>
    obtain ⟨-, -, -, h2⟩ := h
    exact List.Pairwise.cons (fun t ht => (h2.bounds t ht).1) (ih h2)

theorem Tiles.locate {p : Int} (h : Tiles base a S) (ha : a ≤ p) (hp : p < base.length) :
    ∃ L s R, S = L ++ s :: R ∧ s.start ≤ p ∧ p < s.stop ∧
      ((S.map Segment.start).takeWhile fun start => start ≤ p).length = L.length + 1 := by
  induction S generalizing a with
  | nil =>
    have h' : a = base.length := h
    omega
  | cons s S ih =>
    obtain ⟨h0, h1, -, h2⟩ := h
    have hs : s.start ≤ p := by omega
    by_cases hlt : p < s.stop
    · refine ⟨[], s, S, rfl, hs, hlt, ?_⟩
      have hrest : (S.map Segment.start).takeWhile (fun start => start ≤ p) = [] := by
        cases S with
        | nil => rfl
        | cons t S =>
          have ht : t.start = s.stop := h2.1
          simp only [List.map_cons, List.takeWhile_cons]
          rw [if_neg (by simp; omega)]
      simp [hs, hrest]
    · obtain ⟨L, t, R, rfl, h3, h4, h5⟩ := ih h2 (by omega)
      refine ⟨s :: L, t, R, rfl, h3, h4, ?_⟩
      simp only [List.map_cons, List.takeWhile_cons, decide_eq_true hs, if_true,
        List.length_cons]
      rw [h5]

/-- Only where the segments lie and what they cover counts. -/
theorem tiles_of_span_eq {S' : List Segment} (h : Tiles base a S)
    (hspan : S'.map span = S.map span) : Tiles base a S' := by
  induction S generalizing a S' with
  | nil =>
    rw [List.map_nil, List.map_eq_nil_iff] at hspan
    rw [hspan]
    exact h
  | cons s S ih =>
    obtain ⟨s', S', rfl, hs, hS⟩ := List.map_eq_cons_iff.1 hspan
    simp only [span, Prod.mk.injEq] at hs
    obtain ⟨h0, h1, h2, h3⟩ := h
    refine ⟨by omega, by omega, by rw [hs.2.2, h2, hs.2.1], ?_⟩
    rw [hs.2.1]
    exact ih h3 hS

theorem cut_cut (t : Text) (a b c : Nat) (h : b ≤ c) :
    (t.cut a c).take (b - a) = t.cut a b := by
  simp only [Text.cut]
  rw [List.take_drop, List.take_take]
  by_cases hab : a ≤ b
  · rw [show min (a + (b - a)) c = b by omega]
  · rw [List.drop_eq_nil_of_le (by simp; omega), List.drop_eq_nil_of_le (by simp; omega)]

theorem drop_cut (t : Text) (a b c : Nat) (h : a ≤ b) :
    (t.cut a c).drop (b - a) = t.cut b c := by
  simp only [Text.cut]
  rw [List.drop_drop, show a + (b - a) = b by omega]

theorem Tiles.cut {L R : List Segment} {s : Segment} {p : Int} (h : Tiles base a (L ++ s :: R))
    (h0 : 0 ≤ a) (h1 : s.start < p) (h2 : p < s.stop) :
    Tiles base a (L ++ s.front p :: s.back p :: R) := by
  induction L generalizing a with
  | nil =>
    obtain ⟨ha, hlt, hb, hR⟩ := h
    have hoff : Text.offset s.base.length (p - s.start) = p.toNat - a.toNat := by
      rw [Text.offset, if_neg (by omega)]
      omega
    refine ⟨ha, by simp only [Segment.front]; omega, ?_, rfl, h2, ?_, hR⟩
    · simp only [Segment.front]
      rw [hoff, hb, cut_cut _ _ _ _ (by omega)]
    · simp only [Segment.front, Segment.back]
      rw [hoff, hb, drop_cut _ _ _ _ (by omega)]
  | cons t L ih =>
    obtain ⟨ha, hlt, hb, hR⟩ := h
    exact ⟨ha, hlt, hb, ih hR (by omega)⟩

end Tiles

/-! ## Consistency -/

/-- The parts of an overlay belong together. -/
structure Consistent (o : Overlay) : Prop where
  known : ∀ key ∈ o.order, key < o.pool.length
  distinct : o.order.Nodup
  partition : IsPartition o.base o.segments
  starts_eq : o.starts = o.segments.map Segment.start
  starting : ∀ p key,
    o.startingAt.lookup p = some key ↔ key ∈ o.order ∧ (o.segment key).start = p
  ending : ∀ p key,
    o.endingAt.lookup p = some key ↔ key ∈ o.order ∧ (o.segment key).stop = p

theorem consistent_ofText (base : Text) : (ofText base).Consistent where
  known := by simp [ofText]
  distinct := by simp [ofText]
  partition := by
    by_cases h : base = []
    · subst h
      rfl
    · have hpos : 0 < base.length := List.length_pos_iff.2 h
      change IsPartition base (ofText base).segments
      rw [IsPartition, if_neg h]
      refine ⟨rfl, by simpa [ofText, segment] using hpos, ?_, rfl⟩
      simp [ofText, segment, Text.cut]
  starts_eq := rfl
  starting := by
    intro p key
    simp only [ofText, List.lookup_cons, List.lookup_nil, List.mem_singleton]
    by_cases hp : p = 0
    · subst hp
      constructor
      · intro h
        obtain rfl : 0 = key := by simpa using h
        exact ⟨rfl, rfl⟩
      · rintro ⟨rfl, -⟩
        rfl
    · rw [beq_eq_false_iff_ne.2 hp]
      constructor
      · simp
      · rintro ⟨rfl, h⟩
        exact absurd h.symm hp
  ending := by
    intro p key
    simp only [ofText, List.lookup_cons, List.lookup_nil, List.mem_singleton]
    by_cases hp : p = base.length
    · subst hp
      constructor
      · intro h
        obtain rfl : 0 = key := by simpa using h
        exact ⟨rfl, rfl⟩
      · rintro ⟨rfl, -⟩
        simp
    · rw [beq_eq_false_iff_ne.2 hp]
      constructor
      · simp
      · rintro ⟨rfl, h⟩
        exact absurd h.symm hp

section Consistent

variable {o : Overlay}

theorem Consistent.tiles (hc : o.Consistent) (hb : o.base ≠ []) : Tiles o.base 0 o.segments := by
  have := hc.partition
  rwa [IsPartition, if_neg hb] at this

theorem Consistent.bounds (hc : o.Consistent) (hb : o.base ≠ []) {key : Nat}
    (hk : key ∈ o.order) :
    0 ≤ (o.segment key).start ∧ (o.segment key).start < (o.segment key).stop ∧
      (o.segment key).stop ≤ o.base.length :=
  (hc.tiles hb).bounds _ (List.mem_map_of_mem hk)

theorem Consistent.segment_of_base_eq_nil (hc : o.Consistent) (hb : o.base = []) {key : Nat}
    (hk : key ∈ o.order) : o.segment key = { start := 0, stop := 0, base := [] } := by
  have hp := hc.partition
  rw [IsPartition, if_pos hb] at hp
  have hmem : o.segment key ∈ o.segments := List.mem_map_of_mem hk
  rwa [hp, List.mem_singleton] at hmem

theorem Consistent.bounds_le (hc : o.Consistent) {key : Nat} (hk : key ∈ o.order) :
    0 ≤ (o.segment key).start ∧ (o.segment key).start ≤ (o.segment key).stop ∧
      (o.segment key).stop ≤ o.base.length := by
  by_cases hb : o.base = []
  · simp [hc.segment_of_base_eq_nil hb hk]
  · have := hc.bounds hb hk
    omega

theorem Consistent.pairwise (hc : o.Consistent) (hb : o.base ≠ []) :
    o.order.Pairwise fun k l => (o.segment k).stop ≤ (o.segment l).start :=
  List.pairwise_map.1 (hc.tiles hb).pairwise

theorem Consistent.eq_of_start_eq (hc : o.Consistent) {k l : Nat} (hk : k ∈ o.order)
    (hl : l ∈ o.order) (h : (o.segment k).start = (o.segment l).start) : k = l := by
  have h1 := (hc.starting _ k).2 ⟨hk, rfl⟩
  have h2 := (hc.starting _ l).2 ⟨hl, h.symm⟩
  rw [h1] at h2
  exact Option.some.inj h2

theorem Consistent.eq_of_stop_eq (hc : o.Consistent) {k l : Nat} (hk : k ∈ o.order)
    (hl : l ∈ o.order) (h : (o.segment k).stop = (o.segment l).stop) : k = l := by
  have h1 := (hc.ending _ k).2 ⟨hk, rfl⟩
  have h2 := (hc.ending _ l).2 ⟨hl, h.symm⟩
  rw [h1] at h2
  exact Option.some.inj h2

theorem Consistent.locate (hc : o.Consistent) {p : Int} (h0 : 0 ≤ p) (hp : p < o.base.length) :
    ∃ L key R, o.order = L ++ key :: R ∧ L.length = o.locate p ∧
      (o.segment key).start ≤ p ∧ p < (o.segment key).stop := by
  have hb : o.base ≠ [] := by
    intro hb
    simp [hb] at hp
    omega
  obtain ⟨L, s, R, hS, h1, h2, h3⟩ := (hc.tiles hb).locate h0 hp
  obtain ⟨L', K, ho, rfl, hK⟩ := List.map_eq_append_iff.1 hS
  obtain ⟨key, R', rfl, rfl, rfl⟩ := List.map_eq_cons_iff.1 hK
  refine ⟨L', key, R', ho, ?_, h1, h2⟩
  rw [Overlay.locate, hc.starts_eq, h3]
  simp

theorem Consistent.exists_around (hc : o.Consistent) {p : Int} (h0 : 0 ≤ p)
    (hp : p < o.base.length) :
    ∃ key ∈ o.order, (o.segment key).start ≤ p ∧ p < (o.segment key).stop := by
  obtain ⟨L, key, R, ho, -, h⟩ := hc.locate h0 hp
  exact ⟨key, by simp [ho], h⟩

theorem Consistent.ordered (hc : o.Consistent) (hb : o.base ≠ []) {k l : Nat}
    (hk : k ∈ o.order) (hl : l ∈ o.order) (hne : k ≠ l) :
    (o.segment k).stop ≤ (o.segment l).start ∨ (o.segment l).stop ≤ (o.segment k).start := by
  have hsymm : Std.Symm fun k l =>
      (o.segment k).stop ≤ (o.segment l).start ∨ (o.segment l).stop ≤ (o.segment k).start :=
    ⟨fun _ _ h => h.symm⟩
  have hpair : o.order.Pairwise fun k l =>
      (o.segment k).stop ≤ (o.segment l).start ∨ (o.segment l).stop ≤ (o.segment k).start :=
    (hc.pairwise hb).imp Or.inl
  exact hpair.forall hk hl hne

theorem Consistent.eq_of_around (hc : o.Consistent) {k l : Nat} {p : Int} (hk : k ∈ o.order)
    (hl : l ∈ o.order) (h1 : (o.segment k).start ≤ p) (h2 : p < (o.segment k).stop)
    (h3 : (o.segment l).start ≤ p) (h4 : p < (o.segment l).stop) : k = l := by
  have hb : o.base ≠ [] := by
    intro hb
    have := hc.bounds_le hk
    simp [hb] at this
    omega
  by_contra hne
  have := hc.ordered hb hk hl hne
  omega

theorem Consistent.isBoundary_iff (hc : o.Consistent) {p : Int} :
    o.isBoundary p = true ↔
      ∃ key ∈ o.order, (o.segment key).start = p ∨ (o.segment key).stop = p := by
  rw [isBoundary, Bool.or_eq_true, Option.isSome_iff_exists, Option.isSome_iff_exists]
  simp only [hc.starting, hc.ending]
  constructor
  · rintro (⟨k, hk, h⟩ | ⟨k, hk, h⟩)
    · exact ⟨k, hk, .inl h⟩
    · exact ⟨k, hk, .inr h⟩
  · rintro ⟨k, hk, h | h⟩
    · exact .inl ⟨k, hk, h⟩
    · exact .inr ⟨k, hk, h⟩

/-! ## Changing a segment -/

theorem segment_update {key : Nat} (hk : key < o.pool.length) (change : Segment → Segment)
    (l : Nat) :
    (o.update key change).segment l = if l = key then change (o.segment key) else o.segment l := by
  simp only [segment, update, List.getD_eq_getElem?_getD, List.getElem?_modify]
  by_cases h : l = key
  · subst h
    simp [hk]
  · simp [h, Ne.symm h]

theorem Consistent.update (hc : o.Consistent) (hb : o.base ≠ []) {key : Nat}
    (hk : key ∈ o.order) {change : Segment → Segment} (hspan : ∀ s, span (change s) = span s) :
    (o.update key change).Consistent := by
  have hseg : ∀ l, span ((o.update key change).segment l) = span (o.segment l) := by
    intro l
    rw [segment_update (hc.known _ hk)]
    split
    · next h => rw [hspan, h]
    · rfl
  have hstart : ∀ l, ((o.update key change).segment l).start = (o.segment l).start :=
    fun l => congrArg Prod.fst (hseg l)
  have hstop : ∀ l, ((o.update key change).segment l).stop = (o.segment l).stop :=
    fun l => congrArg (fun x => x.2.1) (hseg l)
  refine ⟨?_, hc.distinct, ?_, ?_, ?_, ?_⟩
  · intro l hl
    simp only [Overlay.update, List.length_modify]
    exact hc.known l hl
  · rw [IsPartition]
    rw [if_neg (show (o.update key change).base ≠ [] from hb)]
    refine tiles_of_span_eq (hc.tiles hb) ?_
    simp only [segments, List.map_map]
    exact List.map_congr_left fun l _ => hseg l
  · change o.starts = _
    rw [hc.starts_eq]
    simp only [segments, List.map_map]
    exact List.map_congr_left fun l _ => (hstart l).symm
  · intro p l
    rw [hstart]
    exact hc.starting p l
  · intro p l
    rw [hstop]
    exact hc.ending p l

/-! ## Cutting a segment -/

theorem segment_cutAt {place key : Nat} {p : Int} (hk : key < o.pool.length) (l : Nat) :
    (o.cutAt place key p).segment l =
      if l = key then (o.segment key).front p
      else if l = o.pool.length then (o.segment key).back p else o.segment l := by
  simp only [segment, cutAt, List.getD_eq_getElem?_getD, List.getElem?_append, List.length_set,
    List.getElem?_set]
  rcases lt_trichotomy l o.pool.length with h | rfl | h
  · rw [if_pos h, if_neg (show ¬ l = o.pool.length by omega)]
    by_cases hl : l = key
    · subst hl
      simp [h]
    · rw [if_neg hl, if_neg (Ne.symm hl)]
  · rw [if_neg (by omega), if_neg (by omega), if_pos rfl]
    simp
  · rw [if_neg (by omega), if_neg (by omega), if_neg (by omega)]
    simp only [List.getElem?_eq_none (show o.pool.length ≤ l by omega)]
    rw [List.getElem?_eq_none (by simp; omega)]

theorem lookup_cons_eq_ite (q p : Int) (key : Nat) (table : List (Int × Nat)) :
    ((p, key) :: table).lookup q = if q = p then some key else table.lookup q := by
  rw [List.lookup_cons]
  by_cases h : q = p
  · simp [h]
  · rw [if_neg h, beq_eq_false_iff_ne.2 h]

theorem insertIdx_length {α : Type} (L R : List α) (x : α) :
    (L ++ R).insertIdx L.length x = L ++ x :: R := by
  induction L with
  | nil => simp
  | cons y L ih => simpa using ih

theorem enter_append {offset : Int} {A B : List Int} (hA : ∀ x ∈ A, x ≤ offset)
    (hB : ∀ x ∈ B, offset < x) : enter offset (A ++ B) = A ++ offset :: B := by
  have htake : B.takeWhile (fun x => decide (x ≤ offset)) = [] := by
    cases B with
    | nil => rfl
    | cons b B =>
      have := hB b List.mem_cons_self
      simp only [List.takeWhile_cons]
      rw [if_neg (by simp; omega)]
  have hdrop : B.dropWhile (fun x => decide (x ≤ offset)) = B := by
    cases B with
    | nil => rfl
    | cons b B =>
      have := hB b List.mem_cons_self
      simp only [List.dropWhile_cons]
      rw [if_neg (by simp; omega)]
  have hA' : ∀ x ∈ A, decide (x ≤ offset) = true := fun x hx => decide_eq_true (hA x hx)
  rw [enter, List.takeWhile_append_of_pos hA', List.dropWhile_append_of_pos hA', htake, hdrop,
    List.append_nil]

section CutAt

variable {L R : List Nat} {key : Nat} {p : Int}

theorem order_cutAt (ho : o.order = L ++ key :: R) :
    (o.cutAt L.length key p).order = L ++ key :: o.pool.length :: R := by
  have h := insertIdx_length (L ++ [key]) R o.pool.length
  simp only [List.append_assoc, List.cons_append, List.nil_append, List.length_append,
    List.length_cons, List.length_nil] at h
  simp only [cutAt, ho]
  exact h

theorem Consistent.new_not_mem (hc : o.Consistent) : o.pool.length ∉ o.order :=
  fun h => lt_irrefl _ (hc.known _ h)

theorem Consistent.segment_cutAt_of_ne (hc : o.Consistent) {place : Nat} (hk : key ∈ o.order)
    {l : Nat} (hl : l ∈ o.order) (hne : l ≠ key) :
    (o.cutAt place key p).segment l = o.segment l := by
  have := hc.known l hl
  rw [segment_cutAt (hc.known _ hk), if_neg hne, if_neg (by omega)]

theorem Consistent.segment_cutAt_front (hc : o.Consistent) {place : Nat} (hk : key ∈ o.order) :
    (o.cutAt place key p).segment key = (o.segment key).front p := by
  rw [segment_cutAt (hc.known _ hk), if_pos rfl]

theorem Consistent.segment_cutAt_back (hc : o.Consistent) {place : Nat} (hk : key ∈ o.order) :
    (o.cutAt place key p).segment o.pool.length = (o.segment key).back p := by
  have := hc.known key hk
  rw [segment_cutAt this, if_neg (by omega), if_pos rfl]

theorem mem_order_cutAt (ho : o.order = L ++ key :: R) {l : Nat} :
    l ∈ (o.cutAt L.length key p).order ↔ l = o.pool.length ∨ l ∈ o.order := by
  rw [order_cutAt ho, ho]
  simp only [List.mem_append, List.mem_cons]
  tauto

theorem Consistent.base_ne_nil_of_inside (hc : o.Consistent) (hk : key ∈ o.order)
    (h1 : (o.segment key).start < p) (h2 : p < (o.segment key).stop) : o.base ≠ [] := by
  intro hb
  have := hc.bounds_le hk
  simp [hb] at this
  omega

theorem Consistent.ne_of_inside (hc : o.Consistent) (hk : key ∈ o.order)
    (h1 : (o.segment key).start < p) (h2 : p < (o.segment key).stop) {l : Nat}
    (hl : l ∈ o.order) : (o.segment l).start ≠ p ∧ (o.segment l).stop ≠ p := by
  have hb := hc.base_ne_nil_of_inside hk h1 h2
  have := hc.bounds hb hl
  by_cases hne : l = key
  · subst hne
    omega
  · have := hc.ordered hb hl hk hne
    omega

theorem Consistent.starting_cutAt (hc : o.Consistent) (ho : o.order = L ++ key :: R)
    (h1 : (o.segment key).start < p) (h2 : p < (o.segment key).stop) (q : Int) (l : Nat) :
    (o.cutAt L.length key p).startingAt.lookup q = some l ↔
      l ∈ (o.cutAt L.length key p).order ∧ ((o.cutAt L.length key p).segment l).start = q := by
  have hk : key ∈ o.order := by simp [ho]
  have hold : ∀ l ∈ o.order,
      ((o.cutAt L.length key p).segment l).start = (o.segment l).start := by
    intro l hl
    by_cases hne : l = key
    · rw [hne, hc.segment_cutAt_front hk]
      rfl
    · rw [hc.segment_cutAt_of_ne hk hl hne]
  have hnew : ((o.cutAt L.length key p).segment o.pool.length).start = p := by
    rw [hc.segment_cutAt_back hk]
    rfl
  have hlookup : (o.cutAt L.length key p).startingAt.lookup q =
      if q = p then some o.pool.length else o.startingAt.lookup q := by
    exact lookup_cons_eq_ite q p o.pool.length o.startingAt
  rw [hlookup, mem_order_cutAt ho]
  by_cases hq : q = p
  · subst hq
    rw [if_pos rfl]
    constructor
    · intro h
      obtain rfl : o.pool.length = l := Option.some.inj h
      exact ⟨.inl rfl, hnew⟩
    · rintro ⟨rfl | hl, hs⟩
      · rfl
      · rw [hold l hl] at hs
        exact absurd hs (hc.ne_of_inside hk h1 h2 hl).1
  · rw [if_neg hq, hc.starting]
    constructor
    · rintro ⟨hl, hs⟩
      exact ⟨.inr hl, (hold l hl).trans hs⟩
    · rintro ⟨rfl | hl, hs⟩
      · exact absurd (hs.symm.trans hnew) hq
      · exact ⟨hl, (hold l hl).symm.trans hs⟩

theorem Consistent.ending_cutAt (hc : o.Consistent) (ho : o.order = L ++ key :: R)
    (h1 : (o.segment key).start < p) (h2 : p < (o.segment key).stop) (q : Int) (l : Nat) :
    (o.cutAt L.length key p).endingAt.lookup q = some l ↔
      l ∈ (o.cutAt L.length key p).order ∧ ((o.cutAt L.length key p).segment l).stop = q := by
  have hk : key ∈ o.order := by simp [ho]
  have hold : ∀ l ∈ o.order, l ≠ key →
      ((o.cutAt L.length key p).segment l).stop = (o.segment l).stop := by
    intro l hl hne
    rw [hc.segment_cutAt_of_ne hk hl hne]
  have hfront : ((o.cutAt L.length key p).segment key).stop = p := by
    rw [hc.segment_cutAt_front hk]
    rfl
  have hnew : ((o.cutAt L.length key p).segment o.pool.length).stop = (o.segment key).stop := by
    rw [hc.segment_cutAt_back hk]
    rfl
  have hlookup : (o.cutAt L.length key p).endingAt.lookup q =
      if q = (o.segment key).stop then some o.pool.length
      else if q = p then some key else o.endingAt.lookup q := by
    simp only [Overlay.cutAt, lookup_cons_eq_ite]
  have hkey : key ≠ o.pool.length := (hc.known key hk).ne
  rw [hlookup, mem_order_cutAt ho]
  by_cases hq : q = (o.segment key).stop
  · subst hq
    rw [if_pos rfl]
    constructor
    · intro h
      obtain rfl : o.pool.length = l := Option.some.inj h
      exact ⟨.inl rfl, hnew⟩
    · rintro ⟨rfl | hl, hs⟩
      · rfl
      · by_cases hne : l = key
        · subst hne
          omega
        · rw [hold l hl hne] at hs
          exact absurd (hc.eq_of_stop_eq hl hk hs) hne
  · rw [if_neg hq]
    by_cases hq' : q = p
    · subst hq'
      rw [if_pos rfl]
      constructor
      · intro h
        obtain rfl : key = l := Option.some.inj h
        exact ⟨.inr hk, hfront⟩
      · rintro ⟨rfl | hl, hs⟩
        · exact absurd (hs.symm.trans hnew) hq
        · by_cases hne : l = key
          · rw [hne]
          · rw [hold l hl hne] at hs
            exact absurd hs (hc.ne_of_inside hk h1 h2 hl).2
    · rw [if_neg hq', hc.ending]
      constructor
      · rintro ⟨hl, hs⟩
        have hne : l ≠ key := by
          rintro rfl
          exact hq hs.symm
        exact ⟨.inr hl, (hold l hl hne).trans hs⟩
      · rintro ⟨rfl | hl, hs⟩
        · exact absurd (hs.symm.trans hnew) hq
        · by_cases hne : l = key
          · subst hne
            exact absurd (hs.symm.trans hfront) hq'
          · exact ⟨hl, (hold l hl hne).symm.trans hs⟩

theorem Consistent.ne_of_order_eq (hc : o.Consistent) (ho : o.order = L ++ key :: R) {l : Nat}
    (hl : l ∈ L ∨ l ∈ R) : l ≠ key := by
  have hdistinct := hc.distinct
  rw [ho] at hdistinct
  rintro rfl
  rcases hl with hl | hl
  · exact (List.nodup_append.1 hdistinct).2.2 l hl l List.mem_cons_self rfl
  · exact (List.nodup_cons.1 (List.nodup_append.1 hdistinct).2.1).1 hl

theorem Consistent.segments_cutAt (hc : o.Consistent) (ho : o.order = L ++ key :: R) :
    (o.cutAt L.length key p).segments =
      L.map o.segment ++ (o.segment key).front p :: (o.segment key).back p :: R.map o.segment := by
  have hk : key ∈ o.order := by simp [ho]
  have hother : ∀ l ∈ o.order, l ≠ key → (o.cutAt L.length key p).segment l = o.segment l :=
    fun l hl hne => hc.segment_cutAt_of_ne hk hl hne
  rw [segments, order_cutAt ho]
  simp only [List.map_append, List.map_cons, hc.segment_cutAt_front hk, hc.segment_cutAt_back hk]
  congr 1
  · exact List.map_congr_left fun l hl =>
      hother l (by simp [ho, hl]) (hc.ne_of_order_eq ho (.inl hl))
  · congr 2
    exact List.map_congr_left fun l hl =>
      hother l (by simp [ho, hl]) (hc.ne_of_order_eq ho (.inr hl))

theorem Consistent.nodup_cutAt (hc : o.Consistent) (ho : o.order = L ++ key :: R) :
    (o.cutAt L.length key p).order.Nodup := by
  have hnew := hc.new_not_mem
  have hdistinct := hc.distinct
  rw [ho] at hnew hdistinct
  rw [order_cutAt ho]
  have hperm : (L ++ key :: o.pool.length :: R).Perm (o.pool.length :: (L ++ key :: R)) := by
    simpa using @List.perm_middle _ o.pool.length (L ++ [key]) R
  exact hperm.nodup_iff.2 (List.nodup_cons.2 ⟨hnew, hdistinct⟩)

theorem Consistent.starts_cutAt (hc : o.Consistent) (ho : o.order = L ++ key :: R)
    (h1 : (o.segment key).start < p) (h2 : p < (o.segment key).stop) :
    enter p o.starts = (o.cutAt L.length key p).segments.map Segment.start := by
  have hk : key ∈ o.order := by simp [ho]
  have hb := hc.base_ne_nil_of_inside hk h1 h2
  have hpair := hc.pairwise hb
  rw [ho] at hpair
  have henter := @enter_append p ((L ++ [key]).map fun l => (o.segment l).start)
    (R.map fun l => (o.segment l).start) ?_ ?_
  · rw [hc.segments_cutAt ho, hc.starts_eq, segments, ho]
    simpa [Segment.front, Segment.back, Function.comp_def] using henter
  · intro x hx
    obtain ⟨l, hl, rfl⟩ := List.mem_map.1 hx
    rcases List.mem_append.1 hl with hl | hl
    · have h3 := (List.pairwise_append.1 hpair).2.2 l hl key List.mem_cons_self
      have h4 := hc.bounds hb (show l ∈ o.order by simp [ho, hl])
      omega
    · rw [List.mem_singleton.1 hl]
      omega
  · intro x hx
    obtain ⟨l, hl, rfl⟩ := List.mem_map.1 hx
    have h3 := (List.pairwise_cons.1 (List.pairwise_append.1 hpair).2.1).1 l hl
    omega

theorem Consistent.cutAt (hc : o.Consistent) (ho : o.order = L ++ key :: R)
    (h1 : (o.segment key).start < p) (h2 : p < (o.segment key).stop) :
    (o.cutAt L.length key p).Consistent := by
  have hk : key ∈ o.order := by simp [ho]
  have hb := hc.base_ne_nil_of_inside hk h1 h2
  refine ⟨?_, hc.nodup_cutAt ho, ?_, hc.starts_cutAt ho h1 h2, hc.starting_cutAt ho h1 h2,
    hc.ending_cutAt ho h1 h2⟩
  · intro l hl
    have hlen : (o.cutAt L.length key p).pool.length = o.pool.length + 1 := by
      simp [Overlay.cutAt]
    rw [mem_order_cutAt ho] at hl
    rcases hl with rfl | hl
    · omega
    · have := hc.known l hl
      omega
  · rw [hc.segments_cutAt ho, IsPartition,
      if_neg (show (o.cutAt L.length key p).base ≠ [] from hb)]
    have htiles := hc.tiles hb
    rw [segments, ho, List.map_append, List.map_cons] at htiles
    exact htiles.cut le_rfl h1 h2

end CutAt

end Consistent

end Overlay

end RegistryScript
