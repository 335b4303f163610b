import Mathlib
import RegistryScript.Proofs.Overlay.Refusal

/-! # How the segments of an overlay are arranged

The parts of an overlay say the same several times: the segments by where they lie, the offsets
where they start, and the tables of starts and ends. Whatever edits are made, they agree.

* `Overlay.bisect`: the bisection of offsets in ascending order.
* `Overlay.Parts`, `Overlay.bisect_eq_length`: it finds where the offsets up to a given one end.
* `Tiles.isChain`, `Tiles.getLast?`: segments that cover a text lie side by side up to its end.
* `Overlay.Arranged`: the parts of an overlay over a text agree.
* `Overlay.arranged_performAll`: so they do after any edits, accepted or refused.
-/

namespace RegistryScript
set_option autoImplicit false

namespace Overlay

/-! ## Bisection -/

/-- The place behind the offsets that are no larger than a given one, found by halving the places
from `low` to `high`. -/
def bisect (offsets : List Int) (offset : Int) (low high : Nat) : Nat :=
  if low < high then
    if offset < offsets.getD ((low + high) / 2) 0 then bisect offsets offset low ((low + high) / 2)
    else bisect offsets offset ((low + high) / 2 + 1) high
  else low
termination_by high - low

structure Parts (offsets : List Int) (offset : Int) (place : Nat) : Prop where
  inside : place ≤ offsets.length
  front : ∀ i : Nat, i < place → ∀ a, offsets[i]? = some a → a ≤ offset
  back : ∀ i : Nat, place ≤ i → ∀ a, offsets[i]? = some a → offset < a

section Bisection

variable {offsets : List Int} {offset : Int} {place low high : Nat}

theorem Parts.unique {place' : Nat} (h : Parts offsets offset place)
    (h' : Parts offsets offset place') : place = place' := by
  have hle : ∀ {k l : Nat}, Parts offsets offset k → Parts offsets offset l → k ≤ l := by
    intro k l hk hl
    by_contra hlt
    have hinside : l < offsets.length := by
      have := hk.inside
      omega
    have hfront := hk.front l (by omega) _ (List.getElem?_eq_getElem hinside)
    have hback := hl.back l le_rfl _ (List.getElem?_eq_getElem hinside)
    omega
  exact Nat.le_antisymm (hle h h') (hle h' h)

theorem parts_takeWhile (h : offsets.Pairwise (· < ·)) :
    Parts offsets offset (offsets.takeWhile fun a => a ≤ offset).length := by
  induction offsets with
  | nil =>
    refine ⟨le_rfl, fun i hi => absurd hi (Nat.not_lt_zero i), fun i _ a ha => ?_⟩
    cases ha
  | cons b offsets ih =>
    obtain ⟨hb, hrest⟩ := List.pairwise_cons.1 h
    rw [List.takeWhile_cons]
    by_cases hle : b ≤ offset
    · obtain ⟨hinside, hfront, hback⟩ := ih hrest
      rw [if_pos (decide_eq_true hle), List.length_cons]
      refine ⟨Nat.succ_le_succ hinside, fun i hi a ha => ?_, fun i hi a ha => ?_⟩
      · cases i with
        | zero => exact Option.some.inj ha ▸ hle
        | succ i => exact hfront i (Nat.lt_of_succ_lt_succ hi) a ha
      · cases i with
        | zero => exact absurd hi (Nat.not_succ_le_zero _)
        | succ i => exact hback i (Nat.le_of_succ_le_succ hi) a ha
    · rw [if_neg (by rwa [decide_eq_true_eq])]
      refine ⟨Nat.zero_le _, fun i hi => absurd hi (Nat.not_lt_zero i), fun i _ a ha => ?_⟩
      rcases List.mem_cons.1 (List.mem_of_getElem? ha) with rfl | hmem
      · exact lt_of_not_ge hle
      · exact (lt_of_not_ge hle).trans (hb a hmem)

theorem le_of_getElem? (h : offsets.Pairwise (· < ·)) {i j : Nat} {a b : Int} (hij : i ≤ j)
    (ha : offsets[i]? = some a) (hb : offsets[j]? = some b) : a ≤ b := by
  obtain ⟨hi, rfl⟩ := List.getElem?_eq_some_iff.1 ha
  obtain ⟨hj, rfl⟩ := List.getElem?_eq_some_iff.1 hb
  rcases hij.eq_or_lt with rfl | hlt
  · exact le_rfl
  · exact (List.pairwise_iff_getElem.1 h i j hi hj hlt).le

/-- Halving keeps what is known of the places outside, until none is left between them. -/
theorem parts_bisect (h : offsets.Pairwise (· < ·)) (hle : low ≤ high)
    (hinside : high ≤ offsets.length)
    (hfront : ∀ i : Nat, i < low → ∀ a, offsets[i]? = some a → a ≤ offset)
    (hback : ∀ i : Nat, high ≤ i → ∀ a, offsets[i]? = some a → offset < a) :
    Parts offsets offset (bisect offsets offset low high) := by
  fun_induction bisect offsets offset low high with
  | case1 low high hlt hsmall ih =>
    have hmiddle := List.getElem?_eq_getElem (show (low + high) / 2 < offsets.length by omega)
    rw [List.getD_eq_getElem?_getD, hmiddle, Option.getD_some] at hsmall
    refine ih (by omega) (by omega) hfront fun i hi a ha => ?_
    exact hsmall.trans_le (le_of_getElem? h hi hmiddle ha)
  | case2 low high hlt hlarge ih =>
    have hmiddle := List.getElem?_eq_getElem (show (low + high) / 2 < offsets.length by omega)
    rw [List.getD_eq_getElem?_getD, hmiddle, Option.getD_some] at hlarge
    refine ih (by omega) hinside (fun i hi a ha => ?_) hback
    exact (le_of_getElem? h (Nat.le_of_lt_succ hi) ha hmiddle).trans (not_lt.1 hlarge)
  | case3 low high hge =>
    obtain rfl : low = high := Nat.le_antisymm hle (not_lt.1 hge)
    exact ⟨hinside, hfront, hback⟩

theorem bisect_eq_length (h : offsets.Pairwise (· < ·)) :
    bisect offsets offset 0 offsets.length = (offsets.takeWhile fun a => a ≤ offset).length := by
  refine (parts_bisect h (Nat.zero_le _) le_rfl (fun i hi => absurd hi (Nat.not_lt_zero i))
    fun i hi a ha => ?_).unique (parts_takeWhile h)
  rw [List.getElem?_eq_none hi] at ha
  cases ha

end Bisection

/-! ## Segments side by side -/

section Tiles

variable {base : Text} {a : Int} {S : List Segment}

theorem Tiles.isChain (h : Tiles base a S) : S.IsChain fun s t => s.stop = t.start := by
  induction S generalizing a with
  | nil => exact .nil
  | cons s S ih =>
    obtain ⟨-, -, -, hrest⟩ := h
    refine List.isChain_cons.2 ⟨fun t ht => ?_, ih hrest⟩
    obtain ⟨S', rfl⟩ := List.head?_eq_some_iff.1 ht
    exact hrest.1.symm

theorem Tiles.getLast? (h : Tiles base a S) (hne : S ≠ []) :
    S.getLast?.map Segment.stop = some (base.length : Int) := by
  induction S generalizing a with
  | nil => exact absurd rfl hne
  | cons s S ih =>
    obtain ⟨-, -, -, hrest⟩ := h
    cases S with
    | nil => exact congrArg some hrest
    | cons t S => exact ih hrest (List.cons_ne_nil t S)

theorem Tiles.base_eq (h : Tiles base a S) :
    ∀ s ∈ S, s.base = base.cut s.start.toNat s.stop.toNat := by
  induction S generalizing a with
  | nil => exact fun s hs => absurd hs List.not_mem_nil
  | cons s S ih =>
    obtain ⟨hstart, -, hbase, hrest⟩ := h
    intro t ht
    rcases List.mem_cons.1 ht with rfl | ht
    · rw [hbase, hstart]
    · exact ih hrest t ht

end Tiles

/-- The parts of an overlay over a text agree. -/
structure Arranged (o : Overlay) (base : Text) : Prop where
  base_eq : o.base = base
  known : ∀ key ∈ o.order, key < o.pool.length
  distinct : o.order.Nodup
  first : o.segments.head?.map Segment.start = some 0
  adjacent : o.segments.IsChain fun s t => s.stop = t.start
  last : o.segments.getLast?.map Segment.stop = some (base.length : Int)
  slices : ∀ s ∈ o.segments,
    0 ≤ s.start ∧ s.stop ≤ base.length ∧ s.base = base.cut s.start.toNat s.stop.toNat
  /-- A segment is empty only if it is the only one of the empty text. -/
  nonempty : ∀ s ∈ o.segments,
    s.start < s.stop ∨ base = [] ∧ o.segments = [s] ∧ s.start = s.stop
  starts_eq : o.starts = o.segments.map Segment.start
  ascending : o.starts.Pairwise (· < ·)
  locate_eq : ∀ i, o.locate i = bisect o.starts i 0 o.starts.length - 1
  /-- For an offset in the text this finds the segment around it, which is the only one. -/
  located : ∀ i : Int, 0 ≤ i → i < base.length →
    ∃ key, o.order[o.locate i]? = some key ∧ (o.segment key).start ≤ i ∧ i < (o.segment key).stop ∧
      ∀ l ∈ o.order, (o.segment l).start ≤ i → i < (o.segment l).stop → l = key
  /-- The first table leads from the starts, and from nothing else, to the segments there. -/
  starting : ∀ p key,
    o.startingAt.lookup p = some key ↔ key ∈ o.order ∧ (o.segment key).start = p
  /-- The second table leads from the ends, and from nothing else, to the segments there. -/
  ending : ∀ p key,
    o.endingAt.lookup p = some key ↔ key ∈ o.order ∧ (o.segment key).stop = p

section Consistent

variable {o : Overlay}

theorem Consistent.segments_cases (hc : o.Consistent) :
    o.base = [] ∧ o.segments = [{ start := 0, stop := 0, base := [] }] ∨
      o.segments ≠ [] ∧ Tiles o.base 0 o.segments := by
  by_cases hb : o.base = []
  · have hp := hc.partition
    rw [IsPartition, if_pos hb] at hp
    exact .inl ⟨hb, hp⟩
  · have htiles := hc.tiles hb
    refine .inr ⟨fun hnil => hb ?_, htiles⟩
    rw [hnil] at htiles
    have hlength : (0 : Int) = o.base.length := htiles
    exact List.length_eq_zero_iff.1 (by omega)

theorem Consistent.ascending (hc : o.Consistent) : o.starts.Pairwise (· < ·) := by
  rw [hc.starts_eq]
  rcases hc.segments_cases with ⟨-, hone⟩ | ⟨-, htiles⟩
  · rw [hone]
    exact List.pairwise_singleton _ _
  · refine List.pairwise_map.2 (htiles.pairwise.imp_of_mem fun {s t} hs _ hle => ?_)
    exact (htiles.bounds s hs).2.1.trans_le hle

theorem Consistent.arranged (hc : o.Consistent) : o.Arranged o.base where
  base_eq := rfl
  known := hc.known
  distinct := hc.distinct
  first := by
    rcases hc.segments_cases with ⟨-, hone⟩ | ⟨hne, htiles⟩
    · rw [hone]
      rfl
    · obtain ⟨s, S, hS⟩ := List.exists_cons_of_ne_nil hne
      rw [hS] at htiles ⊢
      exact congrArg some htiles.1
  adjacent := by
    rcases hc.segments_cases with ⟨-, hone⟩ | ⟨-, htiles⟩
    · rw [hone]
      exact .singleton _
    · exact htiles.isChain
  last := by
    rcases hc.segments_cases with ⟨hb, hone⟩ | ⟨hne, htiles⟩
    · rw [hone, hb]
      rfl
    · exact htiles.getLast? hne
  slices s hs := by
    rcases hc.segments_cases with ⟨hb, hone⟩ | ⟨-, htiles⟩
    · rw [hone, List.mem_singleton] at hs
      rw [hs, hb]
      exact ⟨le_rfl, le_rfl, rfl⟩
    · have hbounds := htiles.bounds s hs
      exact ⟨hbounds.1, hbounds.2.2, htiles.base_eq s hs⟩
  nonempty s hs := by
    rcases hc.segments_cases with ⟨hb, hone⟩ | ⟨-, htiles⟩
    · rw [hone, List.mem_singleton] at hs
      exact .inr ⟨hb, hs ▸ hone, hs ▸ rfl⟩
    · exact .inl (htiles.bounds s hs).2.1
  starts_eq := hc.starts_eq
  ascending := hc.ascending
  locate_eq i := by rw [bisect_eq_length hc.ascending, Overlay.locate]
  located i h0 hi := by
    obtain ⟨L, key, R, ho, hL, h1, h2⟩ := hc.locate h0 hi
    have hk : key ∈ o.order := by simp [ho]
    refine ⟨key, ?_, h1, h2, fun l hl h3 h4 => hc.eq_of_around hl hk h3 h4 h1 h2⟩
    rw [← hL, ho, List.getElem?_append_right le_rfl, Nat.sub_self, List.getElem?_cons_zero]
  starting := hc.starting
  ending := hc.ending

end Consistent

/-- Whatever edits are made on a text, accepted or refused, the parts of the overlay agree
afterwards: the segments lie side by side, cover the text and none is empty unless the text is; the
bisection of the starts finds the one segment around an offset; and the tables lead from the starts
and ends of the segments to them. Reading a part of the text keeps it so. -/
theorem arranged_performAll (base : Text) (es : List Edit) :
    ((ofText base).performAll es).Arranged base ∧
      ∀ start stop, (outcome (slice start stop) ((ofText base).performAll es)).2 =
        (ofText base).performAll es := by
  have htakes := takes_performAll base es
  have harranged := (htakes.consistent (consistent_ofText base)).arranged
  rw [htakes.base_eq] at harranged
  exact ⟨harranged, outcome_slice _⟩

example : ((ofText "abcdef").performAll [.replace 1 2 "X", .insertBefore 4 "!"]).segments.map span =
    ([(0, 1, "a"), (1, 2, "b"), (2, 4, "cd"), (4, 6, "ef")] : List (Int × Int × Text)) := by
  decide

end Overlay

end RegistryScript
