import Mathlib
import RegistryScript.Proofs.Overlay.Representation
import RegistryScript.Proofs.Run

/-! # What an overlay shows at each offset

* `View`: the texts inserted before and after each offset of a base text, the text in place of the
  range that starts there, and whether its code point is covered by an edit. It forgets how the
  base text is cut into segments.
* `View.print`: the text of a view, one offset after the other.
* `Overlay.serialize_eq_print`: an overlay prints what its view prints.
* `Overlay.outcome_split`: making an offset a boundary changes nothing in the view.
-/

namespace RegistryScript
set_option autoImplicit false

/-- The edits of a text as they show at each offset. -/
@[ext] structure View where
  base : Text
  prologue : List Text
  epilogue : List Text
  /-- Texts that cling to the code point at an offset. -/
  before : Int → List Text
  /-- Texts that cling to the code point that ends at an offset. -/
  after : Int → List Text
  /-- The text that stands for the range that starts at an offset. -/
  inPlace : Int → Text
  covered : Int → Bool

namespace View

def remainder (v : View) (p : Nat) : Text := if v.covered p then [] else v.base[p]?.toList

def printAt (v : View) (p : Nat) : Text :=
  (v.after p).flatten ++ (v.before p).flatten ++ v.inPlace p ++ v.remainder p

def print (v : View) : Text :=
  v.prologue.flatten ++ (List.range (v.base.length + 1)).flatMap v.printAt ++ v.epilogue.flatten

end View

namespace Overlay

def textsBefore (o : Overlay) (p : Int) : List Text :=
  if p = o.base.length then o.tail
  else
    match o.startingAt.lookup p with
    | some key => (o.segment key).left
    | none => []

def textsAfter (o : Overlay) (p : Int) : List Text :=
  if p = 0 then o.head
  else
    match o.endingAt.lookup p with
    | some key => (o.segment key).right
    | none => []

def textInPlace (o : Overlay) (p : Int) : Text :=
  match o.startingAt.lookup p with
  | some key => (o.segment key).replacement.getD []
  | none => []

def isCovered (o : Overlay) (p : Int) : Bool :=
  o.segments.any fun s => s.isEdited && decide (s.start ≤ p ∧ p < s.stop)

def view (o : Overlay) : View where
  base := o.base
  prologue := o.prologue
  epilogue := o.epilogue
  before := o.textsBefore
  after := o.textsAfter
  inPlace := o.textInPlace
  covered := o.isCovered

theorem isCovered_iff {o : Overlay} {p : Int} :
    o.isCovered p = true ↔ ∃ key ∈ o.order, (o.segment key).isEdited = true ∧
      (o.segment key).start ≤ p ∧ p < (o.segment key).stop := by
  simp [isCovered, segments, List.any_map, List.any_eq_true]

theorem isCovered_eq_false_iff {o : Overlay} {p : Int} :
    o.isCovered p = false ↔ ∀ key ∈ o.order, (o.segment key).start ≤ p →
      p < (o.segment key).stop → (o.segment key).isEdited = false := by
  rw [← Bool.not_eq_true, isCovered_iff]
  constructor
  · intro h key hk h1 h2
    rw [← Bool.not_eq_true]
    exact fun he => h ⟨key, hk, he, h1, h2⟩
  · rintro h ⟨key, hk, he, h1, h2⟩
    rw [h key hk h1 h2] at he
    exact Bool.false_ne_true he

/-! ## Printing -/

section Print

variable {α : Type}

theorem flatMap_range'_first (a k : Nat) (X : List α) (f : Nat → List α) :
    (List.range' a (k + 1)).flatMap (fun p => (if p = a then X else []) ++ f p) =
      X ++ (List.range' a (k + 1)).flatMap f := by
  rw [List.range'_succ, List.flatMap_cons, List.flatMap_cons, if_pos rfl, List.append_assoc]
  congr 2
  refine List.flatMap_congr fun p hp => ?_
  have := (List.mem_range'_1.1 hp).1
  rw [if_neg (by omega), List.nil_append]

theorem flatMap_range'_last (a k : Nat) (Y : List α) (f : Nat → List α) :
    (List.range' a (k + 1)).flatMap (fun p => f p ++ if p + 1 = a + (k + 1) then Y else []) =
      (List.range' a (k + 1)).flatMap f ++ Y := by
  rw [List.range'_concat, List.flatMap_append, List.flatMap_append, List.append_assoc]
  congr 1
  · refine List.flatMap_congr fun p hp => ?_
    have := (List.mem_range'_1.1 hp).2
    rw [if_neg (by omega), List.append_nil]
  · simp [Nat.add_assoc]

theorem flatMap_range'_getElem? (t : List α) (a k : Nat) :
    (List.range' a k).flatMap (fun p => t[p]?.toList) = (t.take (a + k)).drop a := by
  induction k with
  | zero => simp
  | succ k ih =>
    rw [List.range'_concat, List.flatMap_append, ih, ← Nat.add_assoc, List.take_add_one,
      List.drop_append]
    simp only [Nat.one_mul, List.flatMap_cons, List.flatMap_nil, List.append_nil]
    congr 1
    by_cases h : a + k < t.length
    · rw [List.length_take, show a - min (a + k) t.length = 0 by omega, List.drop_zero]
    · rw [List.getElem?_eq_none (by omega)]
      simp

/-- What stands in front of each place is printed behind the place before it. -/
theorem flatMap_range_shift (A B : Nat → List α) (n : Nat) :
    (List.range (n + 1)).flatMap (fun p => A p ++ B p) =
      A 0 ++ (List.range n).flatMap (fun p => B p ++ A (p + 1)) ++ B n := by
  induction n with
  | zero => simp
  | succ n ih =>
    rw [List.range_succ, List.flatMap_append, ih, List.range_succ, List.flatMap_append]
    simp

end Print

/-- A view shows what is attached to a segment. -/
structure Agrees (v : View) (s : Segment) : Prop where
  before_start : v.before s.start = s.left
  after_stop : v.after s.stop = s.right
  inPlace_start : v.inPlace s.start = s.replacement.getD []
  inside : ∀ p, s.start < p → p < s.stop → v.before p = [] ∧ v.after p = [] ∧ v.inPlace p = []
  covered : ∀ p, s.start ≤ p → p < s.stop → v.covered p = s.isEdited

/-- What is printed at an offset and after the code point there. -/
def printFrom (v : View) (p : Nat) : Text :=
  (v.before p).flatten ++ v.inPlace p ++ v.remainder p ++ (v.after (p + 1 : Nat)).flatten

theorem Agrees.content {v : View} {s : Segment} (h : Agrees v s) {a k : Nat} (ha : s.start = a)
    (hb : s.stop = (a + (k + 1) : Nat)) (hbase : s.base = v.base.cut a (a + (k + 1))) :
    (List.range' a (k + 1)).flatMap (printFrom v) = s.content := by
  have hcell : ∀ p ∈ List.range' a (k + 1), printFrom v p =
      ((if p = a then s.left.flatten else []) ++
        ((if p = a then s.replacement.getD [] else []) ++ v.remainder p)) ++
        if p + 1 = a + (k + 1) then s.right.flatten else [] := by
    intro p hp
    have hp1 := (List.mem_range'_1.1 hp).1
    have hp2 := (List.mem_range'_1.1 hp).2
    have hleft : (v.before p).flatten = if p = a then s.left.flatten else [] := by
      split
      · next hpa => rw [hpa, ← ha, h.before_start]
      · next hpa =>
        rw [(h.inside p (by omega) (by omega)).1]
        rfl
    have hplace : v.inPlace p = if p = a then s.replacement.getD [] else [] := by
      split
      · next hpa => rw [hpa, ← ha, h.inPlace_start]
      · next hpa => exact (h.inside p (by omega) (by omega)).2.2
    have hright : (v.after (p + 1 : Nat)).flatten =
        if p + 1 = a + (k + 1) then s.right.flatten else [] := by
      split
      · next hpa => rw [hpa, ← hb, h.after_stop]
      · next hpa =>
        rw [(h.inside (p + 1 : Nat) (by omega) (by omega)).2.1]
        rfl
    rw [printFrom, hleft, hplace, hright]
    simp only [List.append_assoc]
  rw [List.flatMap_congr hcell, flatMap_range'_last, flatMap_range'_first, flatMap_range'_first,
    Segment.content, Segment.body]
  congr 2
  cases hr : s.replacement with
  | some t =>
    have hnil : ∀ p ∈ List.range' a (k + 1), v.remainder p = [] := by
      intro p hp
      have hp1 := (List.mem_range'_1.1 hp).1
      have hp2 := (List.mem_range'_1.1 hp).2
      rw [View.remainder, h.covered p (by omega) (by omega), Segment.isEdited, hr]
      rfl
    rw [List.flatMap_congr hnil]
    simp
  | none =>
    have hrest : ∀ p ∈ List.range' a (k + 1), v.remainder p = v.base[p]?.toList := by
      intro p hp
      have hp1 := (List.mem_range'_1.1 hp).1
      have hp2 := (List.mem_range'_1.1 hp).2
      rw [View.remainder, h.covered p (by omega) (by omega), Segment.isEdited, hr]
      rfl
    rw [List.flatMap_congr hrest, flatMap_range'_getElem?]
    simpa [Text.cut] using hbase.symm

theorem Tiles.flatMap_content {v : View} {a : Int} {S : List Segment} (h : Tiles v.base a S)
    (h0 : 0 ≤ a) (hv : ∀ s ∈ S, Agrees v s) :
    S.flatMap Segment.content =
      (List.range' a.toNat (v.base.length - a.toNat)).flatMap (printFrom v) := by
  induction S generalizing a with
  | nil =>
    have ha : a = v.base.length := h
    simp [ha]
  | cons s S ih =>
    obtain ⟨ha, hlt, hbase, hS⟩ := h
    have hle := hS.le_length
    have hlen : v.base.length - a.toNat =
        ((s.stop.toNat - a.toNat - 1) + 1) + (v.base.length - s.stop.toNat) := by omega
    have hstop : a.toNat + (s.stop.toNat - a.toNat - 1 + 1) = s.stop.toNat := by omega
    have hsplit := @List.range'_append_1 a.toNat (s.stop.toNat - a.toNat - 1 + 1)
      (v.base.length - s.stop.toNat)
    rw [hlen, ← hsplit, List.flatMap_append, hstop, List.flatMap_cons,
      ih hS (by omega) fun t ht => hv t (List.mem_cons_of_mem _ ht)]
    congr 1
    refine ((hv s List.mem_cons_self).content (by omega) (by omega) ?_).symm
    rw [hbase, hstop]

section Consistent

variable {o : Overlay}

theorem Consistent.agrees (hc : o.Consistent) (hb : o.base ≠ []) {key : Nat}
    (hk : key ∈ o.order) : Agrees o.view (o.segment key) := by
  have hbounds := hc.bounds hb hk
  have hstart := (hc.starting (o.segment key).start key).2 ⟨hk, rfl⟩
  have hstop := (hc.ending (o.segment key).stop key).2 ⟨hk, rfl⟩
  refine ⟨?_, ?_, ?_, ?_, ?_⟩
  · change o.textsBefore _ = _
    rw [textsBefore, if_neg (by omega), hstart]
  · change o.textsAfter _ = _
    rw [textsAfter, if_neg (by omega), hstop]
  · change o.textInPlace _ = _
    rw [textInPlace, hstart]
  · intro p h1 h2
    have hnone : o.startingAt.lookup p = none := by
      rw [Option.eq_none_iff_forall_ne_some]
      intro l hl
      obtain ⟨hl, h⟩ := (hc.starting p l).1 hl
      exact (hc.ne_of_inside hk h1 h2 hl).1 h
    have hnone' : o.endingAt.lookup p = none := by
      rw [Option.eq_none_iff_forall_ne_some]
      intro l hl
      obtain ⟨hl, h⟩ := (hc.ending p l).1 hl
      exact (hc.ne_of_inside hk h1 h2 hl).2 h
    refine ⟨?_, ?_, ?_⟩
    · change o.textsBefore _ = _
      rw [textsBefore, if_neg (by omega), hnone]
    · change o.textsAfter _ = _
      rw [textsAfter, if_neg (by omega), hnone']
    · change o.textInPlace _ = _
      rw [textInPlace, hnone]
  · intro p h1 h2
    change o.isCovered p = _
    cases he : (o.segment key).isEdited with
    | true => exact isCovered_iff.2 ⟨key, hk, he, h1, h2⟩
    | false =>
      refine isCovered_eq_false_iff.2 fun l hl h3 h4 => ?_
      rw [hc.eq_of_around hl hk h3 h4 h1 h2, he]

theorem Consistent.textInPlace_length (hc : o.Consistent) :
    o.textInPlace o.base.length = [] := by
  rw [textInPlace]
  cases hl : o.startingAt.lookup (o.base.length : Int) with
  | none => rfl
  | some key =>
    obtain ⟨hk, hs⟩ := (hc.starting _ key).1 hl
    by_cases hb : o.base = []
    · simp [hc.segment_of_base_eq_nil hb hk]
    · have := hc.bounds hb hk
      omega

theorem Consistent.serialize_eq_print (hc : o.Consistent) : o.serialize = o.view.print := by
  have hprint : o.view.print = o.prologue.flatten ++
      ((o.view.after 0).flatten ++ (List.range o.base.length).flatMap (printFrom o.view) ++
        ((o.view.before o.base.length).flatten ++ o.view.inPlace o.base.length ++
          o.view.remainder o.base.length)) ++ o.epilogue.flatten := by
    have h := flatMap_range_shift (fun p : Nat => (o.view.after p).flatten)
      (fun p : Nat => (o.view.before p).flatten ++ o.view.inPlace p ++ o.view.remainder p)
      o.base.length
    have hprintAt : o.view.printAt = fun p : Nat => (o.view.after p).flatten ++
        ((o.view.before p).flatten ++ o.view.inPlace p ++ o.view.remainder p) := by
      funext p
      simp only [View.printAt, List.append_assoc]
    rw [View.print, hprintAt]
    exact congrArg (fun x => o.prologue.flatten ++ x ++ o.epilogue.flatten) h
  have hafter : o.view.after 0 = o.head := by
    change o.textsAfter 0 = _
    rw [textsAfter, if_pos rfl]
  have hbefore : o.view.before o.base.length = o.tail := by
    change o.textsBefore _ = _
    rw [textsBefore, if_pos rfl]
  have hrest : o.view.remainder o.base.length = [] := by
    have hnone : o.view.base[o.base.length]? = none := List.getElem?_eq_none le_rfl
    rw [View.remainder, hnone]
    split <;> rfl
  have hplace : o.view.inPlace o.base.length = [] := hc.textInPlace_length
  have hsegments : o.segments.flatMap Segment.content =
      (List.range o.base.length).flatMap (printFrom o.view) := by
    by_cases hb : o.base = []
    · have hp := hc.partition
      rw [IsPartition, if_pos hb] at hp
      rw [hp, hb]
      rfl
    · have h := @Tiles.flatMap_content o.view 0 o.segments (hc.tiles hb) le_rfl fun s hs => by
        obtain ⟨key, hk, rfl⟩ := List.mem_map.1 hs
        exact hc.agrees hb hk
      rw [h, List.range_eq_range']
      rfl
  rw [hprint, hafter, hbefore, hrest, hplace, serialize, hsegments]
  simp only [List.append_assoc, List.append_nil]

end Consistent

end Overlay

end RegistryScript
