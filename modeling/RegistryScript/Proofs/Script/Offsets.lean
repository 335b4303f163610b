import Mathlib
import RegistryScript.Proofs.Script.Span
import RegistryScript.Proofs.Transform

/-! # Offsets in bytes and in code points

A tree is given in bytes, a text in code points. The table of a text leads from the one to the other;
a text of the seven-bit range does without, since its table would lead from each number to itself.

* `Text.Charts`: what a table says of a text: to which code point each byte belongs.
* `Text.charts_utf8Index`, `Text.utf8Index_of_isAscii`: the table of a text says this of it, and is
  the identity if and only if the text is of the seven-bit range.
* `Script.IsCharted`: a script that has the table of its text, or none where none is needed.
* `Node.Covers`: a node that covers the encoding of a part of a text.
* `Script.offsets_agree`: with and without a table, such a node starts and ends where the part does,
  and has its text.
-/

namespace RegistryScript
set_option autoImplicit false

/-! ## The table of a text -/

namespace Text

variable {t : Text} {first : Nat}

theorem length_le_utf8Size (t : Text) : t.length ≤ t.utf8Size := by
  induction t with
  | nil => exact Nat.le_refl 0
  | cons c t ih =>
    have hpos := utf8Size_pos c
    rw [List.length_cons, utf8Size]
    omega

theorem isAscii_iff_utf8Size : t.isAscii = true ↔ t.utf8Size = t.length := by
  refine ⟨utf8Size_of_isAscii, fun h => ?_⟩
  induction t with
  | nil => rfl
  | cons c t ih =>
    have hpos := utf8Size_pos c
    have hle := length_le_utf8Size t
    rw [utf8Size, List.length_cons] at h
    have hc : c.isAscii = true := by
      rw [CodePoint.isAscii, decide_eq_true_eq]
      by_contra hlarge
      rw [CodePoint.utf8Size, if_neg hlarge] at h
      split_ifs at h <;> omega
    rw [isAscii, List.all_cons, hc, Bool.true_and]
    exact ih (by omega)

theorem length_utf8IndexFrom : (utf8IndexFrom first t).length = t.utf8Size + 1 := by
  induction t generalizing first with
  | nil => rfl
  | cons c t ih => rw [utf8IndexFrom, List.length_append, List.length_replicate, ih, utf8Size,
      Nat.add_assoc]

theorem le_of_mem_utf8IndexFrom {k : Nat} (h : k ∈ utf8IndexFrom first t) : first ≤ k := by
  induction t generalizing first with
  | nil => rw [List.mem_singleton.1 h]
  | cons c t ih =>
    rcases List.mem_append.1 h with h | h
    · rw [(List.mem_replicate.1 h).2]
    · exact Nat.le_of_succ_le (ih h)

theorem pairwise_utf8IndexFrom : (utf8IndexFrom first t).Pairwise (· ≤ ·) := by
  induction t generalizing first with
  | nil => exact List.pairwise_singleton _ _
  | cons c t ih =>
    refine List.pairwise_append.2 ⟨List.pairwise_replicate.2 (.inr (Nat.le_refl first)), ih, ?_⟩
    intro k hk l hl
    rw [(List.mem_replicate.1 hk).2]
    exact Nat.le_of_succ_le (le_of_mem_utf8IndexFrom hl)

theorem utf8IndexFrom_getElem?_of_inside {k b : Nat} (hk : k < t.length)
    (hstart : utf8Size (t.take k) ≤ b) (hstop : b < utf8Size (t.take (k + 1))) :
    (utf8IndexFrom first t)[b]? = some (first + k) := by
  induction t generalizing k b first with
  | nil => exact absurd hk (Nat.not_lt_zero k)
  | cons c t ih =>
    rw [List.take_succ_cons, utf8Size] at hstop
    rw [utf8IndexFrom]
    cases k with
    | zero =>
      have hb : b < c.utf8Size := by simpa [utf8Size] using hstop
      rw [List.getElem?_append_left (by simpa using hb), List.getElem?_replicate_of_lt hb,
        Nat.add_zero]
    | succ k =>
      rw [List.take_succ_cons, utf8Size] at hstart
      have hlength : k < t.length := by simpa using hk
      have hrest := @ih (first + 1) k (b - c.utf8Size) hlength (by omega) (by omega)
      rw [List.getElem?_append_right (by rw [List.length_replicate]; omega), List.length_replicate,
        hrest]
      congr 1
      omega

theorem utf8IndexFrom_of_isAscii (h : t.isAscii = true) :
    utf8IndexFrom first t = List.range' first (t.length + 1) := by
  induction t generalizing first with
  | nil => rfl
  | cons c t ih =>
    rw [isAscii, List.all_cons, Bool.and_eq_true] at h
    have hc : c.utf8Size = 1 := by
      rw [CodePoint.utf8Size, if_pos (of_decide_eq_true h.1)]
    rw [utf8IndexFrom, hc, ih h.2, List.length_cons, List.range'_succ]
    rfl

/-- What a table says of a text, byte by byte: the index of the code point that a byte belongs to,
and at the end the number of code points. -/
structure Charts (t : Text) (table : List Nat) : Prop where
  length : table.length = t.utf8.length + 1
  ordered : table.Pairwise (· ≤ ·)
  /-- The number of bytes in front of a code point, or of all, leads to the number of code points. -/
  boundary : ∀ i ≤ t.length, table[(utf8 (t.take i)).length]? = some i
  /-- A byte inside a code point leads to its index. -/
  interior : ∀ i < t.length, ∀ b, (utf8 (t.take i)).length < b →
    b < (utf8 (t.take (i + 1))).length → table[b]? = some i

theorem charts_utf8Index (t : Text) : t.Charts t.utf8Index where
  length := by rw [utf8Index, length_utf8IndexFrom, length_utf8]
  ordered := pairwise_utf8IndexFrom
  boundary i hi := by rw [length_utf8, utf8Index, utf8IndexFrom_getElem? t i 0 hi, Nat.zero_add]
  interior i hi b hstart hstop := by
    rw [length_utf8] at hstart hstop
    rw [utf8Index, utf8IndexFrom_getElem?_of_inside hi hstart.le hstop, Nat.zero_add]

theorem utf8Index_of_isAscii (h : t.isAscii = true) : t.utf8Index = List.range (t.length + 1) := by
  rw [utf8Index, utf8IndexFrom_of_isAscii h, List.range_eq_range']

theorem utf8_append (t u : Text) : utf8 (t ++ u) = t.utf8 ++ u.utf8 := List.flatMap_append

theorem cut_append_take {i j : Nat} (hij : i ≤ j) : t.take i ++ t.cut i j = t.take j := by
  have hsplit := List.take_append_drop i (t.take j)
  rwa [List.take_take, Nat.min_eq_left hij] at hsplit

end Text

/-! ## Nodes -/

/-- A node covers the encoding of the part of a text between two offsets. -/
structure Node.Covers (t : Text) (i j : Nat) (n : Node) : Prop where
  inside : i ≤ j ∧ j ≤ t.length
  start : n.start = (Text.utf8 (t.take i)).length
  stop : n.stop = n.start + (t.cut i j).utf8.length

namespace Node.Covers

variable {t : Text} {i j : Nat} {n : Node}

theorem stop_eq (h : n.Covers t i j) : n.stop = (Text.utf8 (t.take j)).length := by
  rw [h.stop, h.start, ← List.length_append, ← Text.utf8_append, Text.cut_append_take h.inside.1]

theorem bytes (h : n.Covers t i j) : (t.utf8.take n.stop).drop n.start = (t.cut i j).utf8 := by
  have hwhole : t.utf8 = Text.utf8 (t.take j) ++ Text.utf8 (t.drop j) := by
    rw [← Text.utf8_append, List.take_append_drop]
  rw [h.stop_eq, hwhole, List.take_left, ← Text.cut_append_take h.inside.1, Text.utf8_append,
    h.start, List.drop_left]

end Node.Covers

namespace Script

variable {s : Script}

/-- A script that has the table of its text; where bytes and code points are counted alike it may do
without. -/
def IsCharted (s : Script) : Prop :=
  s.offsets = some s.text.utf8Index.toArray ∨ s.offsets = none ∧ s.text.isAscii = true

theorem isCharted_ofTree (t : Text) (root : Node) : (ofTree t root).IsCharted := by
  by_cases h : t.isAscii = true
  · exact .inr ⟨if_pos h, h⟩
  · exact .inl (if_neg h)

theorem offsets_ofTree_eq_none_iff {t : Text} {root : Node} :
    (ofTree t root).offsets = none ↔ t.isAscii = true := by
  by_cases h : t.isAscii = true
  · simp [ofTree, h]
  · simp [ofTree, h]

theorem IsCharted.offsetOf (h : s.IsCharted) {i : Nat} (hi : i ≤ s.text.length) :
    s.offsetOf (Text.utf8 (s.text.take i)).length = .ok i := by
  rcases h with h | ⟨h, hascii⟩
  · rw [Script.offsetOf, h]
    simp only [List.getElem?_toArray, s.text.charts_utf8Index.boundary i hi]
  · have hfront : Text.isAscii (s.text.take i) = true :=
      List.all_eq_true.2 fun c hc => List.all_eq_true.1 hascii c (List.mem_of_mem_take hc)
    rw [Script.offsetOf, h, Text.length_utf8, Text.utf8Size_of_isAscii hfront, List.length_take,
      Nat.min_eq_left hi]

theorem IsCharted.place (h : s.IsCharted) {n : Node} {i j : Nat} (hn : n.Covers s.text i j) :
    s.startOf n = .ok i ∧ s.stopOf n = .ok j ∧ s.textOf n = .ok (s.text.cut i j) := by
  have hstart : s.startOf n = .ok i := by
    rw [startOf, hn.start]
    exact h.offsetOf (hn.inside.1.trans hn.inside.2)
  have hstop : s.stopOf n = .ok j := by
    rw [stopOf, hn.stop_eq]
    exact h.offsetOf hn.inside.2
  refine ⟨hstart, hstop, ?_⟩
  rw [textOf, hstart, hstop]
  rfl

theorem eq_ofTree_of_readScript {read : Reader} {id t : Text} (h : readScript read id t = .ok s) :
    s = ofTree t s.root := by
  cases hread : read t with
  | none =>
    rw [readScript, hread] at h
    cases h
  | some root =>
    rcases @readScript_cases read t id root hread with hok | ⟨e, herror, -⟩
    · obtain rfl := Except.ok.inj (h.symm.trans hok)
      rfl
    · cases h.symm.trans herror

end Script

/-- The table of a text leads from bytes to code points: from each boundary to the number of code
points in front of it, from the inside of a code point to its index. A script that is read from a
text has this table unless the text is of the seven-bit range, which is when bytes and code points
are counted alike and the table leads from each number to itself. With the table, and without it
where there need be none, a node that covers a part of the text starts and ends where the part does,
and has its text. -/
theorem Script.offsets_agree (t : Text) :
    t.Charts t.utf8Index ∧
    (t.isAscii = true ↔ t.utf8.length = t.length) ∧
    (t.isAscii = true → t.utf8Index = List.range (t.length + 1)) ∧
    (∀ read id s, readScript read id t = .ok s →
      s.text = t ∧ s.IsCharted ∧ (s.offsets = none ↔ t.isAscii = true)) ∧
    ∀ s : Script, s.text = t → s.IsCharted → ∀ n i j, Node.Covers t i j n →
      (t.utf8.take n.stop).drop n.start = (t.cut i j).utf8 ∧
      s.startOf n = .ok i ∧ s.stopOf n = .ok j ∧ s.textOf n = .ok (t.cut i j) := by
  refine ⟨t.charts_utf8Index, ?_, Text.utf8Index_of_isAscii, fun read id s h => ?_, ?_⟩
  · rw [Text.length_utf8]
    exact Text.isAscii_iff_utf8Size
  · rw [eq_ofTree_of_readScript h]
    exact ⟨rfl, isCharted_ofTree t s.root, offsets_ofTree_eq_none_iff⟩
  · rintro s rfl hcharted n i j hn
    exact ⟨hn.bytes, hcharted.place hn⟩

theorem Script.offsets_agree_mixedSizes :
    let mixed : Text := ['a', 0xE9, 0x20AC, 0xD800, 0x1F600, 'b']
    let ascii : Text := "ab"
    let n : Node := { kind := .string, start := 1, stop := 9 }
    let m : Node := { kind := .string, start := 1, stop := 2 }
    let s := Script.ofTree mixed n
    let u := Script.ofTree ascii m
    (readScript (fun _ => some n) "m" mixed = .ok s ∧ n.Covers mixed 1 4 ∧
      s.offsets = some #[0, 1, 1, 2, 2, 2, 3, 3, 3, 4, 4, 4, 4, 5, 6] ∧
      s.IsCharted ∧ (s.offsets = none ↔ mixed.isAscii = true) ∧
      s.startOf n = .ok 1 ∧ s.stopOf n = .ok 4 ∧ s.textOf n = .ok [0xE9, 0x20AC, 0xD800]) ∧
    ascii.isAscii = true ∧ u.offsets = none ∧ ascii.utf8Index = [0, 1, 2] ∧ m.Covers ascii 1 2 ∧
      u.startOf m = .ok 1 ∧ u.stopOf m = .ok 2 ∧ u.textOf m = .ok ['b'] := by
  intro mixed ascii n m s u
  have hread : readScript (fun _ => some n) "m" mixed = .ok s := readScript_eq_ok rfl rfl
  have hn : n.Covers mixed 1 4 := ⟨by decide, by decide, by decide⟩
  have hm : m.Covers ascii 1 2 := ⟨by decide, by decide, by decide⟩
  obtain ⟨-, -, -, hcharted, hplace⟩ := Script.offsets_agree mixed
  obtain ⟨-, hs, hnone⟩ := hcharted _ _ s hread
  obtain ⟨-, -, hidentity, -, hplace'⟩ := Script.offsets_agree ascii
  exact ⟨⟨hread, hn, by decide, hs, hnone, (hplace s rfl hs n 1 4 hn).2⟩, by decide, by decide,
    hidentity (by decide), hm, (hplace' u rfl (Script.isCharted_ofTree ascii m) m 1 2 hm).2⟩

end RegistryScript
