import Mathlib
import RegistryScript.Script.Diagnostic

/-! # Lines and columns

An offset is told by its line and its column: by the line feeds in front of it and by how far it is
from where its line starts.

* `Text.lineStart?`: where a line starts.
* `Position.Marks`: a position is that of an offset.
* `Position.Precedes`, `Position.noLater_iff`: the order of positions, by lines and then by columns.
* `Text.position_marks`: the position of an offset is made up of the line in front of it.
* `Text.position_identifies`: different offsets have different positions in the same order, and the
  offset is recovered from its position.
-/

namespace RegistryScript
set_option autoImplicit false

/-! ## Lines -/

namespace Text

variable {t front rest : Text}

/-- Where the line starts that has the given number of lines in front of it. The first line starts
with the text, and each other one behind a line feed. -/
def lineStart? : Nat → Text → Option Nat
  | 0, _ => some 0
  | _ + 1, [] => none
  | k + 1, c :: t => (lineStart? (if c = '\n' then k else k + 1) t).map (· + 1)

def EndsLines (t : Text) : Prop := t = [] ∨ ∃ u : Text, t = u ++ [('\n' : CodePoint)]

theorem lineStart?_append_lineFeed (u rest : Text) :
    lineStart? (u.count ('\n' : CodePoint) + 1) (u ++ ('\n' : CodePoint) :: rest) =
      some (u.length + 1) := by
  induction u with
  | nil => simp [lineStart?]
  | cons c u ih =>
    by_cases hc : c = '\n'
    · simp [lineStart?, hc, ih]
    · simp [lineStart?, hc, ih]

theorem EndsLines.lineStart? (h : front.EndsLines) (rest : Text) :
    lineStart? (front.count ('\n' : CodePoint)) (front ++ rest) = some front.length := by
  rcases h with rfl | ⟨u, rfl⟩
  · rw [List.count_nil, Text.lineStart?]
    rfl
  · have hstart := lineStart?_append_lineFeed u rest
    simpa [List.count_append] using hstart

theorem exists_endsLines_append (t : Text) :
    ∃ front last : Text, t = front ++ last ∧ front.EndsLines ∧ ('\n' : CodePoint) ∉ last ∧
      last.length = (t.reverse.takeWhile fun c : CodePoint => c ≠ '\n').length := by
  have hsplit := List.takeWhile_append_dropWhile (p := fun c : CodePoint => c ≠ '\n')
    (l := t.reverse)
  refine ⟨(t.reverse.dropWhile fun c : CodePoint => c ≠ '\n').reverse,
    (t.reverse.takeWhile fun c : CodePoint => c ≠ '\n').reverse, ?_, ?_, ?_, List.length_reverse⟩
  · rw [← List.reverse_append, hsplit, List.reverse_reverse]
  · have hhead := List.head?_dropWhile_not (fun c : CodePoint => decide (c ≠ '\n')) t.reverse
    cases hrest : t.reverse.dropWhile fun c : CodePoint => c ≠ '\n' with
    | nil => exact .inl rfl
    | cons c rest =>
      rw [hrest] at hhead
      obtain rfl : c = '\n' := by simpa using hhead
      exact .inr ⟨rest.reverse, List.reverse_cons⟩
  · intro hmem
    have hne := List.mem_takeWhile_imp (List.mem_reverse.1 hmem)
    exact absurd rfl (of_decide_eq_true hne)

end Text

/-! ## Positions -/

namespace Position

/-- A position is that of an offset in a text; the offset may lie beyond the end. -/
structure Marks (p : Position) (t : Text) (offset : Nat) : Prop where
  line : p.line = (t.take offset).count ('\n' : CodePoint) + 1
  column : 1 ≤ p.column
  /-- The offset is as far from the start of the line as the column from one. -/
  start : ∃ k, t.lineStart? (p.line - 1) = some k ∧ offset = k + (p.column - 1)
  unbroken : ∀ i, offset - (p.column - 1) ≤ i → i < offset → t[i]? ≠ some ('\n' : CodePoint)

/-- One position comes before another: on an earlier line, or on the same line in an earlier
column. -/
def Precedes (p q : Position) : Prop := p.line < q.line ∨ p.line = q.line ∧ p.column < q.column

variable {t : Text} {p q : Position} {a b : Nat}

theorem Marks.unique (hp : p.Marks t a) (hq : q.Marks t a) : p = q := by
  have hline : p.line = q.line := hp.line.trans hq.line.symm
  obtain ⟨k, hk, hpa⟩ := hp.start
  obtain ⟨l, hl, hqa⟩ := hq.start
  obtain rfl : k = l := by
    rw [hline, hl] at hk
    exact (Option.some.inj hk).symm
  have hcolumn : p.column = q.column := by
    have := hp.column
    have := hq.column
    omega
  cases p
  cases q
  exact congrArg₂ Position.mk hline hcolumn

theorem Marks.precedes (hp : p.Marks t a) (hq : q.Marks t b) (h : a < b) : p.Precedes q := by
  have hle : p.line ≤ q.line := by
    rw [hp.line, hq.line]
    exact Nat.succ_le_succ ((List.take_prefix_take_left h.le).sublist.count_le _)
  refine (Nat.lt_or_eq_of_le hle).imp_right fun hline => ⟨hline, ?_⟩
  obtain ⟨k, hk, rfl⟩ := hp.start
  obtain ⟨l, hl, rfl⟩ := hq.start
  obtain rfl : k = l := by
    rw [hline, hl] at hk
    exact (Option.some.inj hk).symm
  have := hp.column
  have := hq.column
  omega

theorem not_precedes_self (p : Position) : ¬p.Precedes p := by
  rw [Precedes]
  omega

theorem Precedes.not_precedes (h : p.Precedes q) : ¬q.Precedes p := by
  rw [Precedes] at *
  omega

theorem noLater_iff : Script.noLater p q = true ↔ ¬q.Precedes p := by
  rw [Precedes, Script.noLater, Bool.or_eq_true, Bool.and_eq_true, decide_eq_true_eq,
    decide_eq_true_eq, decide_eq_true_eq]
  omega

end Position

namespace Text

variable {t : Text} {a b : Nat}

/-- The position of an offset is told by the whole lines in front of it and what follows them. -/
theorem position_marks (t : Text) (a : Nat) : (t.position a).Marks t a := by
  obtain ⟨front, last, hbefore, hfront, hlast, hlength⟩ := exists_endsLines_append (t.take a)
  have hsum : front.length + last.length = (t.take a).length := by
    rw [hbefore, List.length_append]
  have hle : (t.take a).length ≤ a := List.length_take_le a t
  have hcount : (t.take a).count ('\n' : CodePoint) = front.count ('\n' : CodePoint) := by
    rw [hbefore, List.count_append, List.count_eq_zero_of_not_mem hlast, Nat.add_zero]
  have hposition : t.position a =
      ⟨front.count ('\n' : CodePoint) + 1, a - front.length + 1⟩ := by
    rw [position, hcount, ← hlength]
    congr 2
    omega
  rw [hposition]
  refine ⟨by rw [hcount], Nat.le_add_left _ _, ⟨front.length, ?_, ?_⟩, ?_⟩
  · have hstart := hfront.lineStart? (last ++ t.drop a)
    rw [← List.append_assoc, ← hbefore, List.take_append_drop] at hstart
    exact hstart
  · change a = front.length + (a - front.length)
    omega
  · intro i hi hia hfeed
    have hmem : last[i - front.length]? = some ('\n' : CodePoint) := by
      rw [← List.getElem?_append_right, ← hbefore, List.getElem?_take_of_lt hia, hfeed]
      change a - (a - front.length) ≤ i at hi
      omega
    exact hlast (List.mem_of_getElem? hmem)

theorem position_precedes_iff : (t.position a).Precedes (t.position b) ↔ a < b := by
  have hlater : ∀ {a b}, a < b → (t.position a).Precedes (t.position b) := fun h =>
    (position_marks t _).precedes (position_marks t _) h
  refine ⟨fun h => ?_, hlater⟩
  rcases Nat.lt_trichotomy a b with hlt | rfl | hgt
  · exact hlt
  · exact absurd h (Position.not_precedes_self _)
  · exact absurd (hlater hgt) h.not_precedes

theorem noLater_position : Script.noLater (t.position a) (t.position b) = true ↔ a ≤ b := by
  rw [Position.noLater_iff, position_precedes_iff, Nat.not_lt]

def offsetOf? (t : Text) (p : Position) : Option Nat :=
  (t.lineStart? (p.line - 1)).map (· + (p.column - 1))

theorem offsetOf?_position : t.offsetOf? (t.position a) = some a := by
  obtain ⟨k, hk, ha⟩ := (position_marks t a).start
  rw [offsetOf?, hk, Option.map_some, ← ha]

/-- Of two offsets, in the text or beyond its end, the smaller one has the position that comes first
in the order by lines and columns. The position of an offset is the only one whose line counts the
line feeds in front of the offset and whose column counts from the start of this line, with no line
feed in between; so the offset is recovered from it. -/
theorem position_identifies (t : Text) :
    (∀ a b, (t.position a).Precedes (t.position b) ↔ a < b) ∧
    (∀ a p, t.position a = p ↔ p.Marks t a) ∧
    ∀ a, t.offsetOf? (t.position a) = some a :=
  ⟨fun _ _ => position_precedes_iff,
    fun a _ => ⟨fun h => h ▸ position_marks t a, fun h => (position_marks t a).unique h⟩,
    fun _ => offsetOf?_position⟩

example : [0, 1, 2, 3, 5].map (position "a\n\n") = [⟨1, 1⟩, ⟨1, 2⟩, ⟨2, 1⟩, ⟨3, 1⟩, ⟨3, 3⟩] := by
  decide

end Text

end RegistryScript
