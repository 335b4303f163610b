import Mathlib
import RegistryScript.Text.Decimal
import RegistryScript.Text.Name

/-! # Names and paths, and what passes as one

The test that generated code is guarded by takes names and paths, and lets a line feed behind them
pass.

* `Text.isName_append`, `Text.isNamePart_of_mem_ofNat`: what a name goes on with.
* `Text.isNameLine_iff`: what passes as a name is a name, with or without a line feed behind it.
* `Text.IsPath`, `Text.isPathLine_iff`: the same of names joined by dots.
-/

namespace RegistryScript
set_option autoImplicit false

namespace Text

variable {t u v : Text} {c : CodePoint} {k : Nat}

/-! ## Names -/

theorem isNamePart_of_isName (h : t.isName = true) (hc : c ∈ t) : c.isNamePart = true := by
  cases t with
  | nil => exact absurd hc List.not_mem_nil
  | cons a t =>
    rw [isName, Bool.and_eq_true, List.all_eq_true] at h
    rcases List.mem_cons.1 hc with rfl | hc
    · rw [CodePoint.isNamePart, h.1]
      rfl
    · exact h.2 c hc

theorem isName_append (hu : u.isName = true) (hv : ∀ c ∈ v, c.isNamePart = true) :
    isName (u ++ v) = true := by
  cases u with
  | nil => exact nomatch hu
  | cons a u =>
    rw [isName, Bool.and_eq_true, List.all_eq_true] at hu
    rw [List.cons_append, isName, Bool.and_eq_true, List.all_eq_true]
    exact ⟨hu.1, fun c hc => (List.mem_append.1 hc).elim (hu.2 c) (hv c)⟩

theorem isNamePart_of_mem_ofNat (hc : c ∈ ofNat k) : c.isNamePart = true := by
  obtain ⟨d, hd, rfl⟩ := List.mem_map.1 hc
  have hdigit := Nat.isDigit_of_mem_toDigits (by decide) (by decide) hd
  rw [Char.isDigit, Bool.and_eq_true, decide_eq_true_eq, decide_eq_true_eq] at hdigit
  have hlow : 0x30 ≤ (CodePoint.ofChar d).val := UInt32.le_iff_toNat_le.1 hdigit.1
  have hhigh : (CodePoint.ofChar d).val ≤ 0x39 := UInt32.le_iff_toNat_le.1 hdigit.2
  rw [CodePoint.isNamePart, CodePoint.isDigit, Bool.or_eq_true, Bool.and_eq_true,
    decide_eq_true_eq, decide_eq_true_eq]
  exact .inr ⟨hlow, hhigh⟩

theorem lineFeed_not_mem_of_isName (h : t.isName = true) : ('\n' : CodePoint) ∉ t := fun hmem =>
  absurd (isNamePart_of_isName h hmem) (by decide)

/-! ## A line feed behind a text -/

theorem dropFinalLineFeed_concat (hc : c ≠ '\n') :
    dropFinalLineFeed (t ++ [c]) = t ++ [c] := by
  induction t with
  | nil => exact if_neg hc
  | cons a t ih =>
    cases t with
    | nil =>
      rw [List.singleton_append, dropFinalLineFeed, dropFinalLineFeed, if_neg hc]
    | cons b t =>
      rw [List.cons_append, List.cons_append, dropFinalLineFeed, ← List.cons_append, ih]

theorem dropFinalLineFeed_lineFeed (t : Text) :
    dropFinalLineFeed (t ++ [('\n' : CodePoint)]) = t := by
  induction t with
  | nil => rfl
  | cons a t ih =>
    cases t with
    | nil => rfl
    | cons b t => exact congrArg (a :: ·) ih

theorem mem_dropFinalLineFeed (hc : c ∈ t) : c ∈ t.dropFinalLineFeed ∨ c = '\n' := by
  induction t with
  | nil => exact absurd hc List.not_mem_nil
  | cons a t ih =>
    cases t with
    | nil =>
      rw [dropFinalLineFeed]
      split
      · next h => exact .inr ((List.mem_singleton.1 hc).trans h)
      · exact .inl hc
    | cons b t =>
      rw [dropFinalLineFeed]
      rcases List.mem_cons.1 hc with rfl | hc
      · exact .inl List.mem_cons_self
      · exact (ih hc).imp_left (List.mem_cons_of_mem a)

theorem dropFinalLineFeed_iff {p : Text → Bool}
    (hp : ∀ u : Text, p u = true → ('\n' : CodePoint) ∉ u) :
    p t.dropFinalLineFeed = true ↔
      p t = true ∨ ∃ m : Text, p m = true ∧ t = m ++ [('\n' : CodePoint)] := by
  rcases List.eq_nil_or_concat t with rfl | ⟨u, c, rfl⟩
  · refine ⟨.inl, fun h => h.elim id ?_⟩
    rintro ⟨m, -, heq⟩
    exact absurd heq.symm (List.append_ne_nil_of_right_ne_nil m (List.cons_ne_nil _ _))
  rw [List.concat_eq_append]
  by_cases hc : c = '\n'
  · subst hc
    rw [dropFinalLineFeed_lineFeed]
    refine ⟨fun h => .inr ⟨u, h, rfl⟩, ?_⟩
    rintro (h | ⟨m, hm, heq⟩)
    · exact absurd (List.mem_append_right u List.mem_cons_self) (hp _ h)
    · rwa [List.append_cancel_right heq]
  · rw [dropFinalLineFeed_concat hc, or_iff_left]
    rintro ⟨m, -, heq⟩
    exact hc (List.cons.inj (List.append_inj' heq rfl).2).1

theorem of_lineFeed_not_mem {p : Text → Prop}
    (h : p t ∨ ∃ m : Text, p m ∧ t = m ++ [('\n' : CodePoint)])
    (hline : ('\n' : CodePoint) ∉ t) : p t := by
  rcases h with h | ⟨m, -, rfl⟩
  · exact h
  · exact absurd (List.mem_append_right m List.mem_cons_self) hline

theorem isNameLine_iff :
    t.isNameLine = true ↔
      t.isName = true ∨ ∃ m : Text, m.isName = true ∧ t = m ++ [('\n' : CodePoint)] :=
  dropFinalLineFeed_iff fun _ => lineFeed_not_mem_of_isName

theorem mem_of_isNameLine (h : t.isNameLine = true) (hc : c ∈ t) :
    c.isNamePart = true ∨ c = '\n' :=
  (mem_dropFinalLineFeed hc).imp_left (isNamePart_of_isName h)

/-! ## Paths -/

/-- One or more names joined by single dots. -/
def IsPath (t : Text) : Prop :=
  ∃ parts : List Text, parts ≠ [] ∧ (∀ part ∈ parts, part.isName = true) ∧ t = join "." parts

theorem splitAt_eq_splitOn (c : CodePoint) (t : Text) : t.splitAt c = t.splitOn c := by
  induction t with
  | nil => rw [splitAt, List.splitOn_nil]
  | cons a t ih =>
    rw [List.splitOn_eq_splitOnP, List.splitOnP_cons_eq_if_modifyHead, ← List.splitOn_eq_splitOnP,
      ← ih, splitAt]
    by_cases ha : a = c
    · rw [if_pos ha, if_pos (beq_iff_eq.2 ha)]
    · rw [if_neg ha, if_neg (mt beq_iff_eq.1 ha)]
      cases h : splitAt c t with
      | nil => exact absurd (ih.symm.trans h) (List.splitOn_ne_nil _ _)
      | cons part parts => rfl

theorem join_eq_intercalate (c : CodePoint) (parts : List Text) :
    join [c] parts = [c].intercalate parts := by
  induction parts with
  | nil => rfl
  | cons t rest ih =>
    cases rest with
    | nil => rw [join, List.intercalate_singleton]
    | cons u rest => rw [join, ih, List.intercalate_cons_cons]; exact nofun

theorem all_splitAt_iff : (t.splitAt '.').all isName = true ↔ t.IsPath := by
  rw [splitAt_eq_splitOn, List.all_eq_true]
  constructor
  · intro h
    refine ⟨t.splitOn ('.' : CodePoint), List.splitOn_ne_nil _ _, h, ?_⟩
    exact ((join_eq_intercalate '.' _).trans (List.intercalate_splitOn _)).symm
  · rintro ⟨parts, hne, hparts, rfl⟩
    have hdot : ∀ part ∈ parts, ('.' : CodePoint) ∉ part := fun part hpart hmem =>
      absurd (isNamePart_of_isName (hparts part hpart) hmem) (by decide)
    have hjoin : join "." parts = [('.' : CodePoint)].intercalate parts := join_eq_intercalate '.' _
    rwa [hjoin, List.splitOn_intercalate _ hdot hne]

theorem IsPath.mem (h : t.IsPath) (hc : c ∈ t) : c.isNamePart = true ∨ c = '.' := by
  obtain ⟨parts, -, hparts, rfl⟩ := h
  induction parts with
  | nil => exact absurd hc List.not_mem_nil
  | cons u rest ih =>
    have hrest := ih fun part hpart => hparts part (List.mem_cons_of_mem u hpart)
    have hu : c ∈ u → c.isNamePart = true := isNamePart_of_isName (hparts u List.mem_cons_self)
    cases rest with
    | nil => exact .inl (hu hc)
    | cons v rest =>
      rw [join] at hc
      · rcases List.mem_append.1 hc with hc | hc
        · rcases List.mem_append.1 hc with hc | hc
          · exact .inl (hu hc)
          · exact .inr (List.mem_singleton.1 hc)
        · exact hrest hc
      · exact nofun

theorem IsPath.lineFeed_not_mem (h : t.IsPath) : ('\n' : CodePoint) ∉ t := fun hmem =>
  absurd (h.mem hmem) (by decide)

theorem isPathLine_iff :
    t.isPathLine = true ↔ t.IsPath ∨ ∃ m : Text, m.IsPath ∧ t = m ++ [('\n' : CodePoint)] := by
  have hline := @dropFinalLineFeed_iff t (fun u => (u.splitAt '.').all isName)
    fun u hu => (all_splitAt_iff.1 hu).lineFeed_not_mem
  simp only [all_splitAt_iff] at hline
  rw [isPathLine, all_splitAt_iff]
  exact hline

end Text

end RegistryScript
