import Mathlib
import RegistryScript.Syntax.Escape

/-! # Escape sequences that denote a text

* `CodePoint.isHexadecimal`, `Text.numeral`: hexadecimal digits and the number they denote.
* `Text.denotesCodePoint`, `codePointOfDigits_eq`: digits that denote a code point, and which one.
* `Text.isEscape`: an escape sequence whose digits, if it has any, denote a code point.
* `decodeEscape_of_isEscape`: such a sequence stands for a text.
-/

namespace RegistryScript
set_option autoImplicit false

def CodePoint.isHexadecimal (c : CodePoint) : Bool :=
  (0x30 ≤ c.val && c.val ≤ 0x39) || (0x41 ≤ c.val && c.val ≤ 0x46) ||
    (0x61 ≤ c.val && c.val ≤ 0x66)

namespace Text

def numeral (value : Nat) (digits : Text) : Nat :=
  digits.foldl (fun value c => 16 * value + c.hexadecimalDigit?.getD 0) value

def denotesCodePoint (digits : Text) : Bool :=
  !digits.isEmpty && digits.all CodePoint.isHexadecimal && decide (numeral 0 digits < 0x110000)

/-- An escape sequence whose digits denote a code point if it is one with digits: those behind an
`x`, behind a `u`, or behind a `u` and in braces. -/
def isEscape : Text → Bool
  | _ :: c :: d :: t =>
    if c = 'u' ∧ d = '\x7b' then denotesCodePoint t.dropLast
    else if c = 'u' ∨ c = 'x' then denotesCodePoint (d :: t)
    else true
  | _ => true

end Text

/-! ## Digits -/

theorem CodePoint.isHexadecimal_cases {c : CodePoint} (h : c.isHexadecimal = true) :
    c.hexadecimalDigit?.isSome = true ∧ c.isBlank = false ∧ c ≠ '_' ∧ c ≠ '-' ∧ c ≠ '+' ∧
      c ≠ 'x' ∧ c ≠ 'X' := by
  obtain ⟨v, hv⟩ := c
  simp only [isHexadecimal, Bool.or_eq_true, Bool.and_eq_true, decide_eq_true_eq] at h
  rcases h with (⟨h1, h2⟩ | ⟨h1, h2⟩) | ⟨h1, h2⟩ <;> interval_cases v <;> decide +revert

namespace Text

variable {digits : Text}

theorem hexadecimalDigits?_eq (h : ∀ c ∈ digits, c.isHexadecimal = true) (value : Nat) :
    hexadecimalDigits? value false digits = some (numeral value digits) := by
  induction digits generalizing value with
  | nil => rfl
  | cons c digits ih =>
    obtain ⟨hsome, -, hunderscore, -⟩ := CodePoint.isHexadecimal_cases (h c List.mem_cons_self)
    obtain ⟨digit, hdigit⟩ := Option.isSome_iff_exists.1 hsome
    rw [hexadecimalDigits?, if_neg hunderscore, hdigit, numeral, List.foldl_cons, hdigit]
    exact ih (fun c hc => h c (List.mem_cons_of_mem _ hc)) _

theorem trimBlanks_eq {t : Text} (h : ∀ c ∈ t, c.isBlank = false) : t.trimBlanks = t := by
  have hdrop {t : Text} (h : ∀ c ∈ t, c.isBlank = false) : t.dropWhile CodePoint.isBlank = t := by
    cases t with
    | nil => rfl
    | cons c t => rw [List.dropWhile_cons_of_neg (by simp [h c List.mem_cons_self])]
  rw [trimBlanks, hdrop h, hdrop fun c hc => h c (List.mem_reverse.1 hc), List.reverse_reverse]

theorem dropHexadecimalMark_eq (h : ∀ c ∈ digits, c.isHexadecimal = true) :
    digits.dropHexadecimalMark = digits := by
  rcases digits with _ | ⟨c, _ | ⟨d, digits⟩⟩
  · rfl
  · rfl
  · obtain ⟨-, -, -, -, -, hx, hX⟩ :=
      CodePoint.isHexadecimal_cases (h d (List.mem_cons_of_mem c List.mem_cons_self))
    have hmark : ¬(c.hexadecimalDigit? = some 0 ∧ (d = 'x' ∨ d = 'X')) :=
      fun hmark => hmark.2.elim hx hX
    simp only [dropHexadecimalMark, if_neg hmark]

theorem hexadecimal?_eq (h : ∀ c ∈ digits, c.isHexadecimal = true) (hne : digits ≠ []) :
    digits.hexadecimal? = some (numeral 0 digits : Int) := by
  obtain ⟨c, t, rfl⟩ := List.exists_cons_of_ne_nil hne
  obtain ⟨-, -, hunderscore, hminus, hplus, -⟩ :=
    CodePoint.isHexadecimal_cases (h c List.mem_cons_self)
  have hopen : hexadecimalDigits? 0 true (c :: t) = hexadecimalDigits? 0 false (c :: t) := by
    rw [hexadecimalDigits?, hexadecimalDigits?, if_neg hunderscore, if_neg hunderscore]
  rw [hexadecimal?, trimBlanks_eq fun d hd => (CodePoint.isHexadecimal_cases (h d hd)).2.1]
  simp only [if_neg hminus, if_neg hplus]
  rw [dropHexadecimalMark_eq h, hopen, hexadecimalDigits?_eq h]
  rfl

end Text

/-! ## Escape sequences -/

theorem codePointOfDigits_eq {digits : Text} (h : ∀ c ∈ digits, c.isHexadecimal = true)
    (hne : digits ≠ []) (hlt : Text.numeral 0 digits < 0x110000) :
    codePointOfDigits digits = .ok ⟨Text.numeral 0 digits, hlt⟩ := by
  have hin : (0 : Int) ≤ Text.numeral 0 digits ∧
      (Text.numeral 0 digits : Int).toNat < 0x110000 := by omega
  rw [codePointOfDigits, Text.hexadecimal?_eq h hne]
  change codePointOf (Text.numeral 0 digits) = _
  rw [codePointOf, if_neg (by omega), dif_pos hin]
  rfl

theorem codePointOfDigits_of_denotesCodePoint {digits : Text}
    (h : digits.denotesCodePoint = true) : ∃ c, codePointOfDigits digits = .ok c := by
  simp only [Text.denotesCodePoint, Bool.and_eq_true, Bool.not_eq_true', decide_eq_true_eq,
    List.all_eq_true, List.isEmpty_eq_false_iff] at h
  obtain ⟨⟨hne, hdigits⟩, hlt⟩ := h
  exact ⟨_, codePointOfDigits_eq hdigits hne hlt⟩

theorem decodeEscape_of_isEscape {sequence : Text} (h : sequence.isEscape = true) :
    ∃ t, decodeEscape sequence = .ok t := by
  rw [decodeEscape]
  rcases sequence with _ | ⟨b, _ | ⟨c, _ | ⟨d, t⟩⟩⟩
  · exact ⟨[], rfl⟩
  · exact ⟨[], rfl⟩
  · rw [List.drop_one, List.tail_cons, decodeEscapeBody]
    split
    · exact ⟨_, rfl⟩
    · split <;> exact ⟨_, rfl⟩
  · rw [List.drop_one, List.tail_cons, decodeEscapeBody]
    rw [Text.isEscape] at h
    split_ifs at h ⊢
    · obtain ⟨p, hp⟩ := codePointOfDigits_of_denotesCodePoint h
      exact ⟨[p], by rw [hp]; rfl⟩
    · obtain ⟨p, hp⟩ := codePointOfDigits_of_denotesCodePoint h
      exact ⟨[p], by rw [hp]; rfl⟩
    · exact ⟨_, rfl⟩
    · exact ⟨_, rfl⟩

end RegistryScript
