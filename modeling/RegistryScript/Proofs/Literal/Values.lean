import Mathlib
import RegistryScript.Proofs.Literal.Quoted

/-! # The value of a string literal

The grammar of ECMAScript makes a string literal up of characters, escapes and line continuations,
and gives each of them its UTF-16 code units. The scanner cuts the same literal into items by rules
of its own, and an item is decoded by what it starts with.

* `LiteralPart`, `LiteralPart.units`: the parts of a literal in strict code, and their code units.
* `partsFit`: parts that make up a literal.
* `LiteralPart.items`: the items that the scanner finds in a literal. A line or paragraph separator
  behind a continuation by a carriage return goes into its item.
* `itemsFit_items`, `units16_items`: these items are found, and what they stand for.
* `stringLiteral_units`: a literal is read as one string, and its value has the code units of the
  literal, but for separators that a continuation takes in.
* `stringLiteral_units_separator`: a literal that loses a separator.
-/

namespace RegistryScript
set_option autoImplicit false

/-! ## Parts of a literal -/

section Decidable

variable (P : CodePoint → Prop) [DecidablePred P]

-- What is said of the code points of a text is decided on the text. The instance for `Fin` would go
-- through all code points.

instance (t : Text) : Decidable (∀ c ∈ t, P c) := List.decidableBAll P t

instance (o : Option CodePoint) : Decidable (∀ c ∈ o, P c) :=
  match o with
  | none => isTrue fun _ h => nomatch h
  | some c => decidable_of_iff (P c) (by simp)

end Decidable

def CodePoint.hexValue (c : CodePoint) : Nat :=
  if c.isDigit then c.val - 0x30 else if c.val ≤ 0x46 then c.val - 0x37 else c.val - 0x57

def Text.hexNumber (digits : Text) : Nat := digits.foldl (fun n c => 16 * n + c.hexValue) 0

def singleEscape? (c : CodePoint) : Option Nat :=
  if c = '\x27' then some 0x27
  else if c = '"' then some 0x22
  else if c = '\\' then some 0x5C
  else if c = 'b' then some 0x08
  else if c = 'f' then some 0x0C
  else if c = 'n' then some 0x0A
  else if c = 'r' then some 0x0D
  else if c = 't' then some 0x09
  else if c = 'v' then some 0x0B
  else none

/-- What ends a line: a line feed, a carriage return, both of them, or a separator. -/
def lineEnds : List Text := [['\n'], ['\r'], ['\u2028'], ['\u2029'], ['\r', '\n']]

/-- A part of a string literal in strict code. -/
inductive LiteralPart
  | raw (c : CodePoint)
  /-- A backslash and a character with a meaning of its own. -/
  | single (c : CodePoint)
  /-- A backslash and any other character, which stands for itself. -/
  | plain (c : CodePoint)
  | null
  | byte (digits : Text)
  | unit (digits : Text)
  | codePoint (digits : Text)
  /-- A backslash and the end of a line. -/
  | continuation (lineEnd : Text)
deriving DecidableEq, Repr

namespace LiteralPart

def body : LiteralPart → Text
  | .raw c | .single c | .plain c => [c]
  | .null => ['0']
  | .byte digits => 'x' :: digits
  | .unit digits => 'u' :: digits
  | .codePoint digits =>
    ('u' : CodePoint) :: ('\x7b' : CodePoint) :: (digits ++ [('\x7d' : CodePoint)])
  | .continuation lineEnd => lineEnd

def item : LiteralPart → StringItem
  | .raw c => .raw c
  | p => .escape p.body

def spelling (p : LiteralPart) : Text := p.item.spelling

def units : LiteralPart → List Nat
  | .raw c | .plain c => c.units16
  | .single c => (singleEscape? c).toList
  | .null => [0]
  | .byte digits | .unit digits => [digits.hexNumber]
  | .codePoint digits =>
    if h : digits.hexNumber < 0x110000 then CodePoint.units16 ⟨digits.hexNumber, h⟩ else []
  | .continuation _ => []

def IsPart (quote : Char) : LiteralPart → Prop
  | .raw c => c ≠ quote ∧ c ≠ '\\' ∧ c ≠ '\n' ∧ c ≠ '\r'
  | .single c => (singleEscape? c).isSome = true
  | .plain c =>
    singleEscape? c = none ∧ c.isDigit = false ∧ c ≠ 'x' ∧ c ≠ 'u' ∧ [c] ∉ lineEnds
  | .null => True
  | .byte digits => digits.length = 2 ∧ ∀ c ∈ digits, c.isHexadecimal = true
  | .unit digits => digits.length = 4 ∧ ∀ c ∈ digits, c.isHexadecimal = true
  | .codePoint digits =>
    digits ≠ [] ∧ (∀ c ∈ digits, c.isHexadecimal = true) ∧ digits.hexNumber < 0x110000
  | .continuation lineEnd => lineEnd ∈ lineEnds

instance (quote : Char) : DecidablePred (IsPart quote)
  | .raw c => inferInstanceAs (Decidable (c ≠ quote ∧ c ≠ '\\' ∧ c ≠ '\n' ∧ c ≠ '\r'))
  | .single c => inferInstanceAs (Decidable ((singleEscape? c).isSome = true))
  | .plain c => inferInstanceAs (Decidable
      (singleEscape? c = none ∧ c.isDigit = false ∧ c ≠ 'x' ∧ c ≠ 'u' ∧ [c] ∉ lineEnds))
  | .null => inferInstanceAs (Decidable True)
  | .byte digits =>
    inferInstanceAs (Decidable (digits.length = 2 ∧ ∀ c ∈ digits, c.isHexadecimal = true))
  | .unit digits =>
    inferInstanceAs (Decidable (digits.length = 4 ∧ ∀ c ∈ digits, c.isHexadecimal = true))
  | .codePoint digits => inferInstanceAs (Decidable
      (digits ≠ [] ∧ (∀ c ∈ digits, c.isHexadecimal = true) ∧ digits.hexNumber < 0x110000))
  | .continuation lineEnd => inferInstanceAs (Decidable (lineEnd ∈ lineEnds))

def Precedes (following : Text) (p : LiteralPart) : Prop :=
  p = .null → ∀ c ∈ following.head?, c.isDigit = false

instance (following : Text) : DecidablePred (Precedes following) := fun p =>
  inferInstanceAs (Decidable (p = .null → ∀ c ∈ following.head?, c.isDigit = false))

def isReturn (p : LiteralPart) : Bool := p = .continuation ['\r']

def isSeparator (p : LiteralPart) : Bool := p = .raw '\u2028' || p = .raw '\u2029'

/-- A separator behind a part goes into the item of the part. -/
def takesIn (p q : LiteralPart) : Bool := (p.isReturn || p = .plain '?') && q.isSeparator

def items : List LiteralPart → List StringItem
  | [] => []
  | [p] => [p.item]
  | p :: q :: ps =>
    if p.takesIn q then .escape (p.body ++ q.body) :: items ps else p.item :: items (q :: ps)

/-- The parts of a literal without the separators that a continuation takes in. -/
def kept : List LiteralPart → List LiteralPart
  | [] => []
  | [p] => [p]
  | p :: q :: ps => if p.isReturn && q.isSeparator then p :: kept ps else p :: kept (q :: ps)

end LiteralPart

open LiteralPart

def spellParts (ps : List LiteralPart) : Text := ps.flatMap LiteralPart.spelling

def unitsOfParts (ps : List LiteralPart) : List Nat := ps.flatMap LiteralPart.units

/-- Parts that make up a literal in the given quotes. -/
def partsFit (quote : Char) : List LiteralPart → Prop
  | [] => True
  | p :: ps => p.IsPart quote ∧ p.Precedes (spellParts ps) ∧ partsFit quote ps

instance (quote : Char) : DecidablePred (partsFit quote) := go
where
  go : (ps : List LiteralPart) → Decidable (partsFit quote ps)
    | [] => inferInstanceAs (Decidable True)
    | p :: ps =>
      have := go ps
      inferInstanceAs
        (Decidable (p.IsPart quote ∧ p.Precedes (spellParts ps) ∧ partsFit quote ps))

def quoteParts (quote : Char) (ps : List LiteralPart) : Text :=
  (quote : CodePoint) :: spellParts ps ++ [(quote : CodePoint)]

/-! ## Digits -/

namespace CodePoint

variable {c : CodePoint}

theorem hexadecimal_spec (h : c.isHexadecimal = true) :
    c.hexadecimalDigit? = some c.hexValue ∧ c.hexValue < 16 ∧ isHex c.toChar = true ∧
      c ≠ '\x7b' := by
  obtain ⟨v, hv⟩ := c
  simp only [isHexadecimal, Bool.or_eq_true, Bool.and_eq_true, decide_eq_true_eq] at h
  rcases h with (⟨h1, h2⟩ | ⟨h1, h2⟩) | ⟨h1, h2⟩ <;> interval_cases v <;> decide +revert

theorem toChar_ne {d : Char} (hd : d ≠ '\uFFFD') (h : c ≠ d) : c.toChar ≠ d := by
  rintro rfl
  by_cases hs : c.isSurrogate = true
  · rw [toChar, if_pos hs] at hd
    exact hd rfl
  · exact h (Fin.ext (toNat_toChar (Bool.eq_false_iff.2 hs)).symm)

theorem isOctal_toChar (h : c.isDigit = false) : isOctal c.toChar = false := by
  by_cases hs : c.isSurrogate = true
  · rw [toChar, if_pos hs]
    rfl
  · have hval := toNat_toChar (Bool.eq_false_iff.2 hs)
    rw [isDigit, Bool.and_eq_false_iff, decide_eq_false_iff_not, decide_eq_false_iff_not] at h
    rw [isOctal, Bool.and_eq_false_iff, decide_eq_false_iff_not, decide_eq_false_iff_not]
    have hle (a b : Char) : a ≤ b ↔ a.toNat ≤ b.toNat := UInt32.le_iff_toNat_le
    rw [hle, hle, hval]
    have h0 : '0'.toNat = 0x30 := rfl
    have h7 : '7'.toNat = 0x37 := rfl
    omega

end CodePoint

namespace Text

variable {digits : Text}

theorem numeral_eq_foldl (h : ∀ c ∈ digits, c.isHexadecimal = true) (n : Nat) :
    numeral n digits = digits.foldl (fun n c => 16 * n + c.hexValue) n := by
  induction digits generalizing n with
  | nil => rfl
  | cons c digits ih =>
    obtain ⟨hdigit, -⟩ := CodePoint.hexadecimal_spec (h c List.mem_cons_self)
    rw [numeral, List.foldl_cons, List.foldl_cons, hdigit]
    exact ih (fun d hd => h d (List.mem_cons_of_mem c hd)) _

theorem foldl_hexValue_lt (h : ∀ c ∈ digits, c.isHexadecimal = true) (n : Nat) :
    digits.foldl (fun n c => 16 * n + c.hexValue) n < (n + 1) * 16 ^ digits.length := by
  induction digits generalizing n with
  | nil => simp
  | cons c digits ih =>
    obtain ⟨-, hlt, -⟩ := CodePoint.hexadecimal_spec (h c List.mem_cons_self)
    have hrest := ih (fun d hd => h d (List.mem_cons_of_mem c hd)) (16 * n + c.hexValue)
    rw [List.foldl_cons, List.length_cons, pow_succ']
    calc _ < (16 * n + c.hexValue + 1) * 16 ^ digits.length := hrest
      _ ≤ ((n + 1) * 16) * 16 ^ digits.length := Nat.mul_le_mul_right _ (by omega)
      _ = (n + 1) * (16 * 16 ^ digits.length) := Nat.mul_assoc _ _ _

theorem hexNumber_lt (h : ∀ c ∈ digits, c.isHexadecimal = true) :
    digits.hexNumber < 16 ^ digits.length := by
  have hlt := foldl_hexValue_lt h 0
  rwa [Nat.zero_add, Nat.one_mul] at hlt

theorem codePointOfDigits_hexNumber (h : ∀ c ∈ digits, c.isHexadecimal = true) (hne : digits ≠ [])
    (hlt : digits.hexNumber < 0x110000) :
    codePointOfDigits digits = .ok ⟨digits.hexNumber, hlt⟩ := by
  have hnumber : numeral 0 digits = digits.hexNumber := numeral_eq_foldl h 0
  rw [codePointOfDigits_eq h hne (by rwa [hnumber])]
  exact congrArg Except.ok (Fin.ext hnumber)

end Text

theorem singleEscape?_cases {c : CodePoint} (h : (singleEscape? c).isSome = true) :
    c = '\x27' ∨ c = '"' ∨ c = '\\' ∨ c = 'b' ∨ c = 'f' ∨ c = 'n' ∨ c = 'r' ∨ c = 't' ∨
      c = 'v' := by
  by_contra hnot
  simp only [not_or] at hnot
  simp [singleEscape?, hnot] at h

/-! ## What an item stands for -/

def StringItem.Denotes (i : StringItem) (units : List Nat) : Prop :=
  i.value = .ok i.text ∧ Text.units16 i.text = units

theorem StringItem.denotes_of_eq {i : StringItem} {t : Text} (h : i.value = .ok t) :
    i.Denotes (Text.units16 t) := by
  have htext : i.text = t := by
    rw [text, h]
    rfl
  exact ⟨by rw [htext, h], by rw [htext]⟩

theorem Text.units16_singleton (c : CodePoint) : units16 [c] = c.units16 :=
  List.flatMap_singleton _ _

theorem CodePoint.units16_of_lt {c : CodePoint} (h : c.val < 0x10000) : c.units16 = [c.val] :=
  if_pos h

namespace LiteralPart

variable {p q : LiteralPart} {quote : Char} {c : CodePoint} {digits : Text}

theorem controlLetter?_eq_none (hsingle : singleEscape? c = none) (hdigit : c.isDigit = false) :
    controlLetter? c = none := by
  have hne (d : CodePoint) (hd : ¬(singleEscape? d = none ∧ d.isDigit = false)) : c ≠ d := by
    rintro rfl
    exact hd ⟨hsingle, hdigit⟩
  rw [controlLetter?, if_neg (hne 'n' (by decide)), if_neg (hne 't' (by decide)),
    if_neg (hne 'r' (by decide)), if_neg (hne 'b' (by decide)), if_neg (hne 'f' (by decide)),
    if_neg (hne 'v' (by decide)), if_neg (hne '0' (by decide))]

theorem denotes_plain (h : IsPart quote (.plain c)) : (item (.plain c)).Denotes c.units16 := by
  obtain ⟨hsingle, hdigit, -, -, hline⟩ := h
  have hends : ¬(c = '\n' ∨ c = '\r' ∨ c = '\u2028' ∨ c = '\u2029') := by
    rintro (rfl | rfl | rfl | rfl) <;> exact hline (by decide)
  rw [← Text.units16_singleton]
  refine StringItem.denotes_of_eq ?_
  change decodeEscapeBody [c] = _
  rw [decodeEscapeBody, controlLetter?_eq_none hsingle hdigit]
  simp only [if_neg hends]

theorem denotes_unit (h : ∀ c ∈ digits, c.isHexadecimal = true) (hne : digits ≠ [])
    (hlt : digits.hexNumber < 0x10000) {body : Text}
    (hbody : decodeEscapeBody body = (do return [← codePointOfDigits digits])) :
    StringItem.Denotes (.escape body) [digits.hexNumber] := by
  have hvalue : StringItem.value (.escape body) = .ok [⟨digits.hexNumber, by omega⟩] := by
    rw [StringItem.value, hbody, Text.codePointOfDigits_hexNumber h hne (by omega)]
    rfl
  have hdenotes := StringItem.denotes_of_eq hvalue
  rwa [Text.units16_singleton, CodePoint.units16_of_lt hlt] at hdenotes

theorem denotes_item (h : p.IsPart quote) : p.item.Denotes p.units := by
  cases p with
  | raw c =>
    rw [units, ← Text.units16_singleton]
    exact StringItem.denotes_of_eq rfl
  | single c =>
    have hsome : (singleEscape? c).isSome = true := h
    rcases singleEscape?_cases hsome with rfl | rfl | rfl | rfl | rfl | rfl | rfl | rfl | rfl <;>
      exact ⟨rfl, rfl⟩
  | plain c => exact denotes_plain h
  | null => exact ⟨rfl, rfl⟩
  | byte digits =>
    obtain ⟨hlength, hdigits⟩ := h
    obtain ⟨a, b, rfl⟩ := List.length_eq_two.1 hlength
    have hlt := Text.hexNumber_lt hdigits
    rw [hlength] at hlt
    exact denotes_unit hdigits (List.cons_ne_nil _ _) (by omega) rfl
  | unit digits =>
    obtain ⟨hlength, hdigits⟩ := h
    obtain ⟨a, b, c, d, rfl⟩ := List.length_eq_four.1 hlength
    have hlt := Text.hexNumber_lt hdigits
    rw [hlength] at hlt
    obtain ⟨-, -, -, hbrace⟩ := CodePoint.hexadecimal_spec (hdigits a List.mem_cons_self)
    refine denotes_unit hdigits (List.cons_ne_nil _ _) (by omega) ?_
    change decodeEscapeBody ('u' :: a :: [b, c, d]) = _
    rw [decodeEscapeBody, if_neg fun hand => hbrace hand.2, if_pos (.inl rfl)]
  | codePoint digits =>
    obtain ⟨hne, hdigits, hlt⟩ := h
    rw [units, dif_pos hlt, ← Text.units16_singleton]
    refine StringItem.denotes_of_eq ?_
    change decodeEscapeBody ('u' :: '\x7b' :: (digits ++ [('\x7d' : CodePoint)])) = _
    rw [decodeEscapeBody, if_pos ⟨rfl, rfl⟩, List.dropLast_concat,
      Text.codePointOfDigits_hexNumber hdigits hne hlt]
    rfl
  | continuation lineEnd =>
    have hends : lineEnd ∈ lineEnds := h
    simp only [lineEnds, List.mem_cons, List.not_mem_nil, or_false] at hends
    rcases hends with rfl | rfl | rfl | rfl | rfl <;> exact ⟨rfl, rfl⟩

theorem isSeparator_iff : q.isSeparator = true ↔ q = .raw '\u2028' ∨ q = .raw '\u2029' := by
  rw [isSeparator, Bool.or_eq_true, decide_eq_true_eq, decide_eq_true_eq]

theorem takesIn_iff : p.takesIn q = true ↔
    (p = .continuation ['\r'] ∨ p = .plain '?') ∧ (q = .raw '\u2028' ∨ q = .raw '\u2029') := by
  rw [takesIn, isReturn, Bool.and_eq_true, Bool.or_eq_true, decide_eq_true_eq, decide_eq_true_eq,
    isSeparator_iff]

/-- A separator that is taken in is lost behind a carriage return. -/
theorem denotes_taken (h : p.takesIn q = true) :
    StringItem.Denotes (.escape (p.body ++ q.body))
      (p.units ++ if p.isReturn then [] else q.units) := by
  obtain ⟨rfl | rfl, rfl | rfl⟩ := takesIn_iff.1 h <;> exact ⟨rfl, rfl⟩

end LiteralPart

/-! ## Where an item ends -/

namespace Grammar

variable {c : Char} {cs : List Char}

theorem escapeLength?_single (hx : c ≠ 'x') (hu : c ≠ 'u') (hoctal : isOctal c = false)
    (hclose : c = '\r' ∨ c = '?' → ∀ d ∈ cs.head?, closesEscape d = false) :
    escapeLength? (c :: cs) = some 1 := by
  have hnot : ¬((c = '\r' ∨ c = '?') ∧ cs.head?.any closesEscape = true) := by
    rintro ⟨hc, hany⟩
    cases cs with
    | nil => exact Bool.false_ne_true hany
    | cons d cs => exact Bool.false_ne_true ((hclose hc d rfl).symm.trans hany)
  unfold escapeLength?
  split
  · next heq => exact nomatch heq
  · next heq => exact absurd (List.cons.inj heq).1 hx
  · next heq =>
    obtain ⟨rfl, rfl⟩ := List.cons.inj heq
    rw [if_neg hx, if_neg hu, hoctal, if_neg Bool.false_ne_true, if_neg hnot]

theorem escapeLength?_zero (h : ∀ d ∈ cs.head?, isOctal d = false) :
    escapeLength? ('0' :: cs) = some 1 := by
  cases cs with
  | nil => rfl
  | cons d cs =>
    have hd := h d rfl
    change some ((('0' :: d :: cs).take 3).takeWhile isOctal).length = some 1
    rw [List.take_succ_cons, List.take_succ_cons, List.takeWhile_cons_of_pos rfl,
      List.takeWhile_cons_of_neg (by rw [hd]; exact Bool.false_ne_true)]
    rfl

theorem unicodeEscapeLength?_braces {digits : List Char} (h : ∀ d ∈ digits, isHex d = true)
    (hne : digits ≠ []) :
    unicodeEscapeLength? ('u' :: '\x7b' :: (digits ++ '\x7d' :: cs)) =
      some (digits.length + 3) := by
  have hdigits : (digits ++ '\x7d' :: cs).takeWhile isHex = digits := by
    rw [List.takeWhile_append_of_pos h, List.takeWhile_cons_of_neg (by decide), List.append_nil]
  rw [unicodeEscapeLength?, hdigits, List.drop_left]
  simp [hne]

end Grammar

namespace LiteralPart

variable {p q : LiteralPart} {quote : Char} {ps : List LiteralPart} {rest : List Char}

/-- What stands behind a part does not go into its item. -/
def Stops (following : List Char) (p : LiteralPart) : Prop :=
  (p = .null → ∀ d ∈ following.head?, isOctal d = false) ∧
    (p = .continuation ['\r'] ∨ p = .plain '?' →
      ∀ d ∈ following.head?, Grammar.closesEscape d = false)

theorem fits_plain {c : CodePoint} (h : (plain c).IsPart quote) {following : List Char}
    (hstops : (plain c).Stops following) : (plain c).item.Fits quote following := by
  obtain ⟨-, hdigit, hx, hu, hline⟩ := h
  refine Grammar.escapeLength?_single (CodePoint.toChar_ne (by decide) hx)
    (CodePoint.toChar_ne (by decide) hu) (CodePoint.isOctal_toChar hdigit) fun hc => ?_
  rcases hc with hc | hc
  · exact absurd hc (CodePoint.toChar_ne (by decide) fun hr => hline (by rw [hr]; decide))
  · refine hstops.2 (.inr (congrArg LiteralPart.plain ?_))
    by_contra hne
    exact CodePoint.toChar_ne (by decide) hne hc

theorem fits_codePoint {digits : Text} (h : (codePoint digits).IsPart quote)
    (following : List Char) : (codePoint digits).item.Fits quote following := by
  obtain ⟨hne, hdigits, -⟩ := h
  have hhex : ∀ d ∈ digits.toChars, isHex d = true := by
    intro d hd
    obtain ⟨c, hc, rfl⟩ := List.mem_map.1 hd
    exact (CodePoint.hexadecimal_spec (hdigits c hc)).2.2.1
  have hbraces :
      Grammar.escapeLength? ('u' :: '\x7b' :: (digits.toChars ++ '\x7d' :: following)) =
        some (digits.toChars.length + 3) :=
    Grammar.unicodeEscapeLength?_braces hhex fun hnil => hne (List.map_eq_nil_iff.1 hnil)
  have hchars : (body (.codePoint digits)).toChars ++ following =
      'u' :: '\x7b' :: (digits.toChars ++ '\x7d' :: following) := by
    simp [body, Text.toChars]
    exact ⟨rfl, rfl, rfl⟩
  change Grammar.escapeLength? ((body (.codePoint digits)).toChars ++ following) = _
  rw [hchars, hbraces]
  simp [body, Text.toChars]

theorem fits_item (hquote : quote = '"' ∨ quote = '\x27') (h : p.IsPart quote)
    {following : List Char} (hstops : p.Stops following) : p.item.Fits quote following := by
  cases p with
  | raw c =>
    obtain ⟨hq, hb, hn, hr⟩ := h
    have hfffd : quote ≠ '\uFFFD' := by rcases hquote with rfl | rfl <;> decide
    exact ⟨CodePoint.toChar_ne hfffd hq, CodePoint.toChar_ne (by decide) hn,
      CodePoint.toChar_ne (by decide) hr, CodePoint.toChar_ne (by decide) hb⟩
  | single c =>
    have hsome : (singleEscape? c).isSome = true := h
    rcases singleEscape?_cases hsome with rfl | rfl | rfl | rfl | rfl | rfl | rfl | rfl | rfl <;>
      exact rfl
  | plain c => exact fits_plain h hstops
  | null => exact Grammar.escapeLength?_zero (hstops.1 rfl)
  | byte digits =>
    obtain ⟨hlength, hdigits⟩ := h
    obtain ⟨a, b, rfl⟩ := List.length_eq_two.1 hlength
    have hhex : (isHex a.toChar && isHex b.toChar) = true := by
      rw [(CodePoint.hexadecimal_spec (hdigits a List.mem_cons_self)).2.2.1,
        (CodePoint.hexadecimal_spec (hdigits b (by simp))).2.2.1]
      rfl
    exact if_pos hhex
  | unit digits =>
    obtain ⟨hlength, hdigits⟩ := h
    obtain ⟨a, b, c, d, rfl⟩ := List.length_eq_four.1 hlength
    refine escapeLength?_unicode following fun digit hdigit => ?_
    obtain ⟨e, he, rfl⟩ : ∃ e ∈ [a, b, c, d], CodePoint.toChar e = digit := List.mem_map.1 hdigit
    exact (CodePoint.hexadecimal_spec (hdigits e he)).2.2.1
  | codePoint digits => exact fits_codePoint h following
  | continuation lineEnd =>
    have hends : lineEnd ∈ lineEnds := h
    simp only [lineEnds, List.mem_cons, List.not_mem_nil, or_false] at hends
    rcases hends with rfl | rfl | rfl | rfl | rfl
    · exact rfl
    · exact Grammar.escapeLength?_single (by decide) (by decide) (by decide) fun _ =>
        hstops.2 (.inl rfl)
    · exact rfl
    · exact rfl
    · exact rfl

theorem fits_taken (h : p.takesIn q = true) (following : List Char) :
    StringItem.Fits quote following (.escape (p.body ++ q.body)) := by
  obtain ⟨rfl | rfl, rfl | rfl⟩ := takesIn_iff.1 h <;> exact rfl

/-! ## The items of a literal -/

theorem spelling_taken (h : p.takesIn q = true) :
    StringItem.spelling (.escape (p.body ++ q.body)) = p.spelling ++ q.spelling := by
  obtain ⟨rfl | rfl, rfl | rfl⟩ := takesIn_iff.1 h <;> rfl

theorem spellItems_items (ps : List LiteralPart) : spellItems (items ps) = spellParts ps := by
  fun_induction items ps with
  | case1 => rfl
  | case2 p => rfl
  | case3 p q ps htakes ih =>
    rw [spellItems_cons, ih, spelling_taken htakes, List.append_assoc]
    rfl
  | case4 p q ps htakes ih =>
    rw [spellItems_cons, ih]
    rfl

theorem head?_spelling (p : LiteralPart) (following : List Char) :
    (p.spelling.toChars ++ following).head? =
      some (match p with
        | .raw c => c.toChar
        | _ => '\\') := by
  cases p <;> rfl

theorem stops_quote (hquote : quote = '"' ∨ quote = '\x27') : p.Stops (quote :: rest) := by
  constructor
  · intro _ d hd
    obtain rfl := Option.some.inj hd
    rcases hquote with rfl | rfl <;> rfl
  · intro _ d hd
    obtain rfl := Option.some.inj hd
    rcases hquote with rfl | rfl <;> rfl

/-- Nothing goes into the item of a part but separators. -/
theorem stops_spelling (hq : q.IsPart quote) (hprecedes : p.Precedes (spellParts (q :: ps)))
    (htakes : p.takesIn q = false) {following : List Char} :
    p.Stops (q.spelling.toChars ++ following) := by
  constructor
  · intro hnull d hd
    rw [head?_spelling, Option.mem_some_iff] at hd
    cases q with
    | raw c =>
      obtain rfl := hd
      exact CodePoint.isOctal_toChar (hprecedes hnull c rfl)
    | _ =>
      obtain rfl := hd
      rfl
  · intro hp d hd
    rw [head?_spelling, Option.mem_some_iff] at hd
    cases q with
    | raw c =>
      obtain rfl := hd
      have hseparator : ¬(LiteralPart.raw c = .raw '\u2028' ∨ LiteralPart.raw c = .raw '\u2029') :=
        fun hc => Bool.eq_false_iff.1 htakes (takesIn_iff.2 ⟨hp, hc⟩)
      rw [LiteralPart.raw.injEq, LiteralPart.raw.injEq, not_or] at hseparator
      obtain ⟨-, -, hn, -⟩ := hq
      simp only [Grammar.closesEscape, Bool.or_eq_false_iff, decide_eq_false_iff_not]
      exact ⟨⟨CodePoint.toChar_ne (by decide) hn, CodePoint.toChar_ne (by decide) hseparator.1⟩,
        CodePoint.toChar_ne (by decide) hseparator.2⟩
    | _ =>
      obtain rfl := hd
      rfl

theorem itemsFit_items (hquote : quote = '"' ∨ quote = '\x27') (h : partsFit quote ps) :
    itemsFit quote rest (items ps) := by
  fun_induction items ps with
  | case1 => trivial
  | case2 p => exact ⟨fits_item hquote h.1 (stops_quote hquote), trivial⟩
  | case3 p q ps htakes ih => exact ⟨fits_taken htakes _, ih h.2.2.2.2⟩
  | case4 p q ps htakes ih =>
    refine ⟨fits_item hquote h.1 ?_, ih h.2.2⟩
    rw [spellItems_items, spellParts, List.flatMap_cons, Text.toChars_append, List.append_assoc]
    exact stops_spelling h.2.2.1 h.2.1 (Bool.eq_false_iff.2 htakes)

theorem kept_cons (h : p.isReturn = false) : kept (p :: ps) = p :: kept ps := by
  cases ps with
  | nil => rfl
  | cons q ps => rw [kept, h, Bool.false_and, if_neg Bool.false_ne_true]

theorem units16_items (h : partsFit quote ps) :
    (∀ i ∈ items ps, i.value = .ok i.text) ∧
      Text.units16 ((items ps).flatMap StringItem.text) = unitsOfParts (kept ps) := by
  have hcons {i : StringItem} {is : List StringItem} {us vs : List Nat} (hi : i.Denotes us)
      (his : (∀ j ∈ is, j.value = .ok j.text) ∧
        Text.units16 (is.flatMap StringItem.text) = vs) :
      (∀ j ∈ i :: is, j.value = .ok j.text) ∧
        Text.units16 ((i :: is).flatMap StringItem.text) = us ++ vs := by
    refine ⟨List.forall_mem_cons.2 ⟨hi.1, his.1⟩, ?_⟩
    rw [List.flatMap_cons, Text.units16, List.flatMap_append]
    exact congrArg₂ (· ++ ·) hi.2 his.2
  fun_induction items ps with
  | case1 => exact ⟨fun i hi => absurd hi List.not_mem_nil, rfl⟩
  | case2 p =>
    exact hcons (denotes_item h.1) ⟨fun i hi => absurd hi List.not_mem_nil, rfl⟩
  | case3 p q ps htakes ih =>
    obtain ⟨hall, hunits⟩ := hcons (denotes_taken htakes) (ih h.2.2.2.2)
    refine ⟨hall, hunits.trans ?_⟩
    -- the separator is lost behind a carriage return, but not behind a question mark
    obtain ⟨rfl | rfl, rfl | rfl⟩ := takesIn_iff.1 htakes
    · rfl
    · rfl
    · rw [kept_cons rfl, kept_cons rfl, List.append_assoc]
      rfl
    · rw [kept_cons rfl, kept_cons rfl, List.append_assoc]
      rfl
  | case4 p q ps htakes ih =>
    obtain ⟨hall, hunits⟩ := hcons (denotes_item h.1) (ih h.2.2)
    refine ⟨hall, hunits.trans ?_⟩
    have hkeeps : (p.isReturn && q.isSeparator) = false := by
      refine Bool.eq_false_iff.2 fun hloses => htakes ?_
      obtain ⟨hreturn, hseparator⟩ := Bool.and_eq_true_iff.1 hloses
      rw [takesIn, hreturn, hseparator]
      rfl
    rw [kept, hkeeps, if_neg Bool.false_ne_true]
    rfl

theorem sublist_kept (ps : List LiteralPart) : (kept ps).Sublist ps := by
  fun_induction kept ps with
  | case1 => exact .refl _
  | case2 p => exact .refl _
  | case3 p q ps hloses ih => exact (ih.cons q).cons_cons p
  | case4 p q ps hloses ih => exact ih.cons_cons p

theorem unitsOfParts_kept (ps : List LiteralPart) :
    unitsOfParts (kept ps) = unitsOfParts ps ↔
      ps.IsChain fun p q => (p.isReturn && q.isSeparator) = false := by
  -- a separator has a code unit, so nothing behind it can make up for its loss
  fun_induction kept ps with
  | case1 => exact iff_of_true rfl .nil
  | case2 p => exact iff_of_true rfl (.singleton p)
  | case3 p q ps hloses ih =>
    refine iff_of_false (fun heq => ?_) fun hchain =>
      Bool.eq_false_iff.1 (List.isChain_cons_cons.1 hchain).1 hloses
    have hle : (unitsOfParts (kept ps)).length ≤ (unitsOfParts ps).length :=
      ((sublist_kept ps).flatMap _).length_le
    have hone : q.units.length = 1 := by
      rcases isSeparator_iff.1 (Bool.and_eq_true_iff.1 hloses).2 with rfl | rfl <;> rfl
    have hlength := congrArg List.length heq
    simp only [unitsOfParts, List.flatMap_cons, List.length_append] at hlength hle
    omega
  | case4 p q ps hkeeps ih =>
    rw [List.isChain_cons_cons, ← ih, unitsOfParts, List.flatMap_cons, unitsOfParts,
      List.flatMap_cons, List.append_cancel_left_eq]
    exact (and_iff_right (Bool.eq_false_iff.2 hkeeps)).symm

end LiteralPart

/-! ## The value -/

/-- A string literal of strict code is read as one string. The value has the code units of its
parts, but for a separator right behind a continuation by a carriage return. -/
theorem stringLiteral_units {quote : Char} (hquote : quote = '"' ∨ quote = '\x27')
    {ps : List LiteralPart} (h : partsFit quote ps) :
    ∃ value : Text, value.units16 = unitsOfParts (kept ps) ∧
      (value.units16 = unitsOfParts ps ↔
        ps.IsChain fun p q => (p.isReturn && q.isSeparator) = false) ∧
      ∀ before after, ReadAsString before (quoteParts quote ps) after value := by
  obtain ⟨hvalues, hunits⟩ := units16_items h
  refine ⟨(items ps).flatMap StringItem.text, hunits, hunits ▸ unitsOfParts_kept ps,
    fun before after => ?_⟩
  rw [quoteParts, ← spellItems_items]
  exact readAsString_quoteItems hquote before after (itemsFit_items hquote h) hvalues

theorem stringLiteral_units_mixedParts :
    let ps : List LiteralPart := [.raw 0x1F600, .single 'n', .plain 'q', .null, .byte ['4', 'a'],
      .unit ['D', '8', '3', 'd'], .unit ['d', 'e', '0', '0'],
      .codePoint ['0', '0', '1', 'F', '6', '0', '0'], .continuation ['\r', '\n'],
      .continuation ['\r'], .single '"', .plain '?', .raw '\u2028', .continuation ['\u2029'],
      .raw '\u2029']
    ∃ value : Text, ReadAsString "x = " (quoteParts '\x27' ps) ";" value ∧
      value.units16 = [0xD83D, 0xDE00, 0x0A, 0x71, 0x00, 0x4A, 0xD83D, 0xDE00, 0xD83D, 0xDE00, 0x22,
        0x3F, 0x2028, 0x2029] := by
  intro ps
  obtain ⟨value, -, hunits, hread⟩ :=
    @stringLiteral_units '\x27' (.inr rfl) ps (by decide)
  exact ⟨value, hread _ _, (hunits.2 (by decide)).trans (by decide)⟩

/-- A separator behind a continuation by a carriage return is lost. -/
theorem stringLiteral_units_separator :
    let ps : List LiteralPart := [.continuation ['\r'], .raw '\u2028']
    partsFit '"' ps ∧ unitsOfParts ps = [0x2028] ∧ Text.units16 [] ≠ unitsOfParts ps ∧
      ReadAsString "(" (quoteParts '"' ps) ");\n" [] := by
  intro ps
  refine ⟨by decide, by decide, by decide, ?_⟩
  exact @readAsString_quoteItems '"' [.escape ['\r', '\u2028']] (.inl rfl) _ _ ⟨rfl, trivial⟩
    fun i hi => by rw [List.mem_singleton.1 hi]; rfl

end RegistryScript
