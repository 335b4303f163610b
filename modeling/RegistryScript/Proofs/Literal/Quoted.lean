import Mathlib
import RegistryScript.Pass.Envelope
import RegistryScript.Proofs.Faults.Escape
import RegistryScript.Proofs.Literal.Items
import RegistryScript.Proofs.Pass.Passes

/-! # Quoted texts read back

Texts are quoted by one rule and read back by another one: the literal of a text is made of items
that the scanner reads one by one, and the escape sequences among them denote the code units of
the text.

* `codePointOfDigits_hex4`: four digits denote the number they are made from.
* `StringItem.IsPortable`: an item that can stand anywhere in a literal of printable ASCII.
* `CodePoint.quotedItems`, `CodePoint.quoted_eq`: the items that a code point is quoted as.
* `CodePoint.isPortable_of_mem`, `CodePoint.units16_quotedItems`: they are of that kind, and denote
  the code units of the code point.
* `Text.quote_eq`, `Text.units16_quotedItems`: the same of a text.
* `Quotes`: the places where a text is quoted.
* `Quotes.literal_reads_back`: at each of them there is one string literal, and its value has the
  code units of the text.
-/

namespace RegistryScript
set_option autoImplicit false

/-! ## Four digits -/

section Digits

variable {n : Nat}

theorem hexDigit_spec (h : n < 0x10) :
    (hexDigit n).isHexadecimal = true ∧ (hexDigit n).hexadecimalDigit? = some n ∧
      isHex (hexDigit n).toChar = true ∧ 0x20 ≤ (hexDigit n).val ∧ (hexDigit n).val ≤ 0x7E := by
  interval_cases n <;> decide

theorem hex4_spec {c : CodePoint} (h : c ∈ hex4 n) :
    c.isHexadecimal = true ∧ isHex c.toChar = true ∧ 0x20 ≤ c.val ∧ c.val ≤ 0x7E := by
  obtain ⟨m, hm, rfl⟩ : ∃ m < 0x10, c = hexDigit m := by
    simp only [hex4, List.mem_cons, List.not_mem_nil, or_false] at h
    rcases h with rfl | rfl | rfl | rfl <;> exact ⟨_, Nat.mod_lt _ (by decide), rfl⟩
  exact ⟨(hexDigit_spec hm).1, (hexDigit_spec hm).2.2⟩

theorem numeral_hex4 (h : n < 0x10000) : Text.numeral 0 (hex4 n) = n := by
  have hdigit (m : Nat) : (hexDigit (m % 0x10)).hexadecimalDigit? = some (m % 0x10) :=
    (hexDigit_spec (Nat.mod_lt m (by decide))).2.1
  simp only [Text.numeral, hex4, List.foldl_cons, List.foldl_nil, hdigit, Option.getD_some]
  omega

theorem codePointOfDigits_hex4 (h : n < 0x10000) :
    codePointOfDigits (hex4 n) = .ok ⟨n, by omega⟩ := by
  have hlt : Text.numeral 0 (hex4 n) < 0x110000 := by
    rw [numeral_hex4 h]
    omega
  rw [codePointOfDigits_eq (fun c hc => (hex4_spec hc).1) (List.cons_ne_nil _ _) hlt]
  exact congrArg Except.ok (Fin.ext (numeral_hex4 h))

end Digits

/-! ## Items -/

/-- An item that is read as one between double quotes whatever follows it, that denotes a text and
is written in printable ASCII. -/
structure StringItem.IsPortable (i : StringItem) : Prop where
  fits : ∀ cs, i.Fits '"' cs
  value : i.value = .ok i.text
  printable : ∀ c ∈ i.spelling, 0x20 ≤ c.val ∧ c.val ≤ 0x7E

def StringItem.ofUnit (unit : Nat) : StringItem := .escape ('u' :: hex4 unit)

theorem escapeLength?_unicode {a b c d : Char} (cs : List Char)
    (h : ∀ digit ∈ [a, b, c, d], isHex digit = true) :
    Grammar.escapeLength? ('u' :: a :: b :: c :: d :: cs) = some 5 := by
  have hbrace : a ≠ '\x7b' := by
    rintro rfl
    exact absurd (h _ List.mem_cons_self) (by decide)
  change Grammar.unicodeEscapeLength? ('u' :: a :: b :: c :: d :: cs) = some 5
  rw [Grammar.unicodeEscapeLength?, if_pos (List.all_eq_true.2 h)]
  exact hbrace

theorem StringItem.value_ofUnit {n : Nat} (h : n < 0x10000) :
    (StringItem.ofUnit n).value = .ok [⟨n, by omega⟩] := by
  have hbrace : hexDigit (n / 0x1000 % 0x10) ≠ '\x7b' := by
    intro heq
    obtain ⟨hdigit, -⟩ := hexDigit_spec (Nat.mod_lt (n / 0x1000) (show 0x10 > 0 by decide))
    rw [heq] at hdigit
    exact absurd hdigit (by decide)
  change decodeEscapeBody ('u' :: hexDigit (n / 0x1000 % 0x10) :: (hex4 n).tail) = _
  rw [decodeEscapeBody, if_neg fun hand => hbrace hand.2, if_pos (.inl rfl)]
  change (do return [← codePointOfDigits (hex4 n)]) = _
  rw [codePointOfDigits_hex4 h]
  rfl

theorem StringItem.isPortable_ofUnit {n : Nat} (h : n < 0x10000) :
    (StringItem.ofUnit n).IsPortable where
  fits cs := by
    refine escapeLength?_unicode cs fun digit hdigit => ?_
    obtain ⟨c, hc, rfl⟩ : ∃ c ∈ hex4 n, c.toChar = digit := List.mem_map.1 hdigit
    exact (hex4_spec hc).2.1
  value := by rw [StringItem.text, value_ofUnit h]; rfl
  printable c hc := by
    rcases List.mem_cons.1 hc with rfl | hc
    · decide
    rcases List.mem_cons.1 hc with rfl | hc
    · decide
    exact (hex4_spec hc).2.2

namespace CodePoint

def escapeLetter? (c : CodePoint) : Option CodePoint :=
  if c = '"' then some '"'
  else if c = '\\' then some '\\'
  else if c = '\n' then some 'n'
  else if c = '\r' then some 'r'
  else if c = '\t' then some 't'
  else if c = '\x08' then some 'b'
  else if c = '\x0C' then some 'f'
  else none

def quotedItems (c : CodePoint) : List StringItem :=
  match c.escapeLetter? with
  | some letter => [.escape [letter]]
  | none =>
    if 0x20 ≤ c.val ∧ c.val ≤ 0x7E then [.raw c] else c.units16.map StringItem.ofUnit

variable {c letter : CodePoint}

theorem quoted_eq (c : CodePoint) : c.quoted = spellItems c.quotedItems := by
  have hunits : c.units16.flatMap unitEscape = spellItems (c.units16.map StringItem.ofUnit) := by
    rw [spellItems, List.flatMap_map]
    rfl
  simp only [quoted, quotedItems, escapeLetter?, hunits]
  split_ifs <;> rfl

theorem escapeLetter_spec (h : c.escapeLetter? = some letter) :
    decodeEscapeBody [letter] = .ok [c] ∧
      (∀ cs, Grammar.escapeLength? (letter.toChar :: cs) = some 1) ∧
      0x20 ≤ letter.val ∧ letter.val ≤ 0x7E := by
  simp only [escapeLetter?] at h
  split_ifs at h
  all_goals
    obtain rfl := Option.some.inj h
    subst c
    exact ⟨rfl, fun _ => rfl, by decide, by decide⟩

theorem text_escapeLetter (h : c.escapeLetter? = some letter) :
    StringItem.text (.escape [letter]) = [c] := by
  rw [StringItem.text, StringItem.value, (escapeLetter_spec h).1]
  rfl

theorem isPortable_escapeLetter (h : c.escapeLetter? = some letter) :
    StringItem.IsPortable (.escape [letter]) where
  fits cs := (escapeLetter_spec h).2.1 cs
  value := by rw [text_escapeLetter h]; exact (escapeLetter_spec h).1
  printable d hd := by
    rcases List.mem_pair.1 hd with rfl | rfl
    · decide
    · exact (escapeLetter_spec h).2.2

theorem toNat_toChar_of_printable (h : 0x20 ≤ c.val ∧ c.val ≤ 0x7E) : c.toChar.toNat = c.val := by
  refine toNat_toChar ?_
  simp only [isSurrogate, Bool.and_eq_false_iff, decide_eq_false_iff_not]
  omega

theorem toChar_ne_of_printable (h : 0x20 ≤ c.val ∧ c.val ≤ 0x7E) {d : Char}
    (hd : d.toNat < 0x20 ∨ 0x7E < d.toNat) : c.toChar ≠ d := by
  rintro rfl
  rw [toNat_toChar_of_printable h] at hd
  omega

theorem endsLine_toChar (h : 0x20 ≤ c.val ∧ c.val ≤ 0x7E) :
    Grammar.endsLine c.toChar = false := by
  simp only [Grammar.endsLine, Bool.or_eq_false_iff, decide_eq_false_iff_not, and_assoc]
  refine ⟨?_, ?_, ?_, ?_⟩ <;> exact toChar_ne_of_printable h (by decide)

theorem isPortable_raw (hnone : c.escapeLetter? = none) (h : 0x20 ≤ c.val ∧ c.val ≤ 0x7E) :
    StringItem.IsPortable (.raw c) where
  fits cs := by
    have hne {d : Char} (hd : c ≠ d) : c.toChar ≠ d := by
      rintro rfl
      exact hd (Fin.ext (toNat_toChar_of_printable h).symm)
    have hquote : c ≠ '"' := by rintro rfl; exact absurd hnone (by decide)
    have hbackslash : c ≠ '\\' := by rintro rfl; exact absurd hnone (by decide)
    exact ⟨hne hquote, toChar_ne_of_printable h (by decide), toChar_ne_of_printable h (by decide),
      hne hbackslash⟩
  value := rfl
  printable d hd := by rwa [List.mem_singleton.1 hd]

theorem lt_of_mem_units16 {n : Nat} (h : n ∈ c.units16) : n < 0x10000 := by
  have hc := c.isLt
  rw [units16] at h
  split_ifs at h
  · rwa [List.mem_singleton.1 h]
  · rcases List.mem_pair.1 h with hn | hn <;> omega

/-- The items of a code point are read as items whatever follows. -/
theorem isPortable_of_mem {i : StringItem} (h : i ∈ c.quotedItems) : i.IsPortable := by
  rw [quotedItems] at h
  split at h
  · next letter hletter =>
    rw [List.mem_singleton.1 h]
    exact isPortable_escapeLetter hletter
  · next hnone =>
    split_ifs at h with hrange
    · rw [List.mem_singleton.1 h]
      exact isPortable_raw hnone hrange
    · obtain ⟨n, hn, rfl⟩ := List.mem_map.1 h
      exact StringItem.isPortable_ofUnit (lt_of_mem_units16 hn)

theorem units16_quotedItems (c : CodePoint) :
    Text.units16 (c.quotedItems.flatMap StringItem.text) = c.units16 := by
  rw [quotedItems]
  split
  · next letter hletter =>
    rw [List.flatMap_singleton, text_escapeLetter hletter]
    exact List.flatMap_singleton _ _
  · split_ifs
    · exact List.flatMap_singleton _ _
    · have hunit : ∀ n ∈ c.units16, Text.units16 (StringItem.ofUnit n).text = [n] := by
        intro n hn
        have hlt := lt_of_mem_units16 hn
        rw [StringItem.text, StringItem.value_ofUnit hlt]
        change [(⟨n, by omega⟩ : CodePoint)].flatMap units16 = [n]
        rw [List.flatMap_singleton, units16, if_pos hlt]
      rw [List.flatMap_map, Text.units16, List.flatMap_assoc]
      exact (List.flatMap_congr hunit).trans (List.flatMap_singleton' _)

end CodePoint

/-! ## Texts -/

theorem itemsFit_of_isPortable {items : List StringItem} (h : ∀ i ∈ items, i.IsPortable)
    (rest : List Char) : itemsFit '"' rest items := by
  induction items with
  | nil => trivial
  | cons i items ih =>
    exact ⟨(h i List.mem_cons_self).fits _, ih fun j hj => h j (List.mem_cons_of_mem i hj)⟩

namespace Text

def quotedItems (t : Text) : List StringItem := t.flatMap CodePoint.quotedItems

variable {t : Text}

theorem isPortable_of_mem {i : StringItem} (h : i ∈ t.quotedItems) : i.IsPortable := by
  obtain ⟨c, -, hi⟩ := List.mem_flatMap.1 h
  exact CodePoint.isPortable_of_mem hi

theorem quote_eq (t : Text) : t.quote = quoteItems '"' t.quotedItems := by
  have hspelling : spellItems t.quotedItems = t.flatMap CodePoint.quoted := by
    rw [quotedItems, spellItems, List.flatMap_assoc]
    exact List.flatMap_congr fun c _ => c.quoted_eq.symm
  rw [quoteItems, hspelling]
  rfl

theorem units16_quotedItems (t : Text) :
    units16 (t.quotedItems.flatMap StringItem.text) = t.units16 := by
  rw [quotedItems, units16, units16, List.flatMap_assoc, List.flatMap_assoc]
  refine List.flatMap_congr fun c _ => ?_
  rw [← List.flatMap_assoc]
  exact c.units16_quotedItems

theorem printable_of_mem_quote {c : CodePoint} (h : c ∈ t.quote) : 0x20 ≤ c.val ∧ c.val ≤ 0x7E := by
  have hquote : c = '"' → 0x20 ≤ c.val ∧ c.val ≤ 0x7E := by
    rintro rfl
    decide
  rw [quote_eq, quoteItems, List.mem_append, List.mem_cons, List.mem_singleton] at h
  rcases h with (h | h) | h
  · exact hquote h
  · obtain ⟨i, hi, hc⟩ := List.mem_flatMap.1 h
    exact (isPortable_of_mem hi).printable c hc
  · exact hquote h

end Text

/-! ## Places -/

/-- The places where a text is quoted: the code that stands there, and the text. -/
inductive Quotes : Text → Text → Prop
  | moduleId (names : Settings) (id : Text) (imports : ImportTable) :
      Quotes (renderHeader names id imports) id
  | importKey (names : Settings) (id : Text) {imports : ImportTable} {record : Text × Text}
      (h : record ∈ imports.records) :
      Quotes (renderHeader names id imports) (registryKey record.1)
  /-- The key of a module that is imported dynamically, instead of its specifier. -/
  | dynamicKey {s : Script} {names : Settings} {call argument : Node} {ofCallee : Edit}
      {start stop : Int} {code : Text} (hargument : call.callArguments = [argument])
      (h : redirectEdits s names call = [ofCallee, .replace start stop code]) :
      Quotes code (registryKey (s.stringAt argument))
  | stylesheet (names : Settings) (exports : List Export) {css : Text} (h : css ≠ []) :
      Quotes (renderTrailer names exports (.text css)) css
  | exportedName (names : Settings) {exports : List Export} (css : Value) {name expression : Text}
      (h : .live name expression ∈ exports) :
      Quotes (renderTrailer names exports css) name
  | property (object : Text) {name : Text} (h : name.isNameLine = false) :
      Quotes (memberAccess object name) name

section Places

variable {names : Settings} {t code : Text}

theorem isInfix_join_of_mem (separator : Text) {ts : List Text} (h : t ∈ ts) :
    t <:+: Text.join separator ts := by
  induction ts with
  | nil => exact absurd h List.not_mem_nil
  | cons u ts ih =>
    cases ts with
    | nil => rw [List.mem_singleton.1 h]; exact List.infix_rfl
    | cons u' ts =>
      rcases List.mem_cons.1 h with rfl | h
      · exact ⟨[], separator ++ Text.join separator (u' :: ts), (List.append_assoc _ _ _).symm⟩
      · exact (ih h).trans (List.suffix_append _ _).isInfix

theorem isInfix_renderHeader {id line : Text} {imports : ImportTable}
    (h : line ∈ setupLines names id ++ imports.records.map (renderLookup names)) :
    line <:+: renderHeader names id imports :=
  (isInfix_join_of_mem _ h).trans (List.prefix_append _ _).isInfix

theorem isInfix_renderTrailer {exports : List Export} {css : Value} {part : Text}
    (h : part ∈ trailerParts names exports css) : part <:+: renderTrailer names exports css := by
  rw [renderTrailer]
  split
  · next hnil =>
    rw [hnil] at h
    exact absurd h List.not_mem_nil
  · exact (isInfix_join_of_mem _ h).trans (List.infix_append _ _ _)

theorem Quotes.isInfix (h : Quotes code t) : t.quote <:+: code := by
  cases h with
  | moduleId names id imports =>
    refine List.IsInfix.trans ?_ (isInfix_renderHeader (List.mem_append_left _
      (List.getLast_mem (l := setupLines names t) (List.cons_ne_nil _ _))))
    exact List.infix_append _ _ _
  | @importKey names id imports record h =>
    refine List.IsInfix.trans ?_ (isInfix_renderHeader (List.mem_append_right _
      (List.mem_map_of_mem h)))
    exact List.infix_append _ _ _
  | @dynamicKey s names call argument ofCallee start stop _ hargument h =>
    rw [redirectEdits, hargument] at h
    cases hcallee : call.child? .function with
    | none =>
      rw [hcallee] at h
      exact nomatch h
    | some callee =>
      rw [hcallee] at h
      simp only at h
      split_ifs at h
      obtain ⟨-, hkey⟩ := List.cons.inj h
      obtain ⟨-, -, rfl⟩ := Edit.replace.inj (List.cons.inj hkey).1
      exact List.infix_rfl
  | stylesheet names exports h =>
    have hpart : names.host ++ "." ++ names.stylesheetProperty ++ " += " ++ t.quote ∈
        trailerParts names exports (.text t) := by
      have htruthy : (Value.text t).isTruthy = true := by simpa [Value.isTruthy] using h
      rw [trailerParts, if_pos htruthy]
      exact List.mem_append_left _ (List.mem_append_right _ List.mem_cons_self)
    exact (List.suffix_append _ _).isInfix.trans (isInfix_renderTrailer hpart)
  | @exportedName names exports css name expression h =>
    refine List.IsInfix.trans ?_ (isInfix_renderTrailer (List.mem_append_left _
      (List.mem_append_left _ (List.mem_map_of_mem h))))
    refine ⟨names.exportHelper ++ "(" ++ names.moduleBinding ++ ", ",
      ", () => " ++ expression ++ ")", ?_⟩
    simp only [Export.render, List.append_assoc]
  | property object h =>
    rw [memberAccess, h, if_neg Bool.false_ne_true]
    exact List.infix_append _ _ _

/-- Wherever a text is quoted, and whatever surrounds the code there, the literal is printable ASCII
without a line end, its items are read one by one up to the closing quote, and it is read as one
string, whose value has the code units of the text. -/
theorem Quotes.literal_reads_back (h : Quotes code t) :
    ∃ before after, code = before ++ t.quote ++ after ∧
      (∀ c ∈ t.quote, c.isAscii = true ∧ Grammar.endsLine c.toChar = false) ∧
      (∃ items, t.quote = quoteItems '"' items ∧ ∀ rest, itemsFit '"' rest items) ∧
      ∃ value, Text.units16 value = t.units16 ∧
        ∀ front back, ReadAsString (front ++ before) t.quote (after ++ back) value := by
  obtain ⟨before, after, hcode⟩ := h.isInfix
  have hportable : ∀ i ∈ t.quotedItems, i.IsPortable := fun i hi => Text.isPortable_of_mem hi
  refine ⟨before, after, hcode.symm, fun c hc => ?_,
    ⟨t.quotedItems, t.quote_eq, itemsFit_of_isPortable hportable⟩,
    t.quotedItems.flatMap StringItem.text, t.units16_quotedItems, fun front back => ?_⟩
  · have hprintable := Text.printable_of_mem_quote hc
    exact ⟨decide_eq_true (by omega), CodePoint.endsLine_toChar hprintable⟩
  · rw [Text.quote_eq]
    exact readAsString_quoteItems (.inl rfl) _ _ (itemsFit_of_isPortable hportable _)
      fun i hi => (hportable i hi).value

theorem literal_reads_back_property :
    let name : Text := ['"', '\\', '\x7F', 0xD83D, 0x1F600]
    name.isNameLine = false ∧ ∃ before after value,
      memberAccess "r" name = before ++ name.quote ++ after ∧
      Text.units16 value = [0x22, 0x5C, 0x7F, 0xD83D, 0xD83D, 0xDE00] ∧
      ReadAsString before name.quote after value := by
  intro name
  have hname : name.isNameLine = false := by decide
  obtain ⟨before, after, hcode, -, -, value, hunits, hread⟩ :=
    Quotes.literal_reads_back (.property "r" hname)
  exact ⟨hname, before, after, value, hcode, hunits.trans (by decide), by simpa using hread [] []⟩

end Places

end RegistryScript
