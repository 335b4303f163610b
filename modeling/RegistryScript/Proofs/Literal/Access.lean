import Mathlib
import RegistryScript.Proofs.Literal.Values
import RegistryScript.Proofs.Registration.Exports
import RegistryScript.Proofs.Registration.Expressions
import RegistryScript.Proofs.Text.Name

/-! # Accesses read back

A property is written behind a dot if it is a name, and quoted in brackets otherwise. What a script
reads there is told by the tokens: the word behind the dot, or the value of the string.

* `Text.IsWord`, `readAs_word`: a word is read as one token in front of what does not go on with it.
* `accessed?`: the object and the property that a text accesses, by its tokens.
* `ReadsProperty`: the places where the code reads a property.
* `accessed?_readsProperty`: at each of them the property is read back, but for a line feed behind
  a name.
* `accessed?_lineFeed`: a property that is not read back.
-/

namespace RegistryScript
set_option autoImplicit false

open Grammar (Reading Token)

/-! ## Names -/

namespace CodePoint

variable {c : CodePoint}

theorem nameStart_spec (h : c.isNameStart = true) :
    Grammar.isWordStart c.toChar = true ∧ c.toChar.isDigit = false ∧ c.toChar ≠ '.' := by
  simp only [isNameStart, isLetter, Bool.or_eq_true, Bool.and_eq_true, decide_eq_true_eq] at h
  rcases h with ((⟨h1, h2⟩ | ⟨h1, h2⟩) | rfl) | rfl
  · obtain ⟨v, hv⟩ := c
    interval_cases v <;> decide +revert
  · obtain ⟨v, hv⟩ := c
    interval_cases v <;> decide +revert
  · decide
  · decide

theorem isWordPart_toChar (h : c.isNamePart = true) : Grammar.isWordPart c.toChar = true := by
  rw [isNamePart, Bool.or_eq_true] at h
  rcases h with h | h
  · rw [Grammar.isWordPart, (nameStart_spec h).1, Bool.true_or]
  · obtain ⟨v, hv⟩ := c
    simp only [isDigit, Bool.and_eq_true, decide_eq_true_eq] at h
    obtain ⟨h1, h2⟩ := h
    interval_cases v <;> decide +revert

end CodePoint

/-! ## Words -/

namespace Grammar

variable {c : Char} {cs rest : List Char} {k n : Nat}

def endsWord (cs : List Char) : Bool := cs.head?.all fun c => !isWordPart c && c ≠ '\\'

theorem unicodeEscapeLength?_append (h : unicodeEscapeLength? cs = some n) (rest : List Char) :
    n ≤ cs.length ∧ unicodeEscapeLength? (cs ++ rest) = some n := by
  unfold unicodeEscapeLength? at h
  split at h
  · next cs =>
    simp only at h
    split_ifs at h with hempty hclose
    obtain ⟨tail, htail⟩ : ∃ tail, cs.drop (cs.takeWhile isHex).length = '\x7d' :: tail :=
      List.head?_eq_some_iff.1 hclose
    have hcs : cs = cs.takeWhile isHex ++ '\x7d' :: tail := by
      rw [← htail]
      exact (List.prefix_iff_eq_append.1 (List.takeWhile_prefix isHex)).symm
    obtain rfl := Option.some.inj h
    have hlength := congrArg List.length hcs
    rw [List.length_append, List.length_cons] at hlength
    have happend : cs ++ rest = cs.takeWhile isHex ++ '\x7d' :: (tail ++ rest) :=
      (congrArg (· ++ rest) hcs).trans (List.append_assoc _ _ _)
    refine ⟨by simp only [List.length_cons]; omega, ?_⟩
    change unicodeEscapeLength? ('u' :: '\x7b' :: (cs ++ rest)) = _
    rw [happend]
    exact unicodeEscapeLength?_braces (fun d hd => List.mem_takeWhile_imp hd)
      (mt List.isEmpty_iff.2 hempty)
  · next a b c d tail hbrace =>
    split_ifs at h with hhex
    obtain rfl := Option.some.inj h
    exact ⟨by simp only [List.length_cons]; omega,
      escapeLength?_unicode (tail ++ rest) (List.all_eq_true.1 hhex)⟩
  · exact nomatch h

theorem wordLength_append (hrest : endsWord rest = true) (hk : k ≤ cs.length)
    (h : wordLength k cs = cs.length) : wordLength k (cs ++ rest) = cs.length := by
  -- an escape that was begun ends within the word, so the scan meets the rest outside of it
  fun_induction wordLength k cs with
  | case1 k =>
    obtain rfl : k = 0 := Nat.le_zero.1 hk
    cases rest with
    | nil => rfl
    | cons d rest =>
      obtain ⟨hpart, hbackslash⟩ := Bool.and_eq_true_iff.1 hrest
      rw [List.nil_append, wordLength, (Bool.not_eq_true' _).mp hpart, if_neg Bool.false_ne_true,
        if_neg (of_decide_eq_true hbackslash)]
      rfl
  | case2 k c cs ih =>
    rw [List.cons_append, wordLength, ih (Nat.le_of_succ_le_succ hk) (Nat.succ.inj h)]
    rfl
  | case3 c cs hpart ih =>
    rw [List.cons_append, wordLength, if_pos hpart, ih (Nat.zero_le _) (Nat.succ.inj h)]
    rfl
  | case4 cs n hn hpart ih =>
    obtain ⟨hle, happend⟩ := unicodeEscapeLength?_append hn rest
    rw [List.cons_append, wordLength, if_neg hpart, if_pos rfl, happend]
    simp only [ih hle (Nat.succ.inj h), List.length_cons]
  | case5 => exact nomatch h
  | case6 => exact nomatch h

def opensWord (c : Char) : Bool := isWordStart c || c = '\\'

theorem opensWord_of_isSpace (h : isSpace c = true) : opensWord c = false := by
  simp only [isSpace, Bool.or_eq_true, Bool.and_eq_true, decide_eq_true_eq] at h
  rcases h with ((((((((((rfl | rfl) | rfl) | rfl) | rfl) | rfl) | ⟨h1, h2⟩) | rfl) | rfl) | rfl) |
    rfl) | rfl
  on_goal 7 =>
    obtain ⟨v, hv, rfl⟩ : ∃ v, v = c.toNat ∧ Char.ofNat v = c := ⟨_, rfl, c.ofNat_toNat⟩
    have hlow : 0x2000 ≤ v := hv ▸ UInt32.le_iff_toNat_le.1 h1
    have hhigh : v ≤ 0x200B := hv ▸ UInt32.le_iff_toNat_le.1 h2
    clear hv h1 h2
    interval_cases v
  all_goals rfl

theorem startsToken_of_opensWord (h : opensWord c = true) : StartsToken (c :: cs) := by
  have hne {d : Char} (hd : opensWord d = false) : c ≠ d := by
    rintro rfl
    exact Bool.false_ne_true (hd.symm.trans h)
  have hline : endsLine c = false := by
    simp only [endsLine, Bool.or_eq_false_iff, decide_eq_false_iff_not]
    exact ⟨⟨⟨hne rfl, hne rfl⟩, hne rfl⟩, hne rfl⟩
  have hspace : isSpace c = false := by
    refine Bool.eq_false_iff.2 fun hspace => ?_
    rw [opensWord_of_isSpace hspace] at h
    exact Bool.false_ne_true h
  have hslash : c ≠ '/' := hne rfl
  intro newline offset
  rw [skipTrivia, hline, hspace, if_neg Bool.false_ne_true, if_neg Bool.false_ne_true,
    if_neg fun hand => hslash hand.1, if_neg fun hand => hslash hand.1]
  rfl

theorem scanToken_word (hopens : opensWord c = true)
    (hlength : wordLength 0 (c :: cs) = (c :: cs).length) (hrest : endsWord rest = true)
    (offset : Nat) :
    scanToken offset (c :: (cs ++ rest)) =
      some ⟨.word (Keyword.ofWord? (c :: cs)), byteSize (c :: cs), rest⟩ := by
  have hword : wordLength 0 (c :: (cs ++ rest)) = cs.length + 1 :=
    wordLength_append hrest (Nat.zero_le _) hlength
  have hstart : (isWordStart c || decide (c = '\\')) = true := hopens
  rw [scanToken, if_pos hstart]
  simp only [hword]
  rw [if_neg (Nat.succ_ne_zero _), Lexeme.ofLength, List.take_succ_cons, List.drop_succ_cons,
    List.take_left, List.drop_left]

theorem scan?_dot (hrest : ∀ d ∈ rest.head?, d ≠ '.') :
    Symbol.scan? ('.' :: rest) = some (.dot, rest) := by
  cases rest with
  | nil => rfl
  | cons d rest =>
    have hdot : ['.', '.'].isPrefixOf (d :: rest) = false :=
      Bool.and_eq_false_imp.2 fun heq => absurd (beq_iff_eq.1 heq).symm (hrest d rfl)
    have hlength : ".".length = 1 := rfl
    simp [Symbol.scan?, Symbol.scan?.find, Symbol.spellings, hdot, hlength]

theorem scanToken_symbol {symbol : Char} (h : symbol = '.' ∨ symbol = '[' ∨ symbol = ']')
    (hdigit : symbol = '.' → ∀ d ∈ rest.head?, d.isDigit = false) {s : Symbol}
    (hscan : Symbol.scan? (symbol :: rest) = some (s, rest)) (offset : Nat) :
    scanToken offset (symbol :: rest) = some ⟨.symbol s, 1, rest⟩ := by
  have hword : (isWordStart symbol || decide (symbol = '\\')) = false := by
    rcases h with rfl | rfl | rfl <;> rfl
  have hnumber : (symbol.isDigit || (decide (symbol = '.') && rest.head?.any Char.isDigit)) =
      false := by
    rcases h with rfl | rfl | rfl
    · cases rest with
      | nil => rfl
      | cons d rest => exact hdigit rfl d rfl
    · rfl
    · rfl
  have hquote : ¬(symbol = '"' ∨ symbol = '\x27') := by rcases h with rfl | rfl | rfl <;> decide
  have hhash : symbol ≠ '#' := by rcases h with rfl | rfl | rfl <;> decide
  rw [scanToken, hword, hnumber, if_neg Bool.false_ne_true, if_neg Bool.false_ne_true,
    if_neg hquote, if_neg hhash, hscan]
  change some _ = _
  rw [List.length_cons, Nat.add_sub_cancel_left]

theorem startsToken_symbol {symbol : Char} (h : symbol = '.' ∨ symbol = '[' ∨ symbol = ']')
    (cs : List Char) : StartsToken (symbol :: cs) := by
  intro newline offset
  rcases h with rfl | rfl | rfl <;> rfl

theorem byteSize_toChars (t : Text) : byteSize t.toChars = t.utf8Size := by
  have hfold (n : Nat) :
      t.toChars.foldl (fun size c => size + c.utf8Size) n = n + t.utf8Size := by
    induction t generalizing n with
    | nil => rfl
    | cons c t ih =>
      change (Text.toChars t).foldl _ (n + c.toChar.utf8Size) = _
      rw [ih, c.utf8Size_toChar, Text.utf8Size, Nat.add_assoc]
  exact (hfold 0).trans (Nat.zero_add _)

end Grammar

/-- A text is one word: a name or a keyword, perhaps with escapes. -/
def Text.IsWord (t : Text) : Prop :=
  t.toChars.head?.any Grammar.opensWord = true ∧ Grammar.wordLength 0 t.toChars = t.length

instance : DecidablePred Text.IsWord := fun t => inferInstanceAs (Decidable
  (t.toChars.head?.any Grammar.opensWord = true ∧ Grammar.wordLength 0 t.toChars = t.length))

theorem Text.isWord_of_isName {t : Text} (h : t.isName = true) : t.IsWord := by
  have hlength : ∀ {u : Text}, (∀ c ∈ u, c.isNamePart = true) →
      Grammar.wordLength 0 u.toChars = u.length := by
    intro u hu
    induction u with
    | nil => rfl
    | cons c u ih =>
      change Grammar.wordLength 0 (c.toChar :: Text.toChars u) = _
      rw [Grammar.wordLength, if_pos (CodePoint.isWordPart_toChar (hu c List.mem_cons_self)),
        ih fun d hd => hu d (List.mem_cons_of_mem c hd)]
      rfl
  refine ⟨?_, hlength fun c hc => isNamePart_of_isName h hc⟩
  cases t with
  | nil => exact nomatch h
  | cons c t =>
    have hstart := (CodePoint.nameStart_spec (Bool.and_eq_true_iff.1 h).1).1
    change Grammar.opensWord c.toChar = true
    rw [Grammar.opensWord, hstart, Bool.true_or]

/-! ## Tokens -/

section Tokens

variable {before t after : Text} {r : Reading}

theorem readAs_word (h : t.IsWord) (hafter : Grammar.endsWord after.toChars = true) :
    ReadAs before t after (.word (Grammar.Keyword.ofWord? t.toChars)) := by
  obtain ⟨hopens, hlength⟩ := h
  cases t with
  | nil => exact nomatch hopens
  | cons c t =>
    refine readAs_of_scanToken (Grammar.startsToken_of_opensWord hopens) ?_
    rw [Text.toChars_append, ← Grammar.byteSize_toChars (c :: t)]
    exact Grammar.scanToken_word hopens (hlength.trans (List.length_map _).symm) hafter _

theorem readAs_dot (h : ∀ d ∈ after.toChars.head?, d.isDigit = false ∧ d ≠ '.') :
    ReadAs before "." after (.symbol .dot) :=
  readAs_of_scanToken (Grammar.startsToken_symbol (.inl rfl) _)
    (Grammar.scanToken_symbol (.inl rfl) (fun _ d hd => (h d hd).1)
      (Grammar.scan?_dot fun d hd => (h d hd).2) _)

theorem readAs_openBracket : ReadAs before "[" after (.symbol .openBracket) :=
  readAs_of_scanToken (Grammar.startsToken_symbol (.inr (.inl rfl)) _)
    (Grammar.scanToken_symbol (.inr (.inl rfl)) (fun h => absurd h (by decide)) rfl _)

theorem readAs_closeBracket : ReadAs before "]" after (.symbol .closeBracket) :=
  readAs_of_scanToken (Grammar.startsToken_symbol (.inr (.inr rfl)) _)
    (Grammar.scanToken_symbol (.inr (.inr rfl)) (fun h => absurd h (by decide)) rfl _)

theorem anyWord_eq (kind : Kind) {keyword : Option Grammar.Keyword}
    (htoken : r.token = .word keyword) :
    Grammar.anyWord kind r =
      (Grammar.advance r).map fun p => ({ kind, start := r.start, stop := r.stop }, p.2) := by
  rw [Grammar.anyWord, current_bind, htoken]
  exact leaf_eq kind r

end Tokens

/-! ## Accesses -/

def accessedProperty? (s : Script) (mark second : Reading) : Option Text :=
  match mark.token, second.token with
  | .symbol .dot, .word _ =>
    (s.textOf { kind := .propertyIdentifier, start := second.start, stop := second.stop }).toOption
  | .symbol .openBracket, .string _ => do
    let (literal, last) ← Grammar.string second
    guard (last.token = .symbol .closeBracket)
    (s.stringValue literal).toOption
  | _, _ => none

/-- The object and the property that a text between two others accesses, by its tokens: a word, and
what stands behind it. -/
def accessed? (before code after : Text) : Option (Text × Text) := do
  let s := Script.ofTree (before ++ code ++ after) default
  let first ← Reading.next? before.utf8Size before.utf8Size false [] (code ++ after).toChars
  let (object, mark) ← Grammar.anyWord .identifier first
  let (_, second) ← Grammar.advance mark
  return (← (s.textOf object).toOption, ← accessedProperty? s mark second)

section Accesses

variable {before object name after : Text}

theorem exists_mark {symbol u : Text} {token : Token} (hobject : object.IsWord)
    (hends : Grammar.endsWord (symbol ++ (u ++ after)).toChars = true)
    (hsymbol : ReadAs (before ++ object) symbol (u ++ after) token) :
    ∃ mark, Stands mark token (before ++ object) symbol (u ++ after) ∧
      ∀ second, Grammar.advance mark = some ((), second) →
        accessed? before (object ++ symbol ++ u) after =
          (accessedProperty? (Script.ofTree (before ++ (object ++ symbol ++ u) ++ after) default)
            mark second).map (object, ·) := by
  have hread : ReadAs before object (symbol ++ (u ++ after)) _ := readAs_word hobject hends
  obtain ⟨first, hfirst, hstands⟩ := hread before.utf8Size false []
  obtain ⟨mark, hmark, hstandsMark⟩ := hsymbol.advance hstands.stop_eq hstands.rest_eq
  refine ⟨mark, hstandsMark, fun second hsecond => ?_⟩
  have hnode := anyWord_eq .identifier hstands.token_eq
  rw [hmark, Option.map_some, hstands.start_eq, hstands.stop_eq] at hnode
  have htext := Script.textOf_ofTree before object (symbol ++ u ++ after) default
    (n := { kind := .identifier, start := before.utf8Size,
            stop := before.utf8Size + object.utf8Size }) rfl (Text.utf8Size_append _ _).symm
  simp only [List.append_assoc] at hfirst htext ⊢
  simp only [accessed?, List.append_assoc, hfirst, hnode, hsecond, htext, Option.bind_eq_bind,
    Option.bind_some, Except.toOption]
  cases accessedProperty? _ mark second <;> rfl

theorem accessed?_dot (hobject : object.IsWord) (hname : name.isName = true)
    (hafter : Grammar.endsWord after.toChars = true) :
    accessed? before (object ++ "." ++ name) after = some (object, name) := by
  have hdot : ∀ d ∈ (name ++ after).toChars.head?, d.isDigit = false ∧ d ≠ '.' := by
    cases name with
    | nil => exact nomatch hname
    | cons c name =>
      intro d hd
      obtain rfl := Option.some.inj hd
      exact (CodePoint.nameStart_spec (Bool.and_eq_true_iff.1 hname).1).2
  have hsymbol : ReadAs (before ++ object) "." (name ++ after) _ := readAs_dot hdot
  have hread : ReadAs (before ++ object ++ ".") name after _ :=
    readAs_word (Text.isWord_of_isName hname) hafter
  obtain ⟨mark, hmark, haccess⟩ := exists_mark hobject rfl hsymbol
  obtain ⟨second, hsecond, hstands⟩ := hread.advance hmark.stop_eq hmark.rest_eq
  have htext := Script.textOf_ofTree (before ++ object ++ ".") name after default
    (n := { kind := .propertyIdentifier, start := second.start, stop := second.stop })
    hstands.start_eq (hstands.stop_eq.trans (Text.utf8Size_append _ _).symm)
  rw [haccess second hsecond, accessedProperty?, hmark.token_eq, hstands.token_eq]
  simp only [List.append_assoc] at htext ⊢
  simp only [htext, Except.toOption, Option.map_some]

theorem accessed?_brackets {literal value : Text} (hobject : object.IsWord)
    (hliteral : ReadAsString (before ++ object ++ "[") literal ("]" ++ after) value) :
    accessed? before (object ++ "[" ++ (literal ++ "]")) after = some (object, value) := by
  have hsymbol : ReadAs (before ++ object) "[" (literal ++ "]" ++ after) _ := readAs_openBracket
  obtain ⟨mark, hmark, haccess⟩ := exists_mark hobject rfl hsymbol
  obtain ⟨second, hnext, ⟨pieces, htoken⟩, hstart, hstop, hrest, node, hstring, hvalue⟩ :=
    hliteral mark.stop false mark.comments
  have hsecond : Grammar.advance mark = some ((), second) := by
    rw [Text.utf8Size_append, ← hmark.stop_eq, ← List.append_assoc, ← hmark.rest_eq] at hnext
    rw [Grammar.advance, hnext]
    rfl
  have hclose : ReadAs (before ++ object ++ "[" ++ literal) "]" after _ := readAs_closeBracket
  obtain ⟨last, hlast, hstands⟩ := hclose.advance hstop hrest
  rw [hlast, Option.map_some] at hstring
  have htext := hvalue default
  rw [haccess second hsecond, accessedProperty?, hmark.token_eq, htoken]
  simp only [List.append_assoc] at htext ⊢
  simp only [hstring, hstands.token_eq, htext, Except.toOption, Option.bind_eq_bind,
    Option.bind_some, guard]
  rfl

theorem accessed?_append (code u : Text) :
    accessed? before (code ++ u) after = accessed? before code (u ++ after) := by
  simp only [accessed?, List.append_assoc]

end Accesses

/-! ## Places -/

/-- The places where the code reads a property: the code that stands there, the object and the name
of the property. -/
inductive ReadsProperty : Text → Text → Text → Prop
  | access (object name : Text) : ReadsProperty (memberAccess object name) object name
  | imported {b : ImportBinding} {name : Text} (h : b.importedName = some name) :
      ReadsProperty b.expression b.recordId name
  | forwarded {s : Script} {id exported code : Text} {specifier : Node} {names : Node × Node}
      {d d' : Draft} (hnames : specifier.specifierNames? = some names)
      (h : Succeeds (registerSpecifier s (some id) specifier) d () d')
      (hlive : d'.exports = d.exports ++ [.live exported code]) :
      ReadsProperty code id (s.exportNameAt names.1)

section Places

variable {code object name after : Text}

theorem ReadsProperty.eq_memberAccess (h : ReadsProperty code object name) :
    code = memberAccess object name := by
  cases h with
  | access => rfl
  | imported h => rw [ImportBinding.expression, h]
  | @forwarded s _ exported _ specifier names d d' hnames h hlive =>
    obtain ⟨-, hexports, -⟩ := queues_registerSpecifier (some object) specifier d () d' h
    rw [hlive, hnames] at hexports
    have hlast := List.append_cancel_left hexports
    exact (Export.live.inj (List.cons.inj hlast).1).2

/-- Wherever the code reads a property, the property stands behind a dot or quoted in brackets, and
is read back as it is. Only if it is a name with a line feed behind it, the name is read. -/
theorem accessed?_readsProperty (h : ReadsProperty code object name) (hobject : object.IsWord)
    (before : Text) (hafter : Grammar.endsWord after.toChars = true) :
    (name.isName = true ∧ code = object ++ "." ++ name ∧
        accessed? before code after = some (object, name)) ∨
      (∃ m : Text, m.isName = true ∧ name = m ++ "\n" ∧ code = object ++ "." ++ name ∧
        accessed? before code after = some (object, m)) ∨
      (name.isNameLine = false ∧ code = object ++ "[" ++ name.quote ++ "]" ∧
        ∃ value : Text, value.units16 = name.units16 ∧
          accessed? before code after = some (object, value)) := by
  obtain rfl := h.eq_memberAccess
  by_cases hline : name.isNameLine = true
  · rw [memberAccess, if_pos hline]
    rcases Text.isNameLine_iff.1 hline with hname | ⟨m, hm, rfl⟩
    · exact .inl ⟨hname, rfl, accessed?_dot hobject hname hafter⟩
    · refine .inr (.inl ⟨m, hm, rfl, rfl, ?_⟩)
      rw [← List.append_assoc, accessed?_append]
      exact accessed?_dot hobject hm rfl
  · rw [memberAccess, if_neg hline]
    have hportable : ∀ i ∈ name.quotedItems, i.IsPortable := fun i hi => Text.isPortable_of_mem hi
    refine .inr (.inr ⟨Bool.eq_false_iff.2 hline, rfl, name.quotedItems.flatMap StringItem.text,
      name.units16_quotedItems, ?_⟩)
    rw [List.append_assoc, Text.quote_eq]
    exact accessed?_brackets hobject (readAsString_quoteItems (.inl rfl) _ _
      (itemsFit_of_isPortable hportable _) fun i hi => (hportable i hi).value)

theorem accessed?_readsProperty_stringName :
    let b : ImportBinding := ⟨"x", "__import_1__", "./m.js", some ['a', ' ', 0x1F600]⟩
    ∃ value : Text, value.units16 = [0x61, 0x20, 0xD83D, 0xDE00] ∧
      accessed? "f(" b.expression ")" = some (("__import_1__" : Text), value) := by
  intro b
  have hobject : Text.IsWord "__import_1__" := by decide
  have hafter : Grammar.endsWord (Text.toChars ")") = true := by decide
  rcases accessed?_readsProperty (.imported (b := b) rfl) hobject "f(" hafter with
    ⟨hname, -⟩ | ⟨m, -, hname, -⟩ | ⟨-, -, value, hunits, hread⟩
  · exact absurd hname (by decide)
  · have hend : ('\n' : CodePoint) ∈ (['a', ' ', 0x1F600] : Text) :=
      hname ▸ List.mem_append_right m List.mem_cons_self
    exact absurd hend (by decide)
  · exact ⟨value, hunits.trans (by decide), hread⟩

/-- A name with a line feed behind it is read without the line feed. -/
theorem accessed?_lineFeed :
    let name : Text := ['a', '\n']
    Text.IsWord "r" ∧ memberAccess "r" name = "r.a\n" ∧
      accessed? [] (memberAccess "r" name) [] = some (("r" : Text), ("a" : Text)) ∧
      Text.units16 "a" ≠ Text.units16 name := by
  decide

end Places

end RegistryScript
