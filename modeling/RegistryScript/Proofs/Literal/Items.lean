import Mathlib
import RegistryScript.Grammar.Parser
import RegistryScript.Proofs.Script.Span
import RegistryScript.Syntax.Literal

/-! # The items of a string literal

Between its quotes a string literal is a list of items: code points that stand for themselves, and
escape sequences. The scanner keeps the spans of the escape sequences and of the runs of other code
points between them.

* `StringItem`, `itemsFit`: the items of a literal, each of them read as one in front of the next.
* `stringPieces_spelling`, `scanToken_literal`: a literal is read as one string, its pieces being
  those of the items.
* `Spells`, `Spells.push`, `Spells.pushAll`: pieces that stand for a text; with one item more, and
  with all items of a literal.
* `ReadAs`, `readAs_of_scanToken`, `ReadAs.advance`: a text that is read as one token between two
  others, and the text behind it.
* `stringValue_literalNode`: the value of a literal is that of its items, wherever the literal
  stands in a text.
-/

namespace RegistryScript
set_option autoImplicit false

open Grammar (Piece)

/-! ## Sizes -/

namespace CodePoint

theorem toNat_toChar {c : CodePoint} (h : c.isSurrogate = false) : c.toChar.toNat = c.val := by
  have hrange : ¬(0xD800 ≤ c.val ∧ c.val ≤ 0xDFFF) := by simpa [isSurrogate] using h
  have hvalid : Nat.isValidChar c.val := by
    have hc := c.isLt
    rw [Nat.isValidChar]
    omega
  rw [toChar, h, if_neg Bool.false_ne_true, Char.toNat_ofNat, if_pos hvalid]

theorem utf8Size_toChar (c : CodePoint) : c.toChar.utf8Size = c.utf8Size := by
  by_cases hs : c.isSurrogate = true
  · have hrange : 0xD800 ≤ c.val ∧ c.val ≤ 0xDFFF := by simpa [isSurrogate] using hs
    rw [toChar, if_pos hs, utf8Size, if_neg (by omega), if_neg (by omega), if_pos (by omega)]
    rfl
  · have hval : c.toChar.val.toNat = c.val := toNat_toChar (Bool.eq_false_iff.2 hs)
    rw [Char.utf8Size]
    simp only [UInt32.le_iff_toNat_le, hval, UInt32.toNat_ofNatLT, utf8Size]
    split_ifs <;> omega

end CodePoint

namespace Text

@[simp] theorem utf8Size_append (t u : Text) : utf8Size (t ++ u) = t.utf8Size + u.utf8Size := by
  induction t with
  | nil => exact (Nat.zero_add _).symm
  | cons c t ih => rw [List.cons_append, utf8Size, utf8Size, ih, Nat.add_assoc]

@[simp] theorem toChars_append (t u : Text) : toChars (t ++ u) = t.toChars ++ u.toChars :=
  List.map_append

end Text

/-! ## Items -/

inductive StringItem
  | raw (c : CodePoint)
  | escape (body : Text)
deriving DecidableEq, Repr

namespace StringItem

def spelling : StringItem → Text
  | .raw c => [c]
  | .escape body => '\\' :: body

def value : StringItem → Except EscapeError Text
  | .raw c => .ok [c]
  | .escape body => decodeEscapeBody body

/-- An item is read as one in front of the given characters: a code point other than the quote, the
backslash and the line ends, or a backslash that begins an escape sequence of the given length. -/
def Fits (quote : Char) (following : List Char) : StringItem → Prop
  | .raw c => c.toChar ≠ quote ∧ c.toChar ≠ '\n' ∧ c.toChar ≠ '\r' ∧ c.toChar ≠ '\\'
  | .escape body => Grammar.escapeLength? (body.toChars ++ following) = some body.length

def push (offset : Nat) (pieces : List Piece) : StringItem → List Piece
  | .raw c => Grammar.extendRaw offset c.utf8Size pieces
  | .escape body => ⟨true, offset, offset + 1 + body.utf8Size⟩ :: pieces

end StringItem

def spellItems (items : List StringItem) : Text := items.flatMap StringItem.spelling

@[simp] theorem spellItems_nil : spellItems [] = [] := rfl

@[simp] theorem spellItems_cons (i : StringItem) (items : List StringItem) :
    spellItems (i :: items) = i.spelling ++ spellItems items := rfl

/-- Each item of a literal is read as one, the given characters standing behind the quote. -/
def itemsFit (quote : Char) (rest : List Char) : List StringItem → Prop
  | [] => True
  | i :: items =>
    i.Fits quote ((spellItems items).toChars ++ quote :: rest) ∧ itemsFit quote rest items

def pushItems : Nat → List Piece → List StringItem → List Piece
  | _, pieces, [] => pieces
  | offset, pieces, i :: items =>
    pushItems (offset + i.spelling.utf8Size) (i.push offset pieces) items

def itemPieces (offset : Nat) (items : List StringItem) : List Piece :=
  (pushItems offset [] items).reverse

/-! ## Scanning -/

section Scanning

variable {quote : Char} {offset : Nat} {pieces : List Piece}

theorem stringPieces_skip (start : Nat) (body : Text) (cs : List Char) :
    Grammar.stringPieces quote body.length offset (⟨true, start, offset⟩ :: pieces)
        (body.toChars ++ cs) =
      Grammar.stringPieces quote 0 (offset + body.utf8Size)
        (⟨true, start, offset + body.utf8Size⟩ :: pieces) cs := by
  induction body generalizing offset with
  | nil => rfl
  | cons c body ih =>
    change Grammar.stringPieces quote body.length (offset + c.toChar.utf8Size)
      (⟨true, start, offset + c.toChar.utf8Size⟩ :: pieces) (Text.toChars body ++ cs) = _
    rw [ih, c.utf8Size_toChar, Text.utf8Size, Nat.add_assoc]

theorem stringPieces_item {i : StringItem} {cs : List Char} (hquote : quote ≠ '\\')
    (h : i.Fits quote cs) :
    Grammar.stringPieces quote 0 offset pieces (i.spelling.toChars ++ cs) =
      Grammar.stringPieces quote 0 (offset + i.spelling.utf8Size) (i.push offset pieces) cs := by
  cases i with
  | raw c =>
    obtain ⟨hq, hn, hr, hb⟩ := h
    change Grammar.stringPieces quote 0 offset pieces (c.toChar :: cs) = _
    rw [Grammar.stringPieces, if_neg hq, if_neg (not_or.2 ⟨hn, hr⟩), if_neg hb, c.utf8Size_toChar]
    rfl
  | escape body =>
    have hlength : Grammar.escapeLength? (body.toChars ++ cs) = some body.length := h
    change Grammar.stringPieces quote 0 offset pieces ('\\' :: (body.toChars ++ cs)) = _
    rw [Grammar.stringPieces, if_neg hquote.symm, if_neg (by decide), if_pos rfl, hlength]
    simp only [stringPieces_skip]
    rw [StringItem.spelling, Text.utf8Size, ← Nat.add_assoc]
    rfl

theorem stringPieces_spelling {items : List StringItem} {rest : List Char} (hquote : quote ≠ '\\')
    (h : itemsFit quote rest items) :
    Grammar.stringPieces quote 0 offset pieces ((spellItems items).toChars ++ quote :: rest) =
      some ((pushItems offset pieces items).reverse, offset + (spellItems items).utf8Size + 1,
        rest) := by
  induction items generalizing offset pieces with
  | nil =>
    change Grammar.stringPieces quote 0 offset pieces (quote :: rest) = _
    rw [Grammar.stringPieces, if_pos rfl]
    rfl
  | cons i items ih =>
    rw [spellItems_cons, Text.toChars_append, List.append_assoc, stringPieces_item hquote h.1,
      ih h.2, Text.utf8Size_append, ← Nat.add_assoc]
    rfl

theorem scanToken_literal {items : List StringItem} {rest : List Char}
    (hquote : quote = '"' ∨ quote = '\x27') (h : itemsFit quote rest items) :
    Grammar.scanToken offset (quote :: ((spellItems items).toChars ++ quote :: rest)) =
      some ⟨.string (itemPieces (offset + 1) items), (spellItems items).utf8Size + 2, rest⟩ := by
  have hne : quote ≠ '\\' := by rcases hquote with rfl | rfl <;> decide
  have hword : (Grammar.isWordStart quote || decide (quote = '\\')) = false := by
    rcases hquote with rfl | rfl <;> decide
  have hnumber (cs : List Char) : (quote.isDigit ||
      (decide (quote = '.') && cs.head?.any Char.isDigit)) = false := by
    rcases hquote with rfl | rfl <;> rfl
  rw [Grammar.scanToken, hword, hnumber, if_neg Bool.false_ne_true, if_neg Bool.false_ne_true,
    if_pos hquote, stringPieces_spelling hne h]
  have hsize : offset + 1 + (spellItems items).utf8Size + 1 - offset =
      (spellItems items).utf8Size + 2 := by omega
  simp only [itemPieces, ← hsize]
  rfl

end Scanning

/-! ## Values -/

def StringItem.text (i : StringItem) : Text := i.value.toOption.getD []

/-- Pieces, the latest first, that reach up to the end of a text and stand for a value. -/
inductive Spells : Text → List Piece → Text → Prop
  | nil (front : Text) : Spells front [] []
  | fragment {front value : Text} {pieces : List Piece} (h : Spells front pieces value)
      (t : Text) :
      Spells (front ++ t) (⟨false, front.utf8Size, (front ++ t).utf8Size⟩ :: pieces) (value ++ t)
  | escape {front value t w : Text} {pieces : List Piece} (h : Spells front pieces value)
      (hw : decodeEscape t = .ok w) :
      Spells (front ++ t) (⟨true, front.utf8Size, (front ++ t).utf8Size⟩ :: pieces) (value ++ w)

section Values

variable {front value : Text} {pieces : List Piece}

theorem Spells.push (h : Spells front pieces value) {i : StringItem} (hi : i.value = .ok i.text) :
    Spells (front ++ i.spelling) (i.push front.utf8Size pieces) (value ++ i.text) := by
  cases i with
  | raw c =>
    have hsize (t : Text) : (t ++ [c]).utf8Size = t.utf8Size + c.utf8Size :=
      Text.utf8Size_append t [c]
    change Spells (front ++ [c]) (Grammar.extendRaw front.utf8Size c.utf8Size pieces)
      (value ++ [c])
    rw [Grammar.extendRaw.eq_def, ← hsize]
    -- a run of raw code points is one piece, so it grows if the latest piece is such a run
    cases h with
    | nil => exact .fragment (.nil front) [c]
    | fragment h t =>
      have hgrown := h.fragment (t ++ [c])
      rwa [← List.append_assoc, ← List.append_assoc] at hgrown
    | escape h hw => exact .fragment (.escape h hw) [c]
  | escape body =>
    have hsize : Text.utf8Size (front ++ StringItem.spelling (.escape body)) =
        front.utf8Size + 1 + body.utf8Size := by
      rw [Text.utf8Size_append, Nat.add_assoc]
      rfl
    have hdecode : decodeEscape (StringItem.spelling (.escape body)) =
        .ok (StringItem.text (.escape body)) := hi
    have hescape := h.escape hdecode
    rwa [hsize] at hescape

theorem Spells.pushItems {items : List StringItem} (h : Spells front pieces value)
    (hitems : ∀ i ∈ items, i.value = .ok i.text) :
    Spells (front ++ spellItems items) (pushItems front.utf8Size pieces items)
      (value ++ items.flatMap StringItem.text) := by
  induction items generalizing front pieces value with
  | nil =>
    rw [spellItems_nil, List.append_nil, List.flatMap_nil, List.append_nil]
    exact h
  | cons i items ih =>
    have hnext := ih (h.push (hitems i List.mem_cons_self))
      fun j hj => hitems j (List.mem_cons_of_mem i hj)
    rwa [List.append_assoc, List.append_assoc, Text.utf8Size_append] at hnext

theorem Script.textOf_ofTree (front t back : Text) (root : Node) {n : Node}
    (hstart : n.start = front.utf8Size) (hstop : n.stop = (front ++ t).utf8Size) :
    (Script.ofTree (front ++ t ++ back) root).textOf n = .ok t := by
  have ha := Script.offsetOf_ofTree (front ++ t ++ back) root (k := front.length) (by simp)
  have hb := Script.offsetOf_ofTree (front ++ t ++ back) root (k := (front ++ t).length) (by simp)
  rw [List.append_assoc, List.take_left, ← List.append_assoc, ← hstart] at ha
  rw [List.take_left, ← hstop] at hb
  rw [Script.textOf, Script.startOf, Script.stopOf, ha, hb]
  change Except.ok (Text.cut (front ++ t ++ back) front.length (front ++ t).length) = _
  rw [Text.cut, List.take_left, List.drop_left]

theorem Spells.mapM_partValue (h : Spells front pieces value) (back : Text) (root : Node) :
    ∃ values, (pieces.reverse.map Grammar.pieceNode).mapM
        (Script.ofTree (front ++ back) root).partValue = .ok values ∧
      values.flatten = value := by
  -- without its latest piece, a list of pieces has the text of that piece behind it
  induction h generalizing back with
  | nil front => exact ⟨[], rfl, rfl⟩
  | @fragment front value pieces h t ih =>
    obtain ⟨values, hvalues, rfl⟩ := ih (t ++ back)
    refine ⟨values ++ [t], ?_, by simp⟩
    rw [← List.append_assoc] at hvalues
    have hpart : (Script.ofTree (front ++ t ++ back) root).partValue
        (Grammar.pieceNode ⟨false, front.utf8Size, (front ++ t).utf8Size⟩) = .ok t := by
      rw [Script.partValue, Script.textOf_ofTree front t back root rfl rfl]
      rfl
    rw [List.reverse_cons, List.map_append, List.mapM_append, hvalues, List.map_singleton,
      List.mapM_cons, hpart]
    rfl
  | @escape front value t w pieces h hw ih =>
    obtain ⟨values, hvalues, rfl⟩ := ih (t ++ back)
    refine ⟨values ++ [w], ?_, by simp⟩
    rw [← List.append_assoc] at hvalues
    have hpart : (Script.ofTree (front ++ t ++ back) root).partValue
        (Grammar.pieceNode ⟨true, front.utf8Size, (front ++ t).utf8Size⟩) = .ok w := by
      rw [Script.partValue, Script.textOf_ofTree front t back root rfl rfl]
      change (decodeEscape t).mapError Fault.escape = _
      rw [hw]
      rfl
    rw [List.reverse_cons, List.map_append, List.mapM_append, hvalues, List.map_singleton,
      List.mapM_cons, hpart]
    rfl

end Values

/-! ## Tokens -/

/-- No white space and no comment stands in front of some characters. -/
def Grammar.StartsToken (cs : List Char) : Prop :=
  ∀ newline offset, skipTrivia newline [] offset .blank cs = some ⟨cs, offset, newline, []⟩

structure Stands (r : Grammar.Reading) (token : Grammar.Token) (before t after : Text) : Prop where
  token_eq : r.token = token
  start_eq : r.start = before.utf8Size
  stop_eq : r.stop = before.utf8Size + t.utf8Size
  rest_eq : r.rest = after.toChars

/-- Between two texts a text is read as the given token. -/
def ReadAs (before t after : Text) (token : Grammar.Token) : Prop :=
  ∀ (last : Nat) (newline : Bool) (comments : List (Nat × Nat)), ∃ r,
    Grammar.Reading.next? before.utf8Size last newline comments (t ++ after).toChars = some r ∧
      Stands r token before t after

section Tokens

variable {before t u after : Text} {token token' : Grammar.Token} {r : Grammar.Reading}

theorem readAs_of_scanToken (hstart : Grammar.StartsToken (t ++ after).toChars)
    (hscan : Grammar.scanToken before.utf8Size (t ++ after).toChars =
      some ⟨token, t.utf8Size, after.toChars⟩) : ReadAs before t after token := by
  intro last newline comments
  rw [Grammar.Reading.next?, hstart]
  change ∃ r, (Grammar.scanToken _ _).bind _ = _ ∧ _
  rw [hscan]
  exact ⟨_, rfl, rfl, rfl, rfl, rfl⟩

theorem ReadAs.advance (h : ReadAs (before ++ t) u after token')
    (hstop : r.stop = before.utf8Size + t.utf8Size) (hrest : r.rest = (u ++ after).toChars) :
    ∃ r', Grammar.advance r = some ((), r') ∧ Stands r' token' (before ++ t) u after := by
  obtain ⟨r', hnext, hstands⟩ := h r.stop false r.comments
  refine ⟨r', ?_, hstands⟩
  rw [Text.utf8Size_append, ← hstop, ← hrest] at hnext
  rw [Grammar.advance, hnext]
  rfl

theorem last_of_advance {p : Unit × Grammar.Reading} (h : Grammar.advance r = some p) :
    p.2.last = r.stop := by
  obtain ⟨r', hnext, hp⟩ := Option.bind_eq_some_iff.1 h
  obtain ⟨trivia, -, hnext⟩ := Option.bind_eq_some_iff.1 hnext
  obtain ⟨lexeme, -, hnext⟩ := Option.bind_eq_some_iff.1 hnext
  obtain rfl := Option.some.inj hnext
  obtain rfl := Option.some.inj hp
  rfl

theorem current_bind {α : Type} (f : Grammar.Token → Grammar.Parser α) (r : Grammar.Reading) :
    (Grammar.current >>= f) r = f r.token r :=
  rfl

theorem leaf_eq (kind : Kind) (r : Grammar.Reading) :
    Grammar.leaf kind r =
      (Grammar.advance r).map fun p => ({ kind, start := r.start, stop := r.stop }, p.2) := by
  change ((Grammar.advance r).bind fun p => some
      (({ kind, start := r.start, stop := p.2.last } : Node), p.2)) = _
  cases hnext : Grammar.advance r with
  | none => rfl
  | some p =>
    have hlast := last_of_advance hnext
    simp only [Option.bind_some, Option.map_some, hlast]

end Tokens

/-! ## Literals -/

/-- Between two texts a text is read as one string: the token that starts where the text starts is a
string and ends where the text ends, and the node that the grammar makes of it has the given
value. -/
def ReadAsString (before literal after value : Text) : Prop :=
  ∀ (last : Nat) (newline : Bool) (comments : List (Nat × Nat)), ∃ r : Grammar.Reading,
    Grammar.Reading.next? before.utf8Size last newline comments (literal ++ after).toChars =
        some r ∧
      (∃ pieces, r.token = .string pieces) ∧ r.start = before.utf8Size ∧
      r.stop = before.utf8Size + literal.utf8Size ∧ r.rest = after.toChars ∧
      ∃ node, Grammar.string r = (Grammar.advance r).map (fun p => (node, p.2)) ∧
        ∀ root, (Script.ofTree (before ++ literal ++ after) root).stringValue node = .ok value

def quoteItems (quote : Char) (items : List StringItem) : Text :=
  (quote : CodePoint) :: spellItems items ++ [(quote : CodePoint)]

def literalNode (start : Nat) (items : List StringItem) : Node :=
  { kind := .string, start, stop := start + ((spellItems items).utf8Size + 2)
    children := (itemPieces (start + 1) items).map Grammar.pieceNode }

section Literals

variable {quote : Char} {items : List StringItem}

theorem utf8Size_quote (hquote : quote = '"' ∨ quote = '\x27') :
    Text.utf8Size [(quote : CodePoint)] = 1 := by
  rcases hquote with rfl | rfl <;> rfl

theorem utf8Size_quoteItems (hquote : quote = '"' ∨ quote = '\x27') :
    (quoteItems quote items).utf8Size = (spellItems items).utf8Size + 2 := by
  rw [quoteItems, ← List.singleton_append, Text.utf8Size_append, Text.utf8Size_append,
    utf8Size_quote hquote]
  omega

theorem toChars_quoteItems (hquote : quote = '"' ∨ quote = '\x27') (after : Text) :
    (quoteItems quote items ++ after).toChars =
      quote :: ((spellItems items).toChars ++ quote :: after.toChars) := by
  have hchar : (quote : CodePoint).toChar = quote := by rcases hquote with rfl | rfl <;> rfl
  simp only [quoteItems, Text.toChars, List.cons_append, List.map_cons, List.map_append,
    List.append_assoc, List.nil_append, hchar]

theorem startsToken_quote (hquote : quote = '"' ∨ quote = '\x27') (cs : List Char) :
    Grammar.StartsToken (quote :: cs) := by
  intro newline offset
  rcases hquote with rfl | rfl <;> rfl

theorem string_literal {r : Grammar.Reading}
    (htoken : r.token = .string (itemPieces (r.start + 1) items))
    (hstop : r.stop = r.start + ((spellItems items).utf8Size + 2)) :
    Grammar.string r = (Grammar.advance r).map fun p => (literalNode r.start items, p.2) := by
  rw [Grammar.string, current_bind, htoken]
  change ((Grammar.leaf .string r).bind fun q => some
      ({ q.1 with children := (itemPieces (r.start + 1) items).map Grammar.pieceNode }, q.2)) = _
  rw [leaf_eq]
  cases Grammar.advance r with
  | none => rfl
  | some p => simp only [Option.map_some, Option.bind_some, literalNode, hstop]

theorem stringValue_literalNode (hquote : quote = '"' ∨ quote = '\x27') (before after : Text)
    (root : Node) (hitems : ∀ i ∈ items, i.value = .ok i.text) :
    (Script.ofTree (before ++ quoteItems quote items ++ after) root).stringValue
        (literalNode before.utf8Size items) = .ok (items.flatMap StringItem.text) := by
  have hspells := (Spells.nil (before ++ [(quote : CodePoint)])).pushItems hitems
  obtain ⟨values, hvalues, hflatten⟩ :=
    hspells.mapM_partValue ((quote : CodePoint) :: after) root
  have htext : before ++ [(quote : CodePoint)] ++ spellItems items ++ (quote : CodePoint) :: after =
      before ++ quoteItems quote items ++ after := by
    simp only [quoteItems, List.append_assoc, List.cons_append, List.nil_append]
  have hnamed : (literalNode before.utf8Size items).namedChildren =
      (itemPieces (before.utf8Size + 1) items).map Grammar.pieceNode := by
    refine List.filter_eq_self.2 fun n hn => ?_
    obtain ⟨p, -, rfl⟩ := List.mem_map.1 hn
    rfl
  rw [htext, Text.utf8Size_append, utf8Size_quote hquote] at hvalues
  rw [Script.stringValue, hnamed, itemPieces, hvalues]
  exact congrArg Except.ok hflatten

theorem readAsString_quoteItems (hquote : quote = '"' ∨ quote = '\x27') (before after : Text)
    (hfit : itemsFit quote after.toChars items) (hitems : ∀ i ∈ items, i.value = .ok i.text) :
    ReadAsString before (quoteItems quote items) after (items.flatMap StringItem.text) := by
  have hread : ReadAs before (quoteItems quote items) after
      (.string (itemPieces (before.utf8Size + 1) items)) := by
    refine readAs_of_scanToken ?_ ?_
    · rw [toChars_quoteItems hquote]
      exact startsToken_quote hquote _
    · rw [toChars_quoteItems hquote, utf8Size_quoteItems hquote]
      exact scanToken_literal hquote hfit
  intro last newline comments
  obtain ⟨r, hnext, htoken, hstart, hstop, hrest⟩ := hread last newline comments
  rw [← hstart] at htoken
  refine ⟨r, hnext, ⟨_, htoken⟩, hstart, hstop, hrest, literalNode r.start items, ?_,
    fun root => ?_⟩
  · rw [utf8Size_quoteItems hquote, ← hstart] at hstop
    exact string_literal htoken hstop
  · rw [hstart]
    exact stringValue_literalNode hquote before after root hitems

end Literals

end RegistryScript
