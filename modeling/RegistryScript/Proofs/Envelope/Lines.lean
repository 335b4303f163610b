import Mathlib
import RegistryScript.Grammar.Module
import RegistryScript.Transform

/-! # Statements on lines of their own

Where a statement does not end in a semicolon, ECMAScript inserts one in front of the next line,
unless the first token of that line goes on with the statement. So texts of statements can be put
together line by line as long as none of them starts with such a token.

* `ModuleParser`: a parser of modules, given by the texts of the statements it finds at the top.
* `Text.opensStatement`: the first token of a text is a word, a number, a string or a brace, none of
  which goes on with a statement that could have ended in front of it.
* `meetsAtLine`: a line ends where two texts meet.
* `ModuleParser.KeepsLines`: what the insertion of semicolons means for two texts.
* `ModuleParser.KeepsLines.append_flatten`: what it means for any number of texts.
* `bracketLines`: the lines that end outside of brackets; `keepsLines_bracketLines`.
-/

namespace RegistryScript
set_option autoImplicit false

/-! ## Parsers -/

/-- The texts of the statements at the top of a module, if it parses. -/
abbrev ModuleParser := Text → Option (List Text)

def Reader.ofGrammar : Reader := fun text => Grammar.parseModule text.toChars

def Reader.statementTexts (read : Reader) : ModuleParser := fun text =>
  match readScript read [] text with
  | .ok s => (s.statements.mapM s.textOf).toOption
  | .error _ => none

/-! ## Where a statement may start -/

/-- The first of some characters starts a word, a number, a string or a block. The word `from` is
left out, as it goes on with an export of names. -/
def startsStatement : List Char → Bool
  | [] => true
  | c :: cs =>
    if Grammar.isWordStart c then (c :: cs).takeWhile Grammar.isWordPart ≠ ['f', 'r', 'o', 'm']
    else c.isDigit || c = '"' || c = '\x27' || c = '\x7b'

/-- Behind white space and comments a text ends, or has a token that no earlier line goes on with. -/
def Text.opensStatement (t : Text) : Bool :=
  match Grammar.skipTrivia false [] 0 .blank t.toChars with
  | some trivia => startsStatement trivia.rest
  | none => false

def Text.endsLine (t : Text) : Bool := t.getLast?.all fun c : CodePoint => c = '\n'

def meetsAtLine (a b : Text) : Bool := a.endsLine || b.head? = some ('\n' : CodePoint)

/-- The second of two texts can stand behind the first one as statements of its own. -/
def Follows (a b : Text) : Prop := meetsAtLine a b = true ∧ b.opensStatement = true

instance : DecidableRel Follows := fun a b =>
  inferInstanceAs (Decidable (meetsAtLine a b = true ∧ b.opensStatement = true))

theorem endsLine_append {a b : Text} (h : b ≠ []) : (a ++ b).endsLine = b.endsLine := by
  rw [Text.endsLine, Text.endsLine, List.getLast?_append_of_ne_nil _ h]

theorem meetsAtLine_append {a b c : Text} (hab : meetsAtLine a b = true)
    (hbc : meetsAtLine b c = true) : meetsAtLine (a ++ b) c = true := by
  by_cases hb : b = []
  · subst hb
    have ha : a.endsLine = true := by simpa [meetsAtLine] using hab
    simp [meetsAtLine, ha]
  · rw [meetsAtLine, endsLine_append hb]
    exact hbc

/-! ## Parsers that keep lines -/

/-- Two texts that parse, the second of which opens a statement on a line of its own, parse together
as the statements of both. This is what the insertion of semicolons in front of a token on another
line comes to, if the grammar does not allow the token where it stands. -/
def ModuleParser.KeepsLines (parse : ModuleParser) : Prop :=
  ∀ ⦃a b : Text⦄ ⦃ta tb : List Text⦄, parse a = some ta → parse b = some tb → Follows a b →
    parse (a ++ b) = some (ta ++ tb)

theorem ModuleParser.KeepsLines.append_flatten {parse : ModuleParser} (hparse : parse.KeepsLines)
    {blocks : List Text} {texts : List (List Text)} (hblocks : blocks.mapM parse = some texts)
    {a : Text} {ta : List Text} (ha : parse a = some ta)
    (hfollow : (a :: blocks).IsChain Follows) :
    parse (a ++ blocks.flatten) = some (ta ++ texts.flatten) := by
  induction blocks generalizing a ta texts with
  | nil =>
    obtain rfl : [] = texts := by simpa using hblocks
    simpa using ha
  | cons b blocks ih =>
    rw [List.mapM_cons] at hblocks
    obtain ⟨tb, hb, hblocks⟩ := Option.bind_eq_some_iff.1 hblocks
    obtain ⟨rest, hrest, htexts⟩ := Option.bind_eq_some_iff.1 hblocks
    obtain rfl : tb :: rest = texts := Option.some.inj htexts
    obtain ⟨hab, hfollow⟩ := List.isChain_cons_cons.1 hfollow
    have hchain : ((a ++ b) :: blocks).IsChain Follows := by
      cases blocks with
      | nil => exact List.isChain_singleton _
      | cons c blocks =>
        obtain ⟨hbc, hfollow⟩ := List.isChain_cons_cons.1 hfollow
        exact List.isChain_cons_cons.2 ⟨⟨meetsAtLine_append hab.1 hbc.1, hbc.2⟩, hfollow⟩
    rw [List.flatten_cons, List.flatten_cons, ← List.append_assoc, ← List.append_assoc]
    exact ih hrest (hparse ha hb hab) hchain

/-! ## Lines outside of brackets -/

/-- The number of open brackets behind a code point, from the number in front of it. -/
def CodePoint.bracketDepth (c : CodePoint) (depth : Nat) : Nat :=
  if c = '(' ∨ c = '[' ∨ c = '\x7b' then depth + 1
  else if c = ')' ∨ c = ']' ∨ c = '\x7d' then depth - 1
  else depth

def wholeLine (line : Text) : List Text := if line = [] then [] else [line]

def bracketLinesFrom (depth : Nat) (line : Text) : ModuleParser
  | [] => if depth = 0 then some (wholeLine line) else none
  | c :: cs =>
    if c = '\n' ∧ depth = 0 then (bracketLinesFrom 0 [] cs).map (wholeLine line ++ ·)
    else bracketLinesFrom (c.bracketDepth depth) (line ++ [c]) cs

/-- The lines of a text that are not empty. No line ends inside brackets, and all brackets have to
be closed. -/
def bracketLines : ModuleParser := bracketLinesFrom 0 []

theorem bracketLinesFrom_append {depth : Nat} {line a : Text} {ta : List Text} (b : Text)
    (h : bracketLinesFrom depth line a = some ta) :
    bracketLinesFrom depth line (a ++ ('\n' : CodePoint) :: b) = (bracketLines b).map (ta ++ ·) := by
  induction a generalizing depth line ta with
  | nil =>
    rw [bracketLinesFrom] at h
    split at h
    · next hdepth =>
      obtain rfl := Option.some.inj h
      rw [List.nil_append, bracketLinesFrom, if_pos ⟨rfl, hdepth⟩]
      rfl
    · exact nomatch h
  | cons c a ih =>
    rw [bracketLinesFrom] at h
    rw [List.cons_append, bracketLinesFrom]
    split at h
    · next hc =>
      obtain ⟨rest, hrest, rfl⟩ := Option.map_eq_some_iff.1 h
      rw [if_pos hc, ih hrest, Option.map_map]
      congr 1
      funext tb
      exact (List.append_assoc _ _ _).symm
    · next hc =>
      rw [if_neg hc]
      exact ih h

theorem bracketLinesFrom_of_concat {depth : Nat} {line a : Text} {ta : List Text}
    (h : bracketLinesFrom depth line (a ++ [('\n' : CodePoint)]) = some ta) :
    bracketLinesFrom depth line a = some ta := by
  induction a generalizing depth line ta with
  | nil =>
    rw [List.nil_append, bracketLinesFrom] at h
    rw [bracketLinesFrom]
    by_cases hdepth : depth = 0
    · rw [if_pos ⟨rfl, hdepth⟩] at h
      rw [if_pos hdepth]
      simpa [bracketLinesFrom, wholeLine] using h
    · have hsame : CodePoint.bracketDepth '\n' depth = depth := rfl
      rw [if_neg (by simp [hdepth]), hsame, bracketLinesFrom, if_neg hdepth] at h
      exact nomatch h
  | cons c a ih =>
    rw [List.cons_append, bracketLinesFrom] at h
    rw [bracketLinesFrom]
    split at h
    · next hc =>
      obtain ⟨rest, hrest, rfl⟩ := Option.map_eq_some_iff.1 h
      rw [if_pos hc, ih hrest]
      rfl
    · next hc =>
      rw [if_neg hc]
      exact ih h

theorem keepsLines_bracketLines : ModuleParser.KeepsLines bracketLines := by
  intro a b ta tb ha hb hfollow
  rcases Bool.or_eq_true_iff.1 hfollow.1 with hline | hline
  · cases a using List.reverseRecOn with
    | nil =>
      obtain rfl : [] = ta := by simpa [bracketLines, bracketLinesFrom, wholeLine] using ha
      exact hb
    | append_singleton a c =>
      obtain rfl : c = '\n' := by simpa [Text.endsLine] using hline
      rw [List.append_assoc, List.singleton_append, bracketLines,
        bracketLinesFrom_append b (bracketLinesFrom_of_concat ha), hb]
      rfl
  · cases b with
    | nil => simp at hline
    | cons c b =>
      obtain rfl : c = '\n' := by simpa using hline
      rw [bracketLines, bracketLinesFrom, if_pos ⟨rfl, rfl⟩] at hb
      obtain ⟨rest, hrest, rfl⟩ := Option.map_eq_some_iff.1 hb
      rw [bracketLines, bracketLinesFrom_append b ha, bracketLines, hrest]
      rfl

end RegistryScript
