import Mathlib
import RegistryScript.Grammar.Module
import RegistryScript.Proofs.Script.Tree
import RegistryScript.Script.Basic

/-! # Spans of a tree

A tree is laid out over its text when the spans of its nodes lie in one another as the nodes do and
start and end between code points. Spans are given in bytes, edits are made by code points: what
holds of the one is carried over to the other.

* `Text.isBoundary`: a byte offset stands between two code points.
* `Script.startAt`, `Script.stopAt`, `Script.textAt`: where a node starts and ends, and its text.
* `Script.IsLaidOut`: a script whose tree is laid out over its text.
* `Script.Spanned`: the children of a node cover its span one after the other.
* `Script.IsLaidOut.spanned`: this holds of every node of a script that is laid out.
-/

namespace RegistryScript
set_option autoImplicit false

/-! ## Boundaries of code points -/

namespace Text

/-- A byte offset stands in front of a code point or at the end. -/
def isBoundary : Text → Nat → Bool
  | _, 0 => true
  | [], _ + 1 => false
  | c :: t, b + 1 => decide (c.utf8Size ≤ b + 1) && isBoundary t (b + 1 - c.utf8Size)

theorem utf8Size_pos (c : CodePoint) : 0 < c.utf8Size := by
  unfold CodePoint.utf8Size
  split
  · exact Nat.one_pos
  · split
    · exact Nat.two_pos
    · split <;> omega

theorem exists_take_of_isBoundary {t : Text} {b : Nat} (h : t.isBoundary b = true) :
    ∃ k ≤ t.length, utf8Size (t.take k) = b := by
  induction t generalizing b with
  | nil =>
    cases b with
    | zero => exact ⟨0, Nat.zero_le _, rfl⟩
    | succ b => simp [isBoundary] at h
  | cons c t ih =>
    cases b with
    | zero => exact ⟨0, Nat.zero_le _, rfl⟩
    | succ b =>
      rw [isBoundary, Bool.and_eq_true, decide_eq_true_eq] at h
      obtain ⟨k, hk, hb⟩ := ih h.2
      refine ⟨k + 1, by simpa using hk, ?_⟩
      rw [List.take_succ_cons, utf8Size, hb]
      omega

theorem utf8IndexFrom_getElem? (t : Text) (k first : Nat) (h : k ≤ t.length) :
    (utf8IndexFrom first t)[utf8Size (t.take k)]? = some (first + k) := by
  induction t generalizing k first with
  | nil =>
    obtain rfl : k = 0 := by simpa using h
    rfl
  | cons c t ih =>
    rw [utf8IndexFrom]
    cases k with
    | zero =>
      have hpos := utf8Size_pos c
      rw [List.take_zero, utf8Size, List.getElem?_append_left (by simpa using hpos),
        List.getElem?_replicate_of_lt hpos, Nat.add_zero]
    | succ k =>
      have hk : k ≤ t.length := by simpa using h
      rw [List.take_succ_cons, utf8Size, List.getElem?_append_right (by simp),
        List.length_replicate, Nat.add_sub_cancel_left, ih k (first + 1) hk]
      congr 1
      omega

theorem utf8Size_of_isAscii {t : Text} (h : t.isAscii = true) : t.utf8Size = t.length := by
  induction t with
  | nil => rfl
  | cons c t ih =>
    rw [isAscii, List.all_cons, Bool.and_eq_true] at h
    have hc : c.utf8Size = 1 := by
      have : c.val < 0x80 := by simpa [CodePoint.isAscii] using h.1
      rw [CodePoint.utf8Size, if_pos this]
    rw [utf8Size, ih h.2, hc, List.length_cons, Nat.add_comm]

theorem utf8Size_take_lt {t : Text} {k l : Nat} (hkl : k < l) (hl : l ≤ t.length) :
    utf8Size (t.take k) < utf8Size (t.take l) := by
  induction t generalizing k l with
  | nil =>
    have : l = 0 := by simpa using hl
    omega
  | cons c t ih =>
    cases l with
    | zero => omega
    | succ l =>
      rw [List.take_succ_cons, utf8Size]
      cases k with
      | zero =>
        have := utf8Size_pos c
        rw [List.take_zero, utf8Size]
        omega
      | succ k =>
        rw [List.take_succ_cons, utf8Size]
        have := @ih k l (by omega) (by simpa using hl)
        omega

end Text

/-! ## Offsets of a script -/

namespace Script

def charAt (s : Script) (byte : Nat) : Nat := (s.offsetOf byte).toOption.getD 0

def startAt (s : Script) (n : Node) : Nat := s.charAt n.start

def stopAt (s : Script) (n : Node) : Nat := s.charAt n.stop

def HasSpan (s : Script) (n : Node) : Prop :=
  s.startOf n = .ok (s.startAt n) ∧ s.stopOf n = .ok (s.stopAt n)

def textAt (s : Script) (n : Node) : Text := s.text.cut (s.startAt n) (s.stopAt n)

variable {s : Script} {n : Node}

theorem charAt_of_ok {byte a : Nat} (h : s.offsetOf byte = .ok a) : s.charAt byte = a := by
  rw [charAt, h]
  rfl

theorem startOf_eq {a : Nat} (h : s.startOf n = .ok a) : a = s.startAt n := (charAt_of_ok h).symm

theorem stopOf_eq {b : Nat} (h : s.stopOf n = .ok b) : b = s.stopAt n := (charAt_of_ok h).symm

theorem textOf_eq {t : Text} (h : s.textOf n = .ok t) : t = s.textAt n := by
  rw [textOf] at h
  cases ha : s.startOf n with
  | error f =>
    rw [ha] at h
    exact nomatch h
  | ok a =>
    cases hb : s.stopOf n with
    | error f =>
      rw [ha, hb] at h
      exact nomatch h
    | ok b =>
      rw [ha, hb] at h
      rw [textAt, ← startOf_eq ha, ← stopOf_eq hb]
      exact (Except.ok.inj h).symm

end Script

/-! ## Layout -/

namespace Node

def inOrder (start stop : Nat) : List Node → Bool
  | [] => decide (start ≤ stop)
  | n :: ns => decide (start ≤ n.start) && inOrder n.stop stop ns

def isSpanned (text : Text) (n : Node) : Bool :=
  text.isBoundary n.start && text.isBoundary n.stop && decide (n.start ≤ n.stop) &&
    inOrder n.start n.stop n.children

theorem isSpanned_iff {text : Text} {n : Node} :
    n.isSpanned text = true ↔ text.isBoundary n.start = true ∧ text.isBoundary n.stop = true ∧
      n.start ≤ n.stop ∧ inOrder n.start n.stop n.children = true := by
  simp only [isSpanned, Bool.and_eq_true, decide_eq_true_eq, and_assoc]

def isWord (n : Node) : Bool :=
  match n.kind with
  | .identifier | .shorthandPropertyIdentifier | .shorthandPropertyIdentifierPattern
  | .importCallee => true
  | _ => false

def isStringPart (n : Node) : Bool := n.kind = .stringFragment || n.kind = .escapeSequence

/-- A word has nothing inside it and is not empty, and in a string there is nothing but its
parts. -/
def isSound (n : Node) : Bool :=
  (!n.isWord || (n.children.isEmpty && decide (n.start < n.stop))) &&
    (n.kind ≠ .string || (namedDescendants n.children).all isStringPart)

theorem isStringPart_of_mem {n m : Node} (hsound : n.isSound = true) (hk : n.kind = .string)
    (hm : m ∈ namedDescendants n.children) : m.isStringPart = true := by
  rw [isSound, Bool.and_eq_true, hk] at hsound
  have hparts : (namedDescendants n.children).all isStringPart = true := by simpa using hsound.2
  exact List.all_eq_true.1 hparts m hm

end Node

namespace Script

/-- A script whose tree is laid out over its text: spans lie in one another as the nodes do, start
and end between code points, words are single nodes, and strings hold nothing but their parts. -/
structure IsLaidOut (s : Script) : Prop where
  charted : s = ofTree s.text s.root
  spans : s.root.all (Node.isSpanned s.text) = true
  sound : s.root.all Node.isSound = true

/-- Nodes follow one another between two offsets. -/
def Follow (s : Script) (start stop : Nat) : List Node → Prop
  | [] => start ≤ stop
  | n :: ns => start ≤ s.startAt n ∧ s.startAt n ≤ s.stopAt n ∧ s.Follow (s.stopAt n) stop ns

structure Spanned (s : Script) (n : Node) : Prop where
  start_le : s.startAt n ≤ s.stopAt n
  stop_le : s.stopAt n ≤ s.text.length
  follow : s.Follow (s.startAt n) (s.stopAt n) n.children

variable {s : Script} {n : Node}

theorem offsetOf_ofTree (text : Text) (root : Node) {k : Nat} (hk : k ≤ text.length) :
    (ofTree text root).offsetOf (Text.utf8Size (text.take k)) = .ok k := by
  rw [offsetOf, ofTree]
  by_cases ha : text.isAscii = true
  · have : Text.isAscii (text.take k) = true := by
      rw [Text.isAscii, List.all_eq_true] at ha ⊢
      exact fun c hc => ha c (List.mem_of_mem_take hc)
    rw [if_pos ha]
    simp only [Text.utf8Size_of_isAscii this, List.length_take, Nat.min_eq_left hk]
  · rw [if_neg ha]
    simp only [List.getElem?_toArray, Text.utf8Index, Text.utf8IndexFrom_getElem? text k 0 hk,
      Nat.zero_add]

theorem IsLaidOut.offsetOf_take (h : s.IsLaidOut) {k : Nat} (hk : k ≤ s.text.length) :
    s.offsetOf (Text.utf8Size (s.text.take k)) = .ok k := by
  have hok := offsetOf_ofTree s.text s.root hk
  rwa [← h.charted] at hok

theorem IsLaidOut.charAt_spec (h : s.IsLaidOut) {b : Nat} (hb : s.text.isBoundary b = true) :
    s.offsetOf b = .ok (s.charAt b) ∧ s.charAt b ≤ s.text.length ∧
      Text.utf8Size (s.text.take (s.charAt b)) = b := by
  obtain ⟨k, hk, rfl⟩ := Text.exists_take_of_isBoundary hb
  have hok := h.offsetOf_take hk
  have hat : s.charAt (Text.utf8Size (s.text.take k)) = k := charAt_of_ok hok
  rw [hat]
  exact ⟨hok, hk, rfl⟩

theorem IsLaidOut.charAt_lt (h : s.IsLaidOut) {a b : Nat} (ha : s.text.isBoundary a = true)
    (hb : s.text.isBoundary b = true) (hab : a < b) : s.charAt a < s.charAt b := by
  obtain ⟨-, hka, hsa⟩ := h.charAt_spec ha
  obtain ⟨-, hkb, hsb⟩ := h.charAt_spec hb
  by_contra hn
  rcases Nat.eq_or_lt_of_le (Nat.le_of_not_lt hn) with he | hlt
  · rw [he, hsa] at hsb
    omega
  · have := Text.utf8Size_take_lt hlt hka
    omega

theorem IsLaidOut.charAt_le (h : s.IsLaidOut) {a b : Nat} (ha : s.text.isBoundary a = true)
    (hb : s.text.isBoundary b = true) (hab : a ≤ b) : s.charAt a ≤ s.charAt b := by
  rcases Nat.eq_or_lt_of_le hab with rfl | hlt
  · exact Nat.le_refl _
  · exact (h.charAt_lt ha hb hlt).le

theorem IsLaidOut.follow (h : s.IsLaidOut) {start stop : Nat} {ns : List Node}
    (hstart : s.text.isBoundary start = true) (hstop : s.text.isBoundary stop = true)
    (hns : ∀ n ∈ ns, n.isSpanned s.text = true) (ho : Node.inOrder start stop ns = true) :
    s.Follow (s.charAt start) (s.charAt stop) ns := by
  induction ns generalizing start with
  | nil => exact h.charAt_le hstart hstop (of_decide_eq_true ho)
  | cons n ns ih =>
    rw [Node.inOrder, Bool.and_eq_true, decide_eq_true_eq] at ho
    obtain ⟨h1, h2, h3, -⟩ := Node.isSpanned_iff.1 (hns n List.mem_cons_self)
    exact ⟨h.charAt_le hstart h1 ho.1, h.charAt_le h1 h2 h3,
      ih h2 (fun m hm => hns m (List.mem_cons_of_mem n hm)) ho.2⟩

theorem IsLaidOut.spanned (h : s.IsLaidOut) (hn : n.all (Node.isSpanned s.text) = true) :
    s.Spanned n := by
  obtain ⟨hspan, hchildren⟩ := Node.all_iff.1 hn
  obtain ⟨h1, h2, h3, h4⟩ := Node.isSpanned_iff.1 hspan
  exact ⟨h.charAt_le h1 h2 h3, (h.charAt_spec h2).2.1,
    h.follow h1 h2 (fun c hc => (Node.all_iff.1 (hchildren c hc)).1) h4⟩

theorem IsLaidOut.startOf (h : s.IsLaidOut) (hn : n.isSpanned s.text = true) :
    s.startOf n = .ok (s.startAt n) :=
  (h.charAt_spec (Node.isSpanned_iff.1 hn).1).1

theorem IsLaidOut.stopOf (h : s.IsLaidOut) (hn : n.isSpanned s.text = true) :
    s.stopOf n = .ok (s.stopAt n) :=
  (h.charAt_spec (Node.isSpanned_iff.1 hn).2.1).1

theorem IsLaidOut.textOf (h : s.IsLaidOut) (hn : n.isSpanned s.text = true) :
    s.textOf n = .ok (s.textAt n) := by
  rw [Script.textOf, h.startOf hn, h.stopOf hn]
  rfl

theorem IsLaidOut.word (h : s.IsLaidOut) (hspan : n.isSpanned s.text = true)
    (hsound : n.isSound = true) (hw : n.isWord = true) :
    n.children = [] ∧ s.startAt n < s.stopAt n := by
  obtain ⟨h1, h2, -, -⟩ := Node.isSpanned_iff.1 hspan
  rw [Node.isSound, Bool.and_eq_true, hw] at hsound
  have hleaf : n.children.isEmpty = true ∧ n.start < n.stop := by simpa using hsound.1
  exact ⟨List.isEmpty_iff.1 hleaf.1, h.charAt_lt h1 h2 hleaf.2⟩

/-! ## Scripts of texts -/

def ofModule (text : String) : Script :=
  ofTree text ((Grammar.parseModule text.toList).getD default)

theorem isLaidOut_ofModule {text : String}
    (hspans : (ofModule text).root.all (Node.isSpanned text) = true)
    (hsound : (ofModule text).root.all Node.isSound = true) : (ofModule text).IsLaidOut where
  charted := rfl
  spans := hspans
  sound := hsound

end Script

end RegistryScript
