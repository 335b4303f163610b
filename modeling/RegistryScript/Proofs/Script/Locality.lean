import Mathlib
import RegistryScript.Proofs.Overlay.Stretch
import RegistryScript.Proofs.Script.Places
import RegistryScript.Proofs.Script.Span

/-! # Edits of the nodes of a tree

Edits that each lie in a node of a list are told apart by the spans of the nodes, which follow one
another.

* `Script.Follow.bounds`, `Script.Follow.apart`: spans of nodes that follow one another.
* `Script.Within`: edits that lie in the span of a node.
* `filter_numbered`: among the edits of several nodes, those that touch one of them are its own.
-/

namespace RegistryScript
set_option autoImplicit false

open Edit

namespace Script

variable {s : Script} {a b first : Nat} {ns : List Node} {c : Node}

/-! ## Nodes that follow one another -/

theorem Follow.le (h : s.Follow a b ns) : a ≤ b := by
  induction ns generalizing a with
  | nil => exact h
  | cons n ns ih => exact h.1.trans (h.2.1.trans (ih h.2.2))

theorem Follow.bounds (h : s.Follow a b ns) (hc : c ∈ ns) :
    a ≤ s.startAt c ∧ s.startAt c ≤ s.stopAt c ∧ s.stopAt c ≤ b := by
  induction ns generalizing a with
  | nil => exact absurd hc List.not_mem_nil
  | cons n ns ih =>
    obtain ⟨h1, h2, h3⟩ := h
    rcases List.mem_cons.1 hc with rfl | hc
    · exact ⟨h1, h2, h3.le⟩
    · obtain ⟨h4, h5, h6⟩ := ih h3 hc
      exact ⟨h1.trans (h2.trans h4), h5, h6⟩

theorem Follow.weaken (h : s.Follow a b ns) {a' : Nat} (ha : a' ≤ a) : s.Follow a' b ns := by
  cases ns with
  | nil => exact ha.trans h
  | cons n ns => exact ⟨ha.trans h.1, h.2⟩

theorem Follow.extend (h : s.Follow a b ns) {b' : Nat} (hb : b ≤ b') : s.Follow a b' ns := by
  induction ns generalizing a with
  | nil => exact h.trans hb
  | cons n ns ih => exact ⟨h.1, h.2.1, ih h.2.2⟩

theorem Follow.of_append {ms : List Node} (h : s.Follow a b (ns ++ ms)) :
    ∃ p, s.Follow a p ns ∧ s.Follow p b ms := by
  induction ns generalizing a with
  | nil => exact ⟨a, le_rfl, h⟩
  | cons n ns ih =>
    obtain ⟨h1, h2, h3⟩ := h
    obtain ⟨p, hn, hm⟩ := ih h3
    exact ⟨p, ⟨h1, h2, hn⟩, hm⟩

theorem Follow.apart_of_append {pre post : List Node} (h : s.Follow a b (pre ++ c :: post)) :
    (∀ d ∈ pre, s.stopAt d ≤ s.startAt c) ∧ ∀ d ∈ post, s.stopAt c ≤ s.startAt d := by
  obtain ⟨p, hpre, h1, -, hpost⟩ := h.of_append
  exact ⟨fun d hd => (hpre.bounds hd).2.2.trans h1, fun d hd => (hpost.bounds hd).1⟩

theorem Follow.apart (h : s.Follow a b ns) {i j : Nat} {d : Node} (hi : ns[i]? = some c)
    (hj : ns[j]? = some d) (hij : i < j) : s.stopAt c ≤ s.startAt d := by
  induction ns generalizing a i j with
  | nil => exact nomatch hi
  | cons n ns ih =>
    obtain ⟨-, -, h3⟩ := h
    obtain ⟨j, rfl⟩ : ∃ k, j = k + 1 := ⟨j - 1, by omega⟩
    rw [List.getElem?_cons_succ] at hj
    cases i with
    | zero =>
      obtain rfl : n = c := Option.some.inj hi
      exact (h3.bounds (List.mem_of_getElem? hj)).1
    | succ i =>
      rw [List.getElem?_cons_succ] at hi
      exact ih h3 hi hj (by omega)

theorem Follow.apart_of_ne (h : s.Follow a b ns) {i j : Nat} {d : Node} (hi : ns[i]? = some c)
    (hj : ns[j]? = some d) (hij : i ≠ j) : s.stopAt c ≤ s.startAt d ∨ s.stopAt d ≤ s.startAt c := by
  rcases Nat.lt_or_gt_of_ne hij with hlt | hgt
  · exact .inl (h.apart hi hj hlt)
  · exact .inr (h.apart hj hi hgt)

/-- An edit lies in the span of a node and puts something there. -/
def Within (s : Script) (n : Node) (es : List Edit) : Prop :=
  ∀ e ∈ es, Inside (s.startAt n) (s.stopAt n) e

theorem within_nil (n : Node) : s.Within n [] := fun _ he => absurd he List.not_mem_nil

theorem Within.append {n : Node} {es es' : List Edit} (h : s.Within n es) (h' : s.Within n es') :
    s.Within n (es ++ es') := by
  intro e he
  rcases List.mem_append.1 he with he | he
  · exact h e he
  · exact h' e he

/-! ## Edits of several nodes -/

section Numbered

variable {E : Nat → Node → List Edit}

theorem filter_numbered_of_before
    (hE : ∀ e ∈ Node.numbered first ns, s.Within e.2 (E e.1 e.2)) (h : s.Follow a b ns)
    {x y : Nat} (hy : y ≤ a) :
    ((Node.numbered first ns).flatMap fun e => E e.1 e.2).filter (touches x y) = [] := by
  rw [List.filter_eq_nil_iff]
  intro e he
  obtain ⟨c, hc, he⟩ := List.mem_flatMap.1 he
  have hb := h.bounds (mem_numbered hc).1
  rw [(hE c hc e he).touches_eq_false (.inr (hy.trans hb.1))]
  exact Bool.false_ne_true

/-- Among the edits of nodes that follow one another, those that touch one of the nodes are its
own. -/
theorem filter_numbered (hE : ∀ e ∈ Node.numbered first ns, s.Within e.2 (E e.1 e.2))
    (h : s.Follow a b ns) {i : Nat} (hi : ns[i]? = some c) :
    ((Node.numbered first ns).flatMap fun e => E e.1 e.2).filter
        (touches (s.startAt c) (s.stopAt c)) =
      (E (first + i) c).filter (touches (s.startAt c) (s.stopAt c)) := by
  induction ns generalizing a first i with
  | nil => exact nomatch hi
  | cons n ns ih =>
    obtain ⟨h1, h2, h3⟩ := h
    have hrest : ∀ e ∈ Node.numbered (first + 1) ns, s.Within e.2 (E e.1 e.2) :=
      fun e he => hE e (List.mem_cons_of_mem _ he)
    rw [Node.numbered, List.flatMap_cons, List.filter_append]
    cases i with
    | zero =>
      obtain rfl : n = c := Option.some.inj hi
      rw [filter_numbered_of_before hrest h3 le_rfl, List.append_nil, Nat.add_zero]
    | succ i =>
      have hb := h3.bounds (List.mem_of_getElem? hi)
      have hn : s.Within n (E first n) := hE (first, n) List.mem_cons_self
      rw [filter_touches_eq_nil hn (.inl hb.1), List.nil_append, ih hrest h3 hi, Nat.add_assoc,
        Nat.add_comm 1 i]

theorem Within.numbered {n : Node} (hE : ∀ e ∈ Node.numbered first ns, s.Within e.2 (E e.1 e.2))
    (h : s.Follow (s.startAt n) (s.stopAt n) ns) :
    s.Within n ((Node.numbered first ns).flatMap fun e => E e.1 e.2) := by
  intro e he
  obtain ⟨c, hc, he⟩ := List.mem_flatMap.1 he
  have hb := h.bounds (mem_numbered hc).1
  exact (hE c hc e he).mono hb.1 hb.2.2

end Numbered

end Script

end RegistryScript
