import Mathlib
import RegistryScript.Proofs.Script.Tree

/-! # Nodes and their places

A node of a tree is told by the places that lead to it from the root, and the order of the places is
that of the tree.

* `mem_numbered`, `numbered_getElem?`, `pairwise_numbered_lt`: the nodes of a list with their
  places.
* `placed`, `mem_placed_iff`: what is found in the nodes of a list, with the places that lead to it.
* `pairwise_placed`: findings in order inside each node are in order as a whole.
* `Node.at?`: the node that places lead to.
-/

namespace RegistryScript
set_option autoImplicit false

/-! ## The nodes of a list -/

namespace Script

variable {first : Nat} {ns : List Node} {c : Node}

theorem mem_numbered {e : Nat × Node} (he : e ∈ Node.numbered first ns) :
    e.2 ∈ ns ∧ first ≤ e.1 := by
  induction ns generalizing first with
  | nil => exact absurd he List.not_mem_nil
  | cons n ns ih =>
    rw [Node.numbered, List.mem_cons] at he
    rcases he with rfl | he
    · exact ⟨List.mem_cons_self, le_rfl⟩
    · obtain ⟨h1, h2⟩ := ih he
      exact ⟨List.mem_cons_of_mem n h1, by omega⟩

theorem numbered_getElem? (i : Nat) :
    (Node.numbered first ns)[i]? = ns[i]?.map fun c => (first + i, c) := by
  induction ns generalizing first i with
  | nil => rfl
  | cons n ns ih =>
    cases i with
    | zero => rfl
    | succ i =>
      rw [Node.numbered, List.getElem?_cons_succ, List.getElem?_cons_succ, ih]
      rw [Nat.add_assoc, Nat.add_comm 1 i]

theorem flatMap_numbered {β : Type} (F : Node → List β) :
    ((Node.numbered first ns).flatMap fun e => F e.2) = ns.flatMap F := by
  induction ns generalizing first with
  | nil => rfl
  | cons n ns ih => rw [Node.numbered, List.flatMap_cons, List.flatMap_cons, ih]

theorem flatMap_numbered_at {β : Type} (F : Node → List β) {k : Nat} (hk : ns[k]? = some c) :
    ((Node.numbered first ns).flatMap fun e => if first + k = e.1 then F e.2 else []) = F c := by
  induction ns generalizing first k with
  | nil => exact nomatch hk
  | cons n ns ih =>
    rw [Node.numbered, List.flatMap_cons]
    cases k with
    | zero =>
      obtain rfl : n = c := Option.some.inj hk
      have hrest : ((Node.numbered (first + 1) ns).flatMap fun e =>
          if first + 0 = e.1 then F e.2 else []) = [] := by
        rw [List.flatMap_eq_nil_iff]
        intro e he
        have := (mem_numbered he).2
        exact if_neg (by omega)
      rw [hrest, List.append_nil]
      exact if_pos rfl
    | succ k =>
      have hrest := @ih (first + 1) k (by simpa using hk)
      rw [Nat.add_right_comm, Nat.add_assoc] at hrest
      rw [if_neg (by omega), List.nil_append, hrest]

end Script

section Numbered

variable {ns : List Node} {c : Node} {i : Nat}

theorem mem_numbered_of_getElem? (hi : ns[i]? = some c) : (i, c) ∈ Node.numbered 0 ns := by
  refine List.mem_of_getElem? (i := i) ?_
  rw [Script.numbered_getElem?, hi, Nat.zero_add]
  rfl

theorem getElem?_of_mem_numbered {e : Nat × Node} (he : e ∈ Node.numbered 0 ns) :
    ns[e.1]? = some e.2 := by
  obtain ⟨i, hi⟩ := List.mem_iff_getElem?.1 he
  rw [Script.numbered_getElem?, Option.map_eq_some_iff] at hi
  obtain ⟨c, hc, rfl⟩ := hi
  rw [Nat.zero_add]
  exact hc

theorem pairwise_numbered_lt (first : Nat) (ns : List Node) :
    (Node.numbered first ns).Pairwise fun e e' => e.1 < e'.1 := by
  induction ns generalizing first with
  | nil => exact .nil
  | cons n ns ih => exact .cons (fun e he => (Script.mem_numbered he).2) (ih (first + 1))

end Numbered

/-! ## Findings in the nodes of a list -/

/-- What is found in the nodes of a list, each finding with the place of its node in front of the
places that lead to it from there. -/
def placed {α : Type} (F : Node → List (List Nat × α)) (first : Nat) (ns : List Node) :
    List (List Nat × α) :=
  (Node.numbered first ns).flatMap fun e => (F e.2).map fun a => (e.1 :: a.1, a.2)

section Placed

variable {α : Type} {F : Node → List (List Nat × α)} {first : Nat} {ns : List Node} {a : α}

theorem mem_placed_iff {places : List Nat} :
    (places, a) ∈ placed F 0 ns ↔
      ∃ i rest n, places = i :: rest ∧ ns[i]? = some n ∧ (rest, a) ∈ F n := by
  constructor
  · intro h
    obtain ⟨e, he, h⟩ := List.mem_flatMap.1 h
    obtain ⟨b, hb, heq⟩ := List.mem_map.1 h
    obtain ⟨rfl, rfl⟩ := Prod.mk.inj heq
    exact ⟨e.1, b.1, e.2, rfl, getElem?_of_mem_numbered he, hb⟩
  · rintro ⟨i, rest, n, rfl, hn, ha⟩
    exact List.mem_flatMap.2
      ⟨(i, n), mem_numbered_of_getElem? hn, List.mem_map.2 ⟨(rest, a), ha, rfl⟩⟩

theorem map_snd_placed :
    (placed F first ns).map Prod.snd = ns.flatMap fun n => (F n).map Prod.snd := by
  rw [placed, List.map_flatMap, ← Script.flatMap_numbered (fun n => (F n).map Prod.snd)]
  refine List.flatMap_congr fun e _ => ?_
  rw [List.map_map]
  rfl

theorem pairwise_placed (h : ∀ n ∈ ns, (F n).Pairwise fun a b => a.1 < b.1) :
    (placed F first ns).Pairwise fun a b => a.1 < b.1 := by
  refine List.pairwise_flatMap.2 ⟨fun e he => List.pairwise_map.2 ?_, ?_⟩
  · exact (h e.2 (Script.mem_numbered he).1).imp fun hab => List.Lex.cons hab
  · refine (pairwise_numbered_lt first ns).imp fun {e e'} hlt a ha b hb => ?_
    obtain ⟨a, -, rfl⟩ := List.mem_map.1 ha
    obtain ⟨b, -, rfl⟩ := List.mem_map.1 hb
    exact List.Lex.rel hlt

end Placed

/-! ## The node at a place -/

namespace Node

/-- The node that places lead to. -/
def at? : Node → List Nat → Option Node
  | n, [] => some n
  | n, i :: places => n.children[i]?.bind fun c => c.at? places

variable {n m : Node} {i : Nat} {places : List Nat}

theorem at?_cons_eq_some_iff :
    n.at? (i :: places) = some m ↔ ∃ c, n.children[i]? = some c ∧ c.at? places = some m := by
  rw [at?, Option.bind_eq_some_iff]

theorem all_of_at? {p : Node → Bool} (hall : n.all p = true) (h : n.at? places = some m) :
    m.all p = true := by
  induction places generalizing n with
  | nil =>
    obtain rfl : n = m := Option.some.inj h
    exact hall
  | cons i places ih =>
    obtain ⟨c, hc, h⟩ := at?_cons_eq_some_iff.1 h
    exact ih ((all_iff.1 hall).2 c (List.mem_of_getElem? hc)) h

end Node

end RegistryScript
