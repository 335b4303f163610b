import Mathlib
import RegistryScript.Syntax.Node

/-! # Nodes of a tree and where they stand

* `Node.all`: something holds of every node of a tree.
* `Node.exists_child`: the first child with a role and its place.
* `Trail`: the nodes around a node with the place of the next node in each, from the inside out.
* `Trail.Leads`: a trail leads from the root of a tree to a node.
-/

namespace RegistryScript
set_option autoImplicit false

namespace Node

/-! ## All nodes of a tree -/

mutual

def all (p : Node → Bool) : Node → Bool
  | n@⟨_, _, _, _, _, _, children⟩ => p n && allAmong p children

def allAmong (p : Node → Bool) : List Node → Bool
  | [] => true
  | n :: ns => n.all p && allAmong p ns

end

variable {p q : Node → Bool}

theorem allAmong_iff {ns : List Node} : allAmong p ns = true ↔ ∀ n ∈ ns, n.all p = true := by
  induction ns with
  | nil => simp [allAmong]
  | cons n ns ih => simp [allAmong, ih]

theorem all_iff {n : Node} : n.all p = true ↔ p n = true ∧ ∀ c ∈ n.children, c.all p = true := by
  cases n
  rw [all, Bool.and_eq_true, allAmong_iff]

/-- A node is as large as the nodes inside it and itself, so that what holds of a node once it
holds of its children holds of every node. -/
theorem induct {motive : Node → Prop} (step : ∀ n, (∀ c ∈ n.children, motive c) → motive n)
    (n : Node) : motive n :=
  step n fun c _ => induct step c
  termination_by sizeOf n
  decreasing_by exact sizeOf_lt_of_mem_children ‹_›

/-! ## Nodes inside a node -/

theorem descendants_eq (n : Node) : n.descendants = n :: namedDescendants n.children := by
  cases n
  rw [descendants]

theorem mem_descendants_self (n : Node) : n ∈ n.descendants := by
  rw [descendants_eq]
  exact List.mem_cons_self

theorem mem_namedDescendants {ns : List Node} {m : Node} :
    m ∈ namedDescendants ns ↔ ∃ c ∈ ns, c.isNamed = true ∧ m ∈ c.descendants := by
  induction ns with
  | nil => simp [namedDescendants]
  | cons n ns ih =>
    rw [namedDescendants]
    by_cases hn : n.isNamed = true
    · simp [hn, ih]
    · simp [hn, ih]

/-! ## Children with roles -/

variable {n c : Node} {role : Role}

theorem exists_child (h : n.child? role = some c) :
    ∃ i, n.childIndex? role = some i ∧ n.children[i]? = some c ∧ c.role = some role := by
  have hrole : c.role = some role := by simpa using List.find?_some h
  rw [child?, List.find?_eq_some_iff_getElem] at h
  obtain ⟨hc, i, hi, he, hfirst⟩ := h
  refine ⟨i, ?_, by rw [List.getElem?_eq_getElem hi, he], hrole⟩
  rw [childIndex?, List.findIdx?_eq_some_iff_getElem]
  refine ⟨hi, by rw [he]; exact hc, fun j hj => ?_⟩
  simpa using hfirst j hj

theorem child?_of_childIndex? {i : Nat} (h : n.childIndex? role = some i) :
    ∃ c, n.child? role = some c ∧ n.children[i]? = some c := by
  rw [childIndex?, List.findIdx?_eq_some_iff_getElem] at h
  obtain ⟨hi, hc, hfirst⟩ := h
  refine ⟨n.children[i], ?_, List.getElem?_eq_getElem hi⟩
  rw [child?, List.find?_eq_some_iff_getElem]
  exact ⟨hc, i, hi, rfl, fun j hj => by simpa using hfirst j hj⟩

end Node

/-! ## Trails -/

/-- The nodes around a node, each with the place of the next one inside it, from the inside out. -/
abbrev Trail := List (Node × Nat)

namespace Trail

/-- A trail leads from a node to one inside it. -/
def Leads (root : Node) : Trail → Node → Prop
  | [], n => n = root
  | (parent, i) :: trail, n => parent.children[i]? = some n ∧ Leads root trail parent

def nodes (trail : Trail) : List Node := trail.map Prod.fst

def place (trail : Trail) : Nat := (trail.head?.map Prod.snd).getD 0

variable {root n : Node} {trail : Trail} {p : Node → Bool}

theorem Leads.all (h : Leads root trail n) (hp : root.all p = true) : n.all p = true := by
  induction trail generalizing n with
  | nil =>
    rw [Leads] at h
    rw [h]
    exact hp
  | cons e trail ih =>
    obtain ⟨parent, i⟩ := e
    exact (Node.all_iff.1 (ih h.2)).2 n (List.mem_of_getElem? h.1)

theorem Leads.all_of_mem (h : Leads root trail n) (hp : root.all p = true) {e : Node × Nat}
    (he : e ∈ trail) : e.1.all p = true := by
  induction trail generalizing n with
  | nil => exact absurd he List.not_mem_nil
  | cons e' trail ih =>
    rcases List.mem_cons.1 he with rfl | he
    · exact h.2.all hp
    · exact ih h.2 he

theorem Leads.exists_outer (h : Leads root trail n) {e : Node × Nat} (he : e ∈ trail) :
    ∃ outer, Leads root outer e.1 ∧ (∀ e' ∈ outer, e' ∈ trail) ∧ e.1.children ≠ [] := by
  induction trail generalizing n with
  | nil => exact absurd he List.not_mem_nil
  | cons e' trail ih =>
    rcases List.mem_cons.1 he with rfl | he
    · exact ⟨trail, h.2, fun _ he => List.mem_cons_of_mem _ he,
        List.ne_nil_of_mem (List.mem_of_getElem? h.1)⟩
    · obtain ⟨outer, hleads, hmem, hne⟩ := ih h.2 he
      exact ⟨outer, hleads, fun e he => List.mem_cons_of_mem _ (hmem e he), hne⟩

theorem Leads.append {outer : Trail} {top : Node} (h : Leads top trail n)
    (houter : Leads root outer top) : Leads root (trail ++ outer) n := by
  induction trail generalizing n with
  | nil =>
    rw [Leads] at h
    rw [h]
    exact houter
  | cons e trail ih => exact ⟨h.1, ih h.2⟩

/-- A trail that is not empty starts at a child of the root. -/
theorem Leads.of_concat {e : Node × Nat} (h : Leads root (trail ++ [e]) n) :
    e.1 = root ∧ ∃ c, root.children[e.2]? = some c ∧ Leads c trail n := by
  induction trail generalizing n with
  | nil =>
    obtain ⟨h1, h2⟩ := h
    rw [Leads] at h2
    exact ⟨h2, n, h2 ▸ h1, rfl⟩
  | cons e' trail ih =>
    obtain ⟨h1, c, hc, h2⟩ := ih h.2
    exact ⟨h1, c, hc, h.1, h2⟩

end Trail

end RegistryScript
