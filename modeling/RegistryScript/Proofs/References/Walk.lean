import Mathlib
import RegistryScript.Pass.References
import RegistryScript.Proofs.Script.Tree

/-! # The walk as a recursion over the tree

The walk of a tree keeps a stack of tasks and two lists of what is around the visited node. It does
what a recursion over the tree does, which hands down what is around a node as an argument.

* `walkNode`: the recursion.
* `walk_enter`: to enter a node with a stack of tasks is to recurse into the node and to go on with
  the tasks, with what was around before.
* `Visit`, `visitsIn`: the visits of a recursion, in their order.
-/

namespace RegistryScript
set_option autoImplicit false

theorem Node.isChildAt_iff {n : Node} {role : Role} {i : Nat} :
    n.isChildAt role i = true ↔ n.childIndex? role = some i := by
  rw [isChildAt, decide_eq_true_eq]

section Recursion

variable {m : Type → Type} [Monad m] (visit : Surroundings → Nat → Node → m Bool)
  (declared : Node → m (List Text))

/-! ## The recursion -/

mutual

def walkNode (around : Surroundings) (count index : Nat) : Node → m Nat
  | n@⟨_, _, _, _, _, _, children⟩ => do
    let count := if ← visit around index n then count + 1 else count
    if n.walkedChildren.isEmpty then return count
    else
      let names ← declared n
      walkAmong (around.inside n names) count 0 children

def walkAmong (around : Surroundings) (count first : Nat) : List Node → m Nat
  | [] => return count
  | n :: ns =>
    if n.isNamed && !n.kind.isSkipped then do
      let count ← walkNode around count first n
      walkAmong around count (first + 1) ns
    else walkAmong around count (first + 1) ns

end

theorem walkNode_eq (around : Surroundings) (count index : Nat) (n : Node) :
    walkNode visit declared around count index n = (do
      let count := if ← visit around index n then count + 1 else count
      if n.walkedChildren.isEmpty then return count
      else
        let names ← declared n
        walkAmong visit declared (around.inside n names) count 0 n.children) := by
  cases n
  rw [walkNode]

/-! ## Tasks and recursion -/

theorem walk_leave (around : Surroundings) (count : Nat) (n : Node) (names : List Text)
    (tasks : List Task) :
    walk visit declared (around.inside n names) count
        ((if names.isEmpty then [.leave] else [.closeScope, .leave]) ++ tasks) =
      walk visit declared around count tasks := by
  cases h : names.isEmpty with
  | true =>
    rw [if_pos rfl, List.singleton_append, walk]
    simp only [Surroundings.inside, h, List.tail_cons, if_true]
  | false =>
    rw [if_neg Bool.false_ne_true, List.cons_append, List.singleton_append, walk, walk]
    simp only [Surroundings.inside, h, List.tail_cons, if_false, Bool.false_eq_true]

variable [LawfulMonad m]

theorem walk_enterAll {ns : List Node}
    (ih : ∀ n ∈ ns, ∀ around count index tasks,
      walk visit declared around count (.enter index n :: tasks) =
        walkNode visit declared around count index n >>= fun count =>
          walk visit declared around count tasks)
    (around : Surroundings) (count first : Nat) (tasks : List Task) :
    walk visit declared around count
        (((Node.numbered first ns).filter fun e => e.2.isNamed && !e.2.kind.isSkipped).map
          (fun e => Task.enter e.1 e.2) ++ tasks) =
      walkAmong visit declared around count first ns >>= fun count =>
        walk visit declared around count tasks := by
  induction ns generalizing count first with
  | nil => rw [walkAmong, pure_bind]; rfl
  | cons n ns ihs =>
    have hns := ihs fun c hc => ih c (List.mem_cons_of_mem n hc)
    rw [Node.numbered, List.filter_cons, walkAmong]
    by_cases h : (n.isNamed && !n.kind.isSkipped) = true
    · rw [if_pos h, if_pos h, List.map_cons, List.cons_append, ih n List.mem_cons_self, bind_assoc]
      exact bind_congr fun count => hns count (first + 1)
    · rw [if_neg h, if_neg h]
      exact hns count (first + 1)

/-- To enter a node is to recurse into it and to go on with the other tasks, with what was around
before. -/
theorem walk_enter (around : Surroundings) (count index : Nat) (n : Node) (tasks : List Task) :
    walk visit declared around count (.enter index n :: tasks) =
      walkNode visit declared around count index n >>= fun count =>
        walk visit declared around count tasks := by
  induction n using Node.induct generalizing around count index tasks with
  | step n ih =>
    rw [walk, walkNode_eq, bind_assoc]
    refine bind_congr fun isReference => ?_
    by_cases h : n.walkedChildren.isEmpty = true
    · rw [if_pos h, if_pos h, pure_bind]
    · rw [if_neg h, if_neg h, bind_assoc]
      refine bind_congr fun names => ?_
      rw [Task.inside, List.append_assoc, Node.walkedChildren, Node.indexed,
        walk_enterAll visit declared ih (around.inside n names) _ 0]
      exact bind_congr fun count => walk_leave visit declared around count n names tasks

theorem walk_single (around : Surroundings) (count index : Nat) (n : Node) :
    walk visit declared around count [.enter index n] =
      walkNode visit declared around count index n >>= fun count => pure (count, around) := by
  rw [walk_enter]
  refine bind_congr fun count => ?_
  rw [walk]

end Recursion

/-! ## Visits -/

/-- A visit of a walk: the statement that is walked, the nodes around the visited node below the
module, and the node itself. -/
structure Visit where
  statement : Node
  trail : Trail
  node : Node

mutual

def visitsIn (statement : Node) (trail : Trail) : Node → List Visit
  | n@⟨_, _, _, _, _, _, children⟩ =>
    ⟨statement, trail, n⟩ :: visitsAmong statement n trail 0 children

def visitsAmong (statement parent : Node) (trail : Trail) (first : Nat) :
    List Node → List Visit
  | [] => []
  | n :: ns =>
    if n.isNamed && !n.kind.isSkipped then
      visitsIn statement ((parent, first) :: trail) n ++
        visitsAmong statement parent trail (first + 1) ns
    else visitsAmong statement parent trail (first + 1) ns

end

theorem visitsIn_eq (statement : Node) (trail : Trail) (n : Node) :
    visitsIn statement trail n =
      ⟨statement, trail, n⟩ :: visitsAmong statement n trail 0 n.children := by
  cases n
  rw [visitsIn]

def partTrail (part : Nat × Node × List Node) : Trail := part.2.2.map fun n => (n, part.1)

def partVisits (statement : Node) (part : Nat × Node × List Node) : List Visit :=
  visitsIn statement (partTrail part) part.2.1

def statementVisits (statement : Node) : List Visit :=
  (walkedParts statement).flatMap (partVisits statement)

def Script.visits (s : Script) : List Visit :=
  (s.statements.filter fun n => n.kind ≠ .importStatement).flatMap statementVisits

end RegistryScript
