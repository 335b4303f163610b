import Mathlib
import RegistryScript.Proofs.Run
import RegistryScript.Proofs.Scoping.Visits

/-! # The order of a walk

A walk with its stack of tasks is a loop over the visits of the recursion: over the nodes that are
reached from its root by way of walked children, in pre-order, each one with what is around it.

* `Trail.places`: the places on the way from the root to a node. That one way comes before another
  in the lexicographic order is that its node comes before the other in pre-order.
* `mem_visitsIn_iff`, `visitsIn_preorder`: which nodes are visited, and in which order.
* `Surroundings.along`: what is around a node that a trail leads to.
* `walkVisit`: what a walk does with one node.
* `walk_preorder`: the walk is the loop over the nodes in pre-order.
-/

namespace RegistryScript
set_option autoImplicit false

/-! ## Which nodes are visited -/

namespace Trail

variable {top p n : Node} {i : Nat} {trail outer : Trail}

def places (trail : Trail) : List Nat := (trail.map Prod.snd).reverse

@[simp] theorem places_cons : places ((p, i) :: trail) = places trail ++ [i] := by
  rw [places, List.map_cons, List.reverse_cons]
  rfl

@[simp] theorem places_append : places (trail ++ outer) = places outer ++ places trail := by
  rw [places, List.map_append, List.reverse_append]
  rfl

theorem isWalked_append (h : Leads top trail n) :
    (trail ++ outer).IsWalked n ↔ trail.IsWalked n ∧ outer.IsWalked top := by
  induction trail generalizing n with
  | nil =>
    rw [Leads] at h
    rw [h]
    exact (and_iff_right trivial).symm
  | cons e trail ih =>
    rw [List.cons_append, IsWalked, IsWalked, ih h.2, and_assoc]

end Trail

variable {statement m n p : Node} {trail t : Trail} {v : Visit}

theorem exists_of_mem_visitsIn (hv : v ∈ visitsIn statement t m) :
    ∃ trail, v = ⟨statement, trail ++ t, v.node⟩ ∧ Trail.Leads m trail v.node ∧
      trail.IsWalked v.node := by
  induction m using Node.induct generalizing t with
  | step m ih =>
    rw [visitsIn_eq, Script.visitsAmong_eq_flatMap, List.mem_cons, List.mem_flatMap] at hv
    rcases hv with rfl | ⟨e, he, hv⟩
    · exact ⟨[], rfl, rfl, trivial⟩
    · split at hv
      · next hw =>
        obtain ⟨trail, heq, hleads, hwalked⟩ := ih e.2 (Script.mem_numbered he).1 hv
        refine ⟨trail ++ [(m, e.1)], ?_, hleads.append ⟨getElem?_of_mem_numbered he, rfl⟩,
          (Trail.isWalked_append hleads).2 ⟨hwalked, hw, trivial⟩⟩
        rw [List.append_assoc]
        exact heq
      · exact absurd hv List.not_mem_nil

/-- The nodes that a walk visits are those that it reaches from its root through children that are
not skipped. -/
theorem mem_visitsIn_iff : v ∈ visitsIn m [] m ↔
    v.statement = m ∧ Trail.Leads m v.trail v.node ∧ v.trail.IsWalked v.node := by
  constructor
  · intro hv
    obtain ⟨trail, heq, hleads, hwalked⟩ := exists_of_mem_visitsIn hv
    rw [List.append_nil] at heq
    rw [heq]
    exact ⟨rfl, hleads, hwalked⟩
  · rintro ⟨rfl, hleads, hwalked⟩
    have hmem : ⟨v.statement, v.trail ++ [], v.node⟩ ∈ visitsIn v.statement [] v.statement :=
      mem_visitsIn_of_leads hleads hwalked
    rwa [List.append_nil] at hmem

/-! ## The order of the visits -/

theorem exists_places_of_mem_visitsIn (hv : v ∈ visitsIn statement t m) :
    ∃ places, v.trail.places = t.places ++ places := by
  obtain ⟨trail, heq, -, -⟩ := exists_of_mem_visitsIn hv
  rw [heq, Trail.places_append]
  exact ⟨_, rfl⟩

theorem visitsIn_preorder :
    (visitsIn statement t m).Pairwise fun v w => v.trail.places < w.trail.places := by
  induction m using Node.induct generalizing t with
  | step m ih =>
    -- What is visited inside the child at a place has this place on its way.
    have hplace : ∀ e ∈ Node.numbered 0 m.children, ∀ v ∈
        (if e.2.isNamed && !e.2.kind.isSkipped then visitsIn statement ((m, e.1) :: t) e.2 else []),
        ∃ rest, v.trail.places = t.places ++ (e.1 :: rest) := by
      intro e _ v hv
      split at hv
      · obtain ⟨rest, heq⟩ := exists_places_of_mem_visitsIn hv
        refine ⟨rest, ?_⟩
        rw [heq, Trail.places_cons, List.append_assoc, List.singleton_append]
      · exact absurd hv List.not_mem_nil
    rw [visitsIn_eq, Script.visitsAmong_eq_flatMap]
    refine .cons ?_ (List.pairwise_flatMap.2 ⟨?_, ?_⟩)
    · intro v hv
      obtain ⟨e, he, hv⟩ := List.mem_flatMap.1 hv
      obtain ⟨rest, heq⟩ := hplace e he v hv
      have hlt : t.places ++ [] < t.places ++ (e.1 :: rest) :=
        List.append_left_lt (List.nil_lt_cons _ _)
      rwa [List.append_nil, ← heq] at hlt
    · intro e he
      split
      · exact ih e.2 (Script.mem_numbered he).1
      · exact .nil
    · refine (pairwise_numbered_lt 0 m.children).imp_of_mem fun {e e'} he he' hlt v hv w hw => ?_
      obtain ⟨rest, heq⟩ := hplace e he v hv
      obtain ⟨rest', heq'⟩ := hplace e' he' w hw
      rw [heq, heq']
      exact List.append_left_lt (List.Lex.rel hlt)

/-! ## The loop over the visits -/

/-- What is around a node of a tree with something around: the nodes of the trail to it, and of the
names that they declare those that are some. -/
def Surroundings.along (around : Surroundings) (names : Node → List Text) (trail : Trail) :
    Surroundings where
  ancestors := trail.nodes ++ around.ancestors
  scopes := (trail.nodes.map names).filter (fun declared => !declared.isEmpty) ++ around.scopes

def Trail.placeFrom (index : Nat) (trail : Trail) : Nat := (trail.head?.map Prod.snd).getD index

theorem Surroundings.inside_along {around : Surroundings} {names : Node → List Text} {i : Nat} :
    (around.along names trail).inside n (names n) = around.along names ((n, i) :: trail) := by
  rw [along, along, inside, Trail.nodes, Trail.nodes, List.map_cons, List.map_cons,
    List.filter_cons]
  cases (names n).isEmpty <;> rfl

section Loop

variable {ε σ : Type} (visit : Surroundings → Nat → Node → ExceptT ε (StateM σ) Bool)
  (declared : Node → Except ε (List Text))

def namesOf (n : Node) : List Text := (declared n).toOption.getD []

/-- What a walk does with one node: it visits the node, with what is around it, and asks for the
names that the node declares for its inside if something inside is walked. -/
def walkVisit (around : Surroundings) (index count : Nat) (v : Visit) :
    ExceptT ε (StateM σ) Nat := do
  let isReference ←
    visit (around.along (namesOf declared) v.trail) (v.trail.placeFrom index) v.node
  let count := if isReference then count + 1 else count
  if v.node.walkedChildren.isEmpty then return count
  else
    let _ ← (liftM (declared v.node) : ExceptT ε (StateM σ) (List Text))
    return count

theorem walkAmong_eq_foldlM {around : Surroundings} {index count first i : Nat} {ns : List Node}
    (ih : ∀ n ∈ ns, ∀ trail count,
      walkNode visit (fun n => liftM (declared n)) (around.along (namesOf declared) trail) count
          (trail.placeFrom index) n =
        (visitsIn statement trail n).foldlM (walkVisit visit declared around index) count) :
    walkAmong visit (fun n => liftM (declared n))
        (around.along (namesOf declared) ((p, i) :: trail)) count first ns =
      (visitsAmong statement p trail first ns).foldlM (walkVisit visit declared around index)
        count := by
  induction ns generalizing count first with
  | nil => rfl
  | cons n ns ihs =>
    have hns := fun count first => @ihs count first fun c hc => ih c (List.mem_cons_of_mem n hc)
    rw [walkAmong, visitsAmong]
    by_cases h : (n.isNamed && !n.kind.isSkipped) = true
    · rw [if_pos h, if_pos h, List.foldlM_append, ← ih n List.mem_cons_self]
      exact bind_congr fun count => hns count (first + 1)
    · rw [if_neg h, if_neg h]
      exact hns count (first + 1)

theorem walkNode_eq_foldlM (around : Surroundings) (index count : Nat) :
    walkNode visit (fun n => liftM (declared n)) (around.along (namesOf declared) trail) count
        (trail.placeFrom index) n =
      (visitsIn statement trail n).foldlM (walkVisit visit declared around index) count := by
  induction n using Node.induct generalizing trail count with
  | step n ih =>
    rw [walkNode_eq, visitsIn_eq, List.foldlM_cons, walkVisit, bind_assoc]
    refine bind_congr fun isReference => ?_
    by_cases h : n.walkedChildren.isEmpty = true
    · rw [if_pos h, if_pos h, pure_bind, visitsAmong_eq_nil (List.isEmpty_iff.1 h)]
      rfl
    · rw [if_neg h, if_neg h, bind_assoc]
      cases hnames : declared n with
      | error e => rfl
      | ok names =>
        have hof : namesOf declared n = names := by
          rw [namesOf, hnames]
          rfl
        have hinside : (around.along (namesOf declared) trail).inside n names =
            around.along (namesOf declared) ((n, 0) :: trail) := by
          rw [← Surroundings.inside_along, hof]
        have hchildren := @walkAmong_eq_foldlM statement n trail ε σ visit declared around index
          (if isReference then count + 1 else count) 0 0 n.children fun c hc _ _ => ih c hc _
        rw [← hinside] at hchildren
        exact hchildren

theorem walk_eq_foldlM (around : Surroundings) (count index : Nat) (m : Node) :
    walk visit (fun n => liftM (declared n)) around count [.enter index m] =
      (visitsIn m [] m).foldlM (walkVisit visit declared around index) count >>= fun count =>
        pure (count, around) := by
  rw [walk_single, ← walkNode_eq_foldlM visit declared around index count]
  rfl

/-- The walk of a tree is a loop over the nodes that are reached from its root through children that
are not skipped: in pre-order, each one once, and with what is around it. In the end the walk knows
what is around its root. -/
theorem walk_preorder (around : Surroundings) (count index : Nat) (m : Node) :
    walk visit (fun n => liftM (declared n)) around count [.enter index m] =
        ((visitsIn m [] m).foldlM (walkVisit visit declared around index) count >>= fun count =>
          pure (count, around)) ∧
      (∀ v : Visit, v ∈ visitsIn m [] m ↔
        v.statement = m ∧ Trail.Leads m v.trail v.node ∧ v.trail.IsWalked v.node) ∧
      (visitsIn m [] m).Pairwise fun v w => v.trail.places < w.trail.places :=
  ⟨walk_eq_foldlM visit declared around count index m, fun _ => mem_visitsIn_iff, visitsIn_preorder⟩

end Loop

theorem rebindStatement_eq_foldlM (s : Script) (count : Nat) (statement : Node) :
    rebindStatement s count statement =
      (walkedParts statement).foldlM (fun count p =>
        (visitsIn p.2.1 [] p.2.1).foldlM (walkVisit (visitNode s statement) s.scopeNames
          { ancestors := p.2.2 } p.1) count) count := by
  rw [rebindStatement_eq]
  congr 1
  funext count p
  rw [← walkNode_eq_foldlM (visitNode s statement) s.scopeNames { ancestors := p.2.2 } p.1 count]
  rfl

end RegistryScript
