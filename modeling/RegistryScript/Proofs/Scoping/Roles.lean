import Mathlib
import RegistryScript.Proofs.Conflict.Apart
import RegistryScript.Proofs.Scoping.Targets

/-! # The role of an identifier in a target

The names of a target are collected from the target inwards, and whether an identifier declares a
name is found from the identifier outwards. The two agree on every identifier in a target.

* `Node.declaresTargetAt`: a declaration has its target at a place.
* `declaresName_inTarget`: an identifier in a target declares a name if the parts around it bind
  names where it is.
* `declaresName_iff_mem_boundIdentifiers`: these are the identifiers that are collected.
-/

namespace RegistryScript
set_option autoImplicit false

/-! ## Places in targets -/

namespace Node

/-- A declarator, a list of parameters, an arrow function with a single parameter, a catch clause or
the head of a loop with a declaration keyword has a target at a place. -/
def declaresTargetAt (n : Node) (i : Nat) : Bool :=
  match n.kind with
  | .variableDeclarator => n.isChildAt .name i
  | .formalParameters => true
  | .arrowFunction | .catchClause => n.isChildAt .parameter i
  | .forInStatement => n.isChildAt .left i && (n.child? .kind).isSome
  | _ => false

variable {p n : Node} {i : Nat}

theorem isNamed_of_children (hn : n.isShaped = true) (h : n.children ≠ []) : n.isNamed = true :=
  IsAlive.isNamed (.inr h) hn

theorem bindsAt_of_takesPattern (hp : p.kind.isPattern = true) (h : p.takesPattern i = true)
    (hnamed : (p.children[i]?).any isNamed = true) : p.bindsAt i = true := by
  rcases takesPattern_cases h with (hk | hk | hk) | hk | ⟨hk, hi⟩ | ⟨hk | hk, hi⟩ | ⟨hk, hi⟩ | hk |
    ⟨hk, hi⟩ | ⟨hk, hi⟩
  all_goals first
    | simp [hk, Kind.isPattern] at hp; done
    | simp [bindsAt, hk, hnamed]; done
    | simp [bindsAt, hk, hi]

/-- A name stands in a pattern where it is bound or as a default value. -/
theorem bindsAt_of_takesName {c : Node} (hp : p.kind.isPattern = true) (h : p.takesName i = true)
    (hc : p.children[i]? = some c) (hnamed : c.isNamed = true) :
    p.bindsAt i = !((p.kind = .assignmentPattern || p.kind = .objectAssignmentPattern) &&
      p.isChildAt .right i) := by
  by_cases hright : ((p.kind = .assignmentPattern || p.kind = .objectAssignmentPattern) &&
      p.isChildAt .right i) = true
  · rw [hright]
    rw [Bool.and_eq_true, Bool.or_eq_true, decide_eq_true_eq, decide_eq_true_eq] at hright
    have hleft : p.isChildAt .left i = false := by
      rw [← Bool.not_eq_true]
      intro hleft
      have hrole := Script.role_of_isChildAt hright.2 hc
      rw [Script.role_of_isChildAt hleft hc] at hrole
      exact nomatch hrole
    unfold bindsAt
    rcases hright.1 with hk | hk <;> simp [hk, hleft]
  · rw [Bool.not_eq_true] at hright
    rw [hright]
    rcases takesName_cases h hp hright with (hk | hk | hk) | ⟨hk, hi⟩ | ⟨hk | hk, hi⟩
    all_goals simp [bindsAt, *]

end Node

/-! ## Declared names -/

section Declared

variable {target owner m p : Node} {i : Nat} {trail : Trail} {ns : List Node}

theorem declaresName_of_declaresTargetAt (h : owner.declaresTargetAt i = true) :
    declaresName i (owner :: ns) = true := by
  unfold Node.declaresTargetAt at h
  split at h <;> simp_all [declaresName, Kind.isFunction, Kind.isClass]

theorem declaresName_cons (hp : p.kind.isPattern = true) :
    declaresName i (p :: ns) =
      (!((p.kind = .assignmentPattern || p.kind = .objectAssignmentPattern) &&
        p.isChildAt .right i) && patternDeclares ns) := by
  rw [← patternDeclares_cons hp]
  unfold Kind.isPattern at hp
  split at hp <;> simp_all [declaresName, Kind.isFunction, Kind.isClass, Kind.isPattern]

theorem not_isPattern_of_declaresTargetAt (h : owner.declaresTargetAt i = true) :
    owner.kind.isPattern = false := by
  unfold Node.declaresTargetAt at h
  split at h <;> simp_all [Kind.isPattern]

theorem patternDeclares_inTarget (h : owner.declaresTargetAt i = true)
    (hp : ∀ e ∈ trail, e.1.kind.isPattern = true) :
    patternDeclares (Trail.nodes trail ++ owner :: ns) = true := by
  induction trail with
  | nil =>
    have howner : patternOwner? (owner :: ns) = some owner := by
      rw [patternOwner?, List.find?_cons, not_isPattern_of_declaresTargetAt h]
      rfl
    rw [Trail.nodes, List.map_nil, List.nil_append, patternDeclares, howner]
    unfold Node.declaresTargetAt at h
    split at h <;> simp_all
  | cons e trail ih =>
    rw [Trail.nodes, List.map_cons, List.cons_append,
      patternDeclares_cons (hp e List.mem_cons_self)]
    exact ih fun e he => hp e (List.mem_cons_of_mem _ he)

theorem bindsAt_inTarget (hshaped : target.all Node.isShaped = true)
    (h : Trail.Leads target trail m) (hm : m.kind.isPattern = true) (hchildren : m.children ≠ [])
    (hp : ∀ e ∈ trail, e.1.kind.isPattern = true) : ∀ e ∈ trail, e.1.bindsAt e.2 = true := by
  induction trail generalizing m with
  | nil => exact fun _ he => absurd he List.not_mem_nil
  | cons e trail ih =>
    obtain ⟨p, j⟩ := e
    have hpattern := hp (p, j) List.mem_cons_self
    have htakes := Node.takes_of_getElem? (Node.all_iff.1 (h.2.all hshaped)).1 h.1
    simp only [Node.takes, hm, Bool.not_true, Bool.false_or, Bool.and_eq_true] at htakes
    have hnamed := Node.isNamed_of_children (Node.all_iff.1 (Trail.Leads.all h hshaped)).1 hchildren
    refine List.forall_mem_cons.2 ⟨?_, ih h.2 hpattern
      (List.ne_nil_of_mem (List.mem_of_getElem? h.1)) fun e he => hp e (List.mem_cons_of_mem _ he)⟩
    refine Node.bindsAt_of_takesPattern hpattern htakes.1.1.1 ?_
    rw [h.1]
    exact hnamed

theorem declaresName_inTarget (hshaped : target.all Node.isShaped = true)
    (howner : owner.declaresTargetAt i = true) (h : Trail.Leads target trail m)
    (hm : m.kind = .identifier) (hp : ∀ e ∈ trail, e.1.kind.isPattern = true) :
    declaresName (Trail.place (trail ++ [(owner, i)])) (Trail.nodes trail ++ owner :: ns) =
      trail.all fun e => e.1.bindsAt e.2 := by
  cases trail with
  | nil => exact declaresName_of_declaresTargetAt howner
  | cons e trail =>
    obtain ⟨p, j⟩ := e
    have hpattern := hp (p, j) List.mem_cons_self
    have hrest : ∀ e ∈ trail, e.1.kind.isPattern = true := fun e he =>
      hp e (List.mem_cons_of_mem _ he)
    have htakes := Node.takes_of_getElem? (Node.all_iff.1 (h.2.all hshaped)).1 h.1
    simp only [Node.takes, hm, Kind.isNameUse, Bool.not_true, Bool.false_or, Bool.and_eq_true]
      at htakes
    have hnamed := Node.IsAlive.isNamed (.inl (by rw [hm]; rfl))
      (Node.all_iff.1 (Trail.Leads.all h hshaped)).1
    have hbinds := bindsAt_inTarget hshaped h.2 hpattern
      (List.ne_nil_of_mem (List.mem_of_getElem? h.1)) hrest
    have hplace : Trail.place ((p, j) :: trail ++ [(owner, i)]) = j := rfl
    rw [hplace, Trail.nodes, List.map_cons, List.cons_append, declaresName_cons hpattern,
      ← Node.bindsAt_of_takesName hpattern htakes.1.1.2 h.1 hnamed, List.all_cons,
      List.all_eq_true.2 hbinds]
    rw [← Trail.nodes, patternDeclares_inTarget howner hrest]

end Declared

/-! ## Collected and declared names -/

theorem Node.isPiece_of_isPattern {p : Node} (h : p.kind.isPattern = true) : p.isPiece = false := by
  unfold Kind.isPattern at h
  split at h <;> simp_all [isPiece, isWord]

/-- In a script that is laid out a word stands in one place of a target. -/
theorem eq_of_leads {s : Script} {target m : Node} {t t' : Trail} (ht : s.IsTarget target)
    (h : Trail.Leads target t m) (h' : Trail.Leads target t' m) (hm : m.isWord = true)
    (hp : ∀ e ∈ t, e.1.kind.isPattern = true) (hp' : ∀ e ∈ t', e.1.kind.isPattern = true) :
    t = t' := by
  by_contra hne
  have hpiece : m.isPiece = true := by
    rw [Node.isPiece, hm]
    rfl
  have hlt := (ht.laidOut.word (Node.all_iff.1 (h.all ht.spans)).1
    (Node.all_iff.1 (h.all ht.sound)).1 hm).2
  have hapart := apart_of_spots ht.laidOut ht.spans
    ⟨h, hpiece, fun e he => Node.isPiece_of_isPattern (hp e he)⟩
    ⟨h', hpiece, fun e he => Node.isPiece_of_isPattern (hp' e he)⟩ hne
  omega

/-- Of the identifiers that stand in the target of a declaration with nothing but patterns around
them, those declare names that are collected from the target. The nodes around the declaration do
not matter. -/
theorem declaresName_iff_mem_boundIdentifiers {s : Script} {owner target m : Node} {i : Nat}
    {trail : Trail} (ht : s.IsTarget target) (howner : owner.declaresTargetAt i = true)
    (hchild : owner.children[i]? = some target) (h : Trail.Leads owner (trail ++ [(owner, i)]) m)
    (hm : m.kind = .identifier) (hp : ∀ e ∈ trail, e.1.kind.isPattern = true) (outer : List Node) :
    ∃ collected, boundIdentifiers target = .ok collected ∧
      (declaresName (Trail.place (trail ++ [(owner, i)]))
        (Trail.nodes (trail ++ [(owner, i)]) ++ outer) = true ↔ m ∈ collected) := by
  obtain ⟨-, c, hc, hleads⟩ := h.of_concat
  obtain rfl : target = c := Option.some.inj (hchild.symm.trans hc)
  have hnodes : Trail.nodes (trail ++ [(owner, i)]) ++ outer =
      Trail.nodes trail ++ owner :: outer := by
    rw [Trail.nodes, Trail.nodes, List.map_append, List.append_assoc]
    rfl
  have hname : m.kind.isBindingName = true := by
    rw [hm]
    rfl
  have hplain : m.isPlainName = true := by
    rw [Node.isPlainName, hm]
    rfl
  refine ⟨target.targets, ht.boundIdentifiers, ?_⟩
  rw [hnodes, declaresName_inTarget ht.shaped howner hleads hm hp, Node.mem_targets_iff,
    List.all_eq_true]
  constructor
  · intro hbinds
    exact ⟨⟨hname, trail, hleads, hbinds⟩, hplain⟩
  · rintro ⟨⟨-, trail', hleads', hbinds⟩, -⟩
    have hword := Script.isWord_of_isNameUse (n := m) (by rw [hm]; rfl)
    rw [eq_of_leads ht hleads hleads' hword hp fun e he =>
      Node.isPattern_of_bindsAt (hbinds e he)]
    exact hbinds

theorem declaresName_iff_mem_boundIdentifiers_patternModule :
    let s := Script.ofModule patternModule
    ∃ owner target m trail, s.IsTarget target ∧ owner.declaresTargetAt 0 = true ∧
      owner.children[0]? = some target ∧ Trail.Leads owner (trail ++ [(owner, 0)]) m ∧
      m.kind = .identifier ∧ (∀ e ∈ trail, e.1.kind.isPattern = true) ∧ s.textAt m = "c" ∧
      declaresName (Trail.place (trail ++ [(owner, 0)]))
        (Trail.nodes (trail ++ [(owner, 0)]) ++ []) = false ∧
      ∃ collected, boundIdentifiers target = .ok collected ∧ m ∉ collected := by
  intro s
  have hs : s.IsLaidOut := isReady_patternModule.laidOut
  have hshaped : s.root.all Node.isShaped = true := isReady_patternModule.module.shaped
  obtain ⟨outer, owner, hroot, howner⟩ := @Trail.exists_of_along s.root [0, 0]
    (fun _ owner => owner.declaresTargetAt 0 && (owner.children[0]?).any fun target =>
      target.isTarget && target.kind = .objectPattern &&
        (Trail.along target [1, 0, 1, 0]).any fun e =>
          e.2.kind = .identifier && (e.1.all fun e => e.1.kind.isPattern) && s.textAt e.2 = "c" &&
            !declaresName (Trail.place (e.1 ++ [(owner, 0)]))
              (Trail.nodes (e.1 ++ [(owner, 0)]) ++ []))
    (by decide +kernel)
  obtain ⟨hat, hrest⟩ := Bool.and_eq_true_iff.1 howner
  obtain ⟨target, hchild, hrest⟩ := (Option.any_eq_true _ _).1 hrest
  simp only [Bool.and_eq_true, decide_eq_true_eq] at hrest
  obtain ⟨⟨htarget, hk⟩, halong⟩ := hrest
  obtain ⟨⟨trail, m⟩, hplace, hm⟩ := (Option.any_eq_true _ _).1 halong
  have hleads := Trail.leads_of_along hplace
  simp only [Bool.and_eq_true, decide_eq_true_eq, Bool.not_eq_true', List.all_eq_true] at hm
  obtain ⟨⟨⟨hidentifier, hpatterns⟩, htext⟩, hdeclares⟩ := hm
  have hroot_target : Trail.Leads s.root ((owner, 0) :: outer) target := ⟨hchild, hroot⟩
  have ht := Script.isTarget_of_leads hs hshaped hroot_target htarget (.inl hk)
  have hleads_m : Trail.Leads owner (trail ++ [(owner, 0)]) m := hleads.append ⟨hchild, rfl⟩
  obtain ⟨collected, hok, hiff⟩ := declaresName_iff_mem_boundIdentifiers ht hat hchild hleads_m
    hidentifier hpatterns []
  refine ⟨owner, target, m, trail, ht, hat, hchild, hleads_m, hidentifier, hpatterns, htext,
    hdeclares, collected, hok, fun hmem => ?_⟩
  rw [hiff.2 hmem] at hdeclares
  exact nomatch hdeclares

end RegistryScript
