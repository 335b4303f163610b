import Mathlib
import RegistryScript.Proofs.Scoping.Handling

/-! # Declarations and scopes on trails

* `isBinding_of_declaresName`: what the pass takes for a declaration stands where one binds a name.
* `Script.isNoticed`: the pass takes some node around a reference to declare its name.
* `Visits.hides_iff`: this is what the pass asks for at a visit.
-/

namespace RegistryScript
set_option autoImplicit false

/-! ## Binding places -/

section Binding

variable {s : Script} {n p : Node} {t trail : Trail} {i : Nat}

theorem takes_of_leads (hm : s.IsModule) {e : Node × Nat}
    (h : Trail.Leads s.root (e :: trail) n) : e.1.takes e.2 n = true :=
  Node.takes_of_getElem? (Node.all_iff.1 (Trail.Leads.all h.2 hm.shaped)).1 h.1

theorem patternOwner?_cons (hp : p.kind.isPattern = true) (ns : List Node) :
    patternOwner? (p :: ns) = patternOwner? ns := by
  rw [patternOwner?, List.find?_cons, hp]
  rfl

theorem patternDeclares_cons (hp : p.kind.isPattern = true) (ns : List Node) :
    patternDeclares (p :: ns) = patternDeclares ns := by
  rw [patternDeclares, patternOwner?_cons hp, patternDeclares]

theorem takesPattern_cases (h : p.takesPattern i = true) :
    (p.kind = .objectPattern ∨ p.kind = .arrayPattern ∨ p.kind = .restPattern) ∨
      p.kind = .formalParameters ∨ (p.kind = .pairPattern ∧ p.isChildAt .value i = true) ∨
      ((p.kind = .assignmentPattern ∨ p.kind = .objectAssignmentPattern) ∧
        p.isChildAt .left i = true) ∨
      (p.kind = .forInStatement ∧ p.isChildAt .left i = true) ∨ p.kind = .assignmentExpression ∨
      (p.kind = .variableDeclarator ∧ p.isChildAt .name i = true) ∨
      (p.kind = .catchClause ∧ p.isChildAt .parameter i = true) := by
  unfold Node.takesPattern at h
  split at h <;> simp_all

/-- A pattern that is no assignment target and stands in no loop head without a keyword binds
names. -/
theorem isBinding_of_patternDeclares (hm : s.IsModule)
    (h : Trail.Leads s.root (t ++ [(s.root, i)]) p) (hp : p.kind.isPattern = true)
    (hd : patternDeclares (Trail.nodes t) = true) :
    Trail.isBinding (t ++ [(s.root, i)]) = true := by
  -- Outwards along the patterns up to the node that owns them.
  induction t generalizing p with
  | nil =>
    have htakes := takes_of_leads hm h
    simp only [Node.takes, hp, Bool.not_true, Bool.false_or, Bool.and_eq_true] at htakes
    have hplace := htakes.1.1.1
    unfold Node.takesPattern at hplace
    rw [hm.program] at hplace
    exact absurd hplace Bool.false_ne_true
  | cons e t ih =>
    obtain ⟨q, j⟩ := e
    have htakes := takes_of_leads hm h
    simp only [Node.takes, hp, Bool.not_true, Bool.false_or, Bool.and_eq_true] at htakes
    have hplace : q.takesPattern j = true := htakes.1.1.1
    have hrest : q.kind.isPattern = true → Trail.isBinding (t ++ [(s.root, i)]) = true := fun hq =>
      ih h.2 hq (by rw [← hd]; exact (patternDeclares_cons hq (Trail.nodes t)).symm)
    have howner : q.kind.isPattern = false → patternOwner? (Trail.nodes ((q, j) :: t)) = some q := by
      intro hq
      rw [Trail.nodes, List.map_cons, patternOwner?, List.find?_cons, hq]
      rfl
    rw [List.cons_append, Trail.isBinding]
    rcases takesPattern_cases hplace with (hk | hk | hk) | hk | ⟨hk, hi⟩ | ⟨hk | hk, hi⟩ |
      ⟨hk, hi⟩ | hk | ⟨hk, hi⟩ | ⟨hk, hi⟩
    · simp only [hk]
      exact hrest (by rw [hk]; rfl)
    · simp only [hk]
      exact hrest (by rw [hk]; rfl)
    · simp only [hk]
      exact hrest (by rw [hk]; rfl)
    · simp only [hk]
    · simp only [hk, hi, Bool.true_and]
      exact hrest (by rw [hk]; rfl)
    · simp only [hk, hi, Bool.true_and]
      exact hrest (by rw [hk]; rfl)
    · simp only [hk, hi, Bool.true_and]
      exact hrest (by rw [hk]; rfl)
    · simp only [hk, hi, Bool.true_and]
      rw [patternDeclares, howner (by rw [hk]; rfl)] at hd
      simpa only [hk] using hd
    · rw [patternDeclares, howner (by rw [hk]; rfl)] at hd
      simp only [hk] at hd
      exact absurd hd Bool.false_ne_true
    · simp only [hk, hi]
    · simp only [hk, hi]

theorem takesName_cases (h : p.takesName i = true) (hp : p.kind.isPattern = true)
    (hright : ((p.kind = .assignmentPattern || p.kind = .objectAssignmentPattern) &&
      p.isChildAt .right i) = false) :
    (p.kind = .objectPattern ∨ p.kind = .arrayPattern ∨ p.kind = .restPattern) ∨
      (p.kind = .pairPattern ∧ p.isChildAt .value i = true) ∨
      (p.kind = .assignmentPattern ∨ p.kind = .objectAssignmentPattern) ∧
        p.isChildAt .left i = true := by
  unfold Node.takesName at h
  unfold Kind.isPattern at hp
  split at hp <;> simp_all

theorem isBinding_of_declaresName (hm : s.IsModule)
    (h : Trail.Leads s.root (t ++ [(s.root, i)]) n) (hname : n.kind.isNameUse = true)
    (hd : declaresName (Trail.place t) (Trail.nodes t) = true) :
    Trail.isBinding (t ++ [(s.root, i)]) = true := by
  rcases t with _ | ⟨⟨p, j⟩, t⟩
  · exact absurd hd Bool.false_ne_true
  have htakes := takes_of_leads hm h
  simp only [Node.takes, hname, Bool.not_true, Bool.false_or, Bool.and_eq_true] at htakes
  have hplace : p.takesName j = true := htakes.1.1.2
  rw [List.cons_append, Trail.isBinding]
  replace hd : (if p.kind = .variableDeclarator then p.isChildAt .name j
    else if p.kind.isFunction || p.kind.isClass then p.isChildAt .name j || p.isChildAt .parameter j
    else if p.kind = .formalParameters then true
    else if p.kind = .catchClause then p.isChildAt .parameter j
    else if p.kind = .forInStatement then p.isChildAt .left j && (p.child? .kind).isSome
    else if (p.kind = .assignmentPattern || p.kind = .objectAssignmentPattern) &&
      p.isChildAt .right j then false
    else p.kind.isPattern && patternDeclares (p :: Trail.nodes t)) = true := hd
  by_cases hdeclarator : p.kind = .variableDeclarator
  · rw [if_pos hdeclarator] at hd
    simp only [hdeclarator, hd]
  rw [if_neg hdeclarator] at hd
  by_cases hnamed : (p.kind.isFunction || p.kind.isClass) = true
  · rw [if_pos hnamed] at hd
    have hkind : ∀ k : Kind, (k.isFunction || k.isClass) = false → p.kind ≠ k := by
      rintro k hk rfl
      rw [hk] at hnamed
      exact absurd hnamed Bool.false_ne_true
    simp only [hnamed, hd, Bool.and_self]
    split <;> first | rfl | exact absurd ‹_› (hkind _ rfl)
  rw [if_neg hnamed] at hd
  by_cases hparameters : p.kind = .formalParameters
  · simp only [hparameters]
  rw [if_neg hparameters] at hd
  by_cases hcatch : p.kind = .catchClause
  · rw [if_pos hcatch] at hd
    simp only [hcatch, hd]
  rw [if_neg hcatch] at hd
  by_cases hforIn : p.kind = .forInStatement
  · rw [if_pos hforIn] at hd
    simp only [hforIn, hd]
  rw [if_neg hforIn] at hd
  by_cases hright : ((p.kind = .assignmentPattern || p.kind = .objectAssignmentPattern) &&
      p.isChildAt .right j) = true
  · rw [if_pos hright] at hd
    exact absurd hd Bool.false_ne_true
  rw [if_neg hright, Bool.and_eq_true] at hd
  obtain ⟨hpattern, hdeclares⟩ := hd
  have hrest := isBinding_of_patternDeclares hm h.2 hpattern
    (by rw [← hdeclares]; exact (patternDeclares_cons hpattern (Trail.nodes t)).symm)
  rw [Bool.not_eq_true] at hright
  rcases takesName_cases hplace hpattern hright with (hk | hk | hk) | ⟨hk, hi⟩ | ⟨hk | hk, hi⟩
  · simp only [hk, hrest]
  · simp only [hk, hrest]
  · simp only [hk, hrest]
  · simp only [hk, hi, hrest, Bool.and_self]
  · simp only [hk, hi, hrest, Bool.and_self]
  · simp only [hk, hi, hrest, Bool.and_self]

end Binding

/-! ## Noticed names -/

namespace Script

/-- The pass takes some node around a reference to declare its name. -/
def isNoticed (s : Script) (trail : Trail) (n : Node) : Prop :=
  ∃ e ∈ trail, ∃ m ∈ e.1.noticed, s.textAt m = s.textAt n

variable {s : Script} {imports : ImportTable} {trail : Trail} {n : Node} {v : Visit}

theorem holds_of_leads (hs : s.IsLaidOut) (hm : s.IsModule) (h : Trail.Leads s.root trail n)
    {e : Node × Nat} (he : e ∈ trail) : s.Holds e.1 :=
  ⟨hs, h.all_of_mem hs.spans he, h.all_of_mem hm.shaped he⟩

theorem noticed_of_program {p : Node} (h : p.kind = .program) : p.noticed = [] := by
  simp [Node.noticed, h, Kind.isFunction]

theorem Visits.hides_iff (hv : s.Visits imports trail n v) (hs : s.IsLaidOut) (hm : s.IsModule)
    (h : Trail.Leads s.root trail n) :
    s.hides v.trail (s.textAt n) = true ↔ s.isNoticed trail n := by
  obtain ⟨i, rfl⟩ := hv.trail_eq
  rw [hides, List.any_eq_true]
  constructor
  · rintro ⟨e, he, hin⟩
    have hmem := List.mem_append_left [(s.root, i)] he
    exact ⟨e, hmem, ((holds_of_leads hs hm h hmem).mem_namesIn _).1 (by simpa using hin)⟩
  · rintro ⟨e, he, m, hnoticed, htext⟩
    have hin := ((holds_of_leads hs hm h he).mem_namesIn _).2 ⟨m, hnoticed, htext⟩
    rcases List.mem_append.1 he with he | he
    · exact ⟨e, he, by simpa using hin⟩
    · rw [List.mem_singleton.1 he, noticed_of_program hm.program] at hnoticed
      exact absurd hnoticed List.not_mem_nil

end Script

end RegistryScript
