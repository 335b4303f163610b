import Mathlib
import RegistryScript.Proofs.References.Log
import RegistryScript.Proofs.Run
import RegistryScript.Proofs.Scoping.Shape
import RegistryScript.Proofs.Script.Locality

/-! # What the pass takes a node to declare

* `Node.noticed`: the identifiers that a node itself, the statements in it or the variable statements
  of a function declare, wherever inside the node they are seen.
* `boundIdentifiers_eq`: of a declaration target the pass collects what the target binds.
* `hoistedNames_eq`: of a function body it collects what variable statements declare.
* `scopeNames_eq`: of a node it collects the names of the noticed identifiers.
-/

namespace RegistryScript
set_option autoImplicit false

/-! ## Noticed identifiers -/

namespace Node

/-- The variables that the variable statements in a node declare, functions and classes inside it
left out. -/
def statementVars (n : Node) : List Node := n.region.flatMap statementVariables

def bodyStatementVars (n : Node) : List Node := (n.bodyBlock?.map statementVars).getD []

def itemNames (n : Node) : List Node := n.lexicals ++ n.statementVariables

/-- The identifiers that a node, a statement directly in it or, in the body of a function, some
variable statement declares. -/
def noticed (n : Node) : List Node :=
  if n.kind.isFunction then
    n.parameters ++ (if n.kind.isFunctionExpression then n.ownNames else []) ++ n.bodyStatementVars
  else if n.kind = .classExpression then n.ownNames
  else if n.kind = .statementBlock ∨ n.kind = .classStaticBlock then
    n.namedChildren.flatMap itemNames
  else if n.kind = .switchBody then
    n.namedChildren.flatMap fun c => c.namedChildren.flatMap itemNames
  else if n.kind = .forStatement then ((n.child? .initializer).map itemNames).getD []
  else if n.kind = .forInStatement then
    if (n.child? .kind).isSome then n.targetsAt .left else []
  else if n.kind = .catchClause then n.targetsAt .parameter
  else []

variable {n c m : Node} {p : Node → Bool}

theorem noticed_of_classExpression (h : n.kind = .classExpression) : n.noticed = n.ownNames := by
  simp [noticed, h, Kind.isFunction]

theorem noticed_of_block (h : n.kind = .statementBlock ∨ n.kind = .classStaticBlock) :
    n.noticed = n.namedChildren.flatMap itemNames := by
  rcases h with h | h <;> simp [noticed, h, Kind.isFunction]

theorem noticed_of_switchBody (h : n.kind = .switchBody) :
    n.noticed = n.namedChildren.flatMap fun c => c.namedChildren.flatMap itemNames := by
  simp [noticed, h, Kind.isFunction]

theorem noticed_of_forStatement (h : n.kind = .forStatement) :
    n.noticed = ((n.child? .initializer).map itemNames).getD [] := by
  simp [noticed, h, Kind.isFunction]

theorem noticed_of_forInStatement (h : n.kind = .forInStatement) :
    n.noticed = if (n.child? .kind).isSome then n.targetsAt .left else [] := by
  simp [noticed, h, Kind.isFunction]

theorem noticed_of_catchClause (h : n.kind = .catchClause) :
    n.noticed = n.targetsAt .parameter := by
  simp [noticed, h, Kind.isFunction]

theorem kind_of_mem_noticed (h : m ∈ n.noticed) :
    n.kind.isFunction = true ∨ n.kind = .classExpression ∨
      (n.kind = .statementBlock ∨ n.kind = .classStaticBlock) ∨ n.kind = .switchBody ∨
      n.kind = .forStatement ∨ n.kind = .forInStatement ∨ n.kind = .catchClause := by
  by_contra hk
  push Not at hk
  obtain ⟨hfunction, hclass, ⟨hblock, hstatic⟩, hswitch, hfor, hforIn, hcatch⟩ := hk
  simp [noticed, hfunction, hclass, hblock, hstatic, hswitch, hfor, hforIn, hcatch] at h

/-! ## Shapes of the parts of a node -/

theorem takes_of_getElem? {i : Nat} (h : n.isShaped = true) (hi : n.children[i]? = some c) :
    n.takes i c = true := by
  rw [isShaped, Bool.and_eq_true, List.all_eq_true] at h
  exact h.2 (i, c) (mem_numbered_of_getElem? hi)

theorem takes_of_mem (h : n.isShaped = true) (hc : c ∈ n.children) : ∃ i, n.takes i c = true := by
  obtain ⟨i, hi⟩ := List.mem_iff_getElem?.1 hc
  exact ⟨i, takes_of_getElem? h hi⟩

theorem takesProperty_of_mem (h : n.isShaped = true) (hc : c ∈ n.children) :
    n.takesProperty c = true := by
  obtain ⟨i, hi⟩ := takes_of_mem h hc
  simp only [takes, Bool.and_eq_true] at hi
  exact hi.1.2

theorem kind_of_takesProperty (h : n.takesProperty c = true) (hk : n.kind ≠ .objectPattern) :
    c.kind ≠ .pairPattern ∧ c.kind ≠ .objectAssignmentPattern := by
  constructor <;> intro hc <;> simp [takesProperty, hc, hk] at h

theorem mem_of_child? {role : Role} (h : n.child? role = some c) : c ∈ n.children :=
  List.mem_of_find?_eq_some h

theorem mem_of_mem_namedChildren (h : c ∈ n.namedChildren) : c ∈ n.children :=
  (List.mem_filter.1 h).1

theorem all_of_mem_namedChildren (hn : n.all p = true) (h : c ∈ n.namedChildren) :
    c.all p = true :=
  (all_iff.1 hn).2 c (mem_of_mem_namedChildren h)

end Node

/-! ## Targets -/

namespace Node

variable {n c m : Node} {p : Node → Bool} {role : Role} {ns : List Node}

theorem targetsAmong_eq : targetsAmong ns = (ns.filter isNamed).flatMap targets := by
  induction ns with
  | nil => rfl
  | cons n ns ih =>
    rw [targetsAmong, List.filter_cons]
    split
    · rw [List.flatMap_cons, ih]
    · exact ih

theorem targetsIn_eq :
    targetsIn role ns = ((ns.find? fun c => c.role = some role).map targets).getD [] := by
  induction ns with
  | nil => rfl
  | cons n ns ih =>
    rw [targetsIn, List.find?_cons]
    by_cases h : n.role = some role
    · simp [h]
    · simp [h, ih]

theorem areTargets_iff :
    areTargets ns = true ↔ ∀ c ∈ ns, c.isNamed = true → c.isTarget = true := by
  induction ns with
  | nil => simp [areTargets]
  | cons n ns ih =>
    rw [areTargets, Bool.and_eq_true, ih, List.forall_mem_cons]
    refine and_congr_left fun _ => ?_
    cases n.isNamed <;> simp

theorem isTargetIn_eq :
    isTargetIn role ns = (ns.find? fun c => c.role = some role).all isTarget := by
  induction ns with
  | nil => rfl
  | cons n ns ih =>
    rw [isTargetIn, List.find?_cons]
    by_cases h : n.role = some role
    · simp [h]
    · simp [h, ih]

theorem isTarget_cases (h : n.isTarget = true) :
    ((n.kind = .identifier ∨ n.kind = .shorthandPropertyIdentifierPattern) ∧ n.targets = [n]) ∨
      ((n.kind = .undefined ∨ n.kind = .comment) ∧ n.targets = []) ∨
      ((n.kind = .objectPattern ∨ n.kind = .arrayPattern ∨ n.kind = .restPattern) ∧
        (∀ c ∈ n.namedChildren, c.isTarget = true) ∧
        n.targets = n.namedChildren.flatMap targets) ∨
      ∃ role, (n.kind = .pairPattern ∧ role = .value ∨
          (n.kind = .assignmentPattern ∨ n.kind = .objectAssignmentPattern) ∧ role = .left) ∧
        (n.child? role).all isTarget = true ∧ n.targets = n.targetsAt role := by
  obtain ⟨kind, start, stop, r, isNamed, isMissing, children⟩ := n
  unfold isTarget at h
  have hamong : areTargets children = true →
      ∀ c ∈ children.filter Node.isNamed, c.isTarget = true := fun ht c hc =>
    areTargets_iff.1 ht c (List.mem_filter.1 hc).1 (List.mem_filter.1 hc).2
  split at h
  · exact .inl ⟨.inl rfl, rfl⟩
  · exact .inl ⟨.inr rfl, rfl⟩
  · exact .inr (.inl ⟨.inl rfl, rfl⟩)
  · exact .inr (.inl ⟨.inr rfl, rfl⟩)
  · exact .inr (.inr (.inl ⟨.inl rfl, hamong h, targetsAmong_eq⟩))
  · exact .inr (.inr (.inl ⟨.inr (.inl rfl), hamong h, targetsAmong_eq⟩))
  · exact .inr (.inr (.inl ⟨.inr (.inr rfl), hamong h, targetsAmong_eq⟩))
  · exact .inr (.inr (.inr ⟨.value, .inl ⟨rfl, rfl⟩, isTargetIn_eq ▸ h, targetsIn_eq⟩))
  · exact .inr (.inr (.inr ⟨.left, .inr ⟨.inl rfl, rfl⟩, isTargetIn_eq ▸ h, targetsIn_eq⟩))
  · exact .inr (.inr (.inr ⟨.left, .inr ⟨.inr rfl, rfl⟩, isTargetIn_eq ▸ h, targetsIn_eq⟩))
  · exact absurd h Bool.false_ne_true

end Node

/-! ## What the pass collects of targets -/

section Bound

variable {n c : Node} {ns : List Node} {role : Role}

theorem boundInElements_eq
    (h : ∀ c ∈ ns, c.isNamed = true → boundIdentifiers c = .ok c.targets) :
    boundInElements ns = .ok ((ns.filter Node.isNamed).flatMap Node.targets) := by
  induction ns with
  | nil =>
    rw [boundInElements]
    rfl
  | cons n ns ih =>
    rw [boundInElements, ih fun c hc => h c (List.mem_cons_of_mem n hc), List.filter_cons]
    by_cases hn : n.isNamed = true
    · rw [if_pos hn, if_pos hn, h n List.mem_cons_self hn]
      rfl
    · rw [if_neg hn, if_neg hn]
      rfl

theorem boundInRole_eq
    (h : ∀ c, (ns.find? fun c => c.role = some role) = some c →
      boundIdentifiers c = .ok c.targets) :
    boundInRole role ns =
      .ok (((ns.find? fun c => c.role = some role).map Node.targets).getD []) := by
  induction ns with
  | nil =>
    rw [boundInRole]
    rfl
  | cons n ns ih =>
    rw [boundInRole]
    by_cases hn : n.role = some role
    · rw [if_pos hn, h n (by simp [hn])]
      simp [hn]
    · rw [if_neg hn, ih fun c hc => h c (by simp [hn, hc])]
      simp [hn]

/-- A part of an object pattern is collected as what it binds. -/
def CollectedAsProperty (n : Node) : Prop :=
  ∀ ns l, boundInProperties ns = .ok l → boundInProperties (n :: ns) = .ok (n.targets ++ l)

theorem boundInProperties_eq
    (h : ∀ c ∈ ns, c.isNamed = true → CollectedAsProperty c) :
    boundInProperties ns = .ok ((ns.filter Node.isNamed).flatMap Node.targets) := by
  induction ns with
  | nil =>
    rw [boundInProperties]
    rfl
  | cons n ns ih =>
    have hns := ih fun c hc => h c (List.mem_cons_of_mem n hc)
    rw [List.filter_cons]
    by_cases hn : n.isNamed = true
    · rw [if_pos hn, List.flatMap_cons]
      exact h n List.mem_cons_self hn ns _ hns
    · obtain ⟨kind, start, stop, r, isNamed, isMissing, children⟩ := n
      rw [Bool.not_eq_true] at hn
      obtain rfl : isNamed = false := hn
      unfold boundInProperties
      rw [hns]
      rfl

theorem boundIdentifiers_leaf (hk : (n.kind = .identifier ∨
      n.kind = .shorthandPropertyIdentifierPattern) ∧ n.targets = [n] ∨
    (n.kind = .undefined ∨ n.kind = .comment) ∧ n.targets = []) :
    boundIdentifiers n = .ok n.targets := by
  rcases hk with ⟨hk, htargets⟩ | ⟨hk, htargets⟩ <;> rw [htargets] <;> cases n <;>
    rcases hk with rfl | rfl <;> unfold boundIdentifiers <;> rfl

theorem boundIdentifiers_listed (hproperties : n.kind = .objectPattern →
      boundInProperties n.children = .ok n.targets)
    (helements : n.kind ≠ .objectPattern → boundInElements n.children = .ok n.targets)
    (hk : n.kind = .objectPattern ∨ n.kind = .arrayPattern ∨ n.kind = .restPattern) :
    boundIdentifiers n = .ok n.targets := by
  cases n
  rcases hk with rfl | rfl | rfl <;> unfold boundIdentifiers
  · exact hproperties rfl
  · exact helements nofun
  · exact helements nofun

theorem boundIdentifiers_assignment (hk : n.kind = .assignmentPattern)
    (h : boundInRole .left n.children = .ok n.targets) : boundIdentifiers n = .ok n.targets := by
  cases n
  obtain rfl := hk
  unfold boundIdentifiers
  exact h

theorem collectedAsProperty_of_bound (hn : n.isNamed = true)
    (hk : n.kind = .restPattern ∨ n.kind = .shorthandPropertyIdentifierPattern)
    (h : boundIdentifiers n = .ok n.targets) : CollectedAsProperty n := by
  intro ns l hl
  cases n
  obtain rfl := hn
  rcases hk with rfl | rfl <;>
  · unfold boundInProperties
    rw [hl]
    simp only [h]
    rfl

theorem collectedAsProperty_of_role (hn : n.isNamed = true)
    (hk : n.kind = .pairPattern ∧ role = .value ∨ n.kind = .objectAssignmentPattern ∧ role = .left)
    (h : boundInRole role n.children = .ok n.targets) : CollectedAsProperty n := by
  intro ns l hl
  cases n
  obtain rfl := hn
  rcases hk with ⟨rfl, rfl⟩ | ⟨rfl, rfl⟩ <;>
  · unfold boundInProperties
    simp only at h
    simp only [hl, h]
    rfl

theorem collectedAsProperty_comment (hn : n.isNamed = true) (hk : n.kind = .comment)
    (htargets : n.targets = []) : CollectedAsProperty n := by
  intro ns l hl
  rw [htargets]
  cases n
  obtain rfl := hn
  obtain rfl := hk
  unfold boundInProperties
  rw [hl]
  rfl

/-- The parts of a target are collected as they are once their own parts are: in roles and lists of
elements by their targets, in object patterns as properties. -/
theorem collected (hs : n.all Node.isShaped = true) (ht : n.isTarget = true) :
    (n.kind ≠ .pairPattern → n.kind ≠ .objectAssignmentPattern →
      boundIdentifiers n = .ok n.targets) ∧
    (n.isNamed = true →
      n.kind = .pairPattern ∨ n.kind = .objectAssignmentPattern ∨ n.kind = .restPattern ∨
        n.kind = .shorthandPropertyIdentifierPattern ∨ n.kind = .comment →
      CollectedAsProperty n) := by
  -- Both parts at once: a property holds targets, and an object pattern holds properties.
  induction n using Node.induct with
  | step n ih =>
    obtain ⟨hshaped, hall⟩ := Node.all_iff.1 hs
    have hchild : ∀ c ∈ n.children, c.isTarget = true → n.kind ≠ .objectPattern →
        boundIdentifiers c = .ok c.targets := by
      intro c hc htc hk
      obtain ⟨hpair, hproperty⟩ := Node.kind_of_takesProperty
        (Node.takesProperty_of_mem hshaped hc) hk
      exact (ih c hc (hall c hc) htc).1 hpair hproperty
    have hrole : ∀ role, (n.child? role).all Node.isTarget = true → n.kind ≠ .objectPattern →
        boundInRole role n.children = .ok (n.targetsAt role) := by
      intro role hall hk
      refine boundInRole_eq fun c hc => ?_
      have hc' : n.child? role = some c := hc
      rw [hc'] at hall
      exact hchild c (Node.mem_of_child? hc') hall hk
    rcases Node.isTarget_cases ht with ⟨hk, htargets⟩ | ⟨hk, htargets⟩ | ⟨hk, hnamed, htargets⟩ |
      ⟨role, hk, hallRole, htargets⟩
    · have hbound := boundIdentifiers_leaf (.inl ⟨hk, htargets⟩)
      refine ⟨fun _ _ => hbound, fun hn hkind => collectedAsProperty_of_bound hn ?_ hbound⟩
      rcases hk with hk | hk
      · simp [hk] at hkind
      · exact .inr hk
    · refine ⟨fun _ _ => boundIdentifiers_leaf (.inr ⟨hk, htargets⟩), fun hn hkind =>
        collectedAsProperty_comment hn ?_ htargets⟩
      rcases hk with hk | hk
      · simp [hk] at hkind
      · exact hk
    · have hbound : boundIdentifiers n = .ok n.targets := by
        refine boundIdentifiers_listed (fun hk => ?_) (fun hk => ?_) hk
        · rw [htargets]
          refine boundInProperties_eq fun c hc hn => ?_
          have hp := Node.takesProperty_of_mem hshaped hc
          refine (ih c hc (hall c hc) (hnamed c (List.mem_filter.2 ⟨hc, hn⟩))).2 hn ?_
          unfold Node.takesProperty at hp
          split at hp <;> simp_all
        · rw [htargets]
          exact boundInElements_eq fun c hc hn =>
            hchild c hc (hnamed c (List.mem_filter.2 ⟨hc, hn⟩)) hk
      refine ⟨fun _ _ => hbound, fun hn hkind => collectedAsProperty_of_bound hn ?_ hbound⟩
      rcases hk with hk | hk | hk
      · simp [hk] at hkind
      · simp [hk] at hkind
      · exact .inl hk
    · have hbound : boundInRole role n.children = .ok n.targets := by
        rw [htargets]
        refine hrole role hallRole ?_
        rcases hk with ⟨hk, -⟩ | ⟨hk | hk, -⟩ <;> rw [hk] <;> nofun
      rcases hk with hk | ⟨hk | hk, rfl⟩
      · exact ⟨fun hpair => absurd hk.1 hpair, fun hn _ =>
          collectedAsProperty_of_role hn (.inl hk) hbound⟩
      · refine ⟨fun _ _ => boundIdentifiers_assignment hk hbound, fun hn hkind => ?_⟩
        simp [hk] at hkind
      · exact ⟨fun _ hproperty => absurd hk hproperty, fun hn _ =>
          collectedAsProperty_of_role hn (.inr ⟨hk, rfl⟩) hbound⟩

end Bound

/-! ## The names of what is collected -/

namespace Node

variable {n c m : Node} {p : Node → Bool}

theorem mem_targets (h : m ∈ n.targets) : m = n ∨ ∃ c ∈ n.children, m ∈ c.targets := by
  obtain ⟨kind, start, stop, r, isNamed, isMissing, children⟩ := n
  have hamong : m ∈ targetsAmong children → ∃ c ∈ children, m ∈ c.targets := by
    rw [targetsAmong_eq, List.mem_flatMap]
    rintro ⟨c, hc, hm⟩
    exact ⟨c, (List.mem_filter.1 hc).1, hm⟩
  have hin : ∀ role, m ∈ targetsIn role children → ∃ c ∈ children, m ∈ c.targets := by
    intro role
    rw [targetsIn_eq]
    cases hc : children.find? fun c => c.role = some role with
    | none => exact fun hm => absurd hm List.not_mem_nil
    | some c => exact fun hm => ⟨c, List.mem_of_find?_eq_some hc, hm⟩
  unfold targets at h
  split at h
  · exact .inl (List.mem_singleton.1 h)
  · exact .inl (List.mem_singleton.1 h)
  · exact .inr (hamong h)
  · exact .inr (hamong h)
  · exact .inr (hamong h)
  · exact .inr (hin _ h)
  · exact .inr (hin _ h)
  · exact .inr (hin _ h)
  · exact absurd h List.not_mem_nil

theorem of_mem_targets (hn : n.all p = true) (h : m ∈ n.targets) : p m = true := by
  induction n using Node.induct with
  | step n ih =>
    rcases mem_targets h with rfl | ⟨c, hc, hm⟩
    · exact (all_iff.1 hn).1
    · exact ih c hc ((all_iff.1 hn).2 c hc) hm

theorem not_isPattern_of_isFunction (hn : n.isShaped = true) (hk : n.kind.isFunction = true)
    (hc : c ∈ n.children) : c.kind.isPattern = false := by
  obtain ⟨i, hi⟩ := takes_of_mem hn hc
  simp only [takes, Bool.and_eq_true, Bool.or_eq_true, Bool.not_eq_true'] at hi
  rcases hi.1.1.1 with h | h
  · exact h
  · unfold takesPattern at h
    split at h <;> simp_all [Kind.isFunction]

end Node

namespace Script

variable {s : Script} {n c : Node}

structure Holds (s : Script) (n : Node) : Prop where
  laidOut : s.IsLaidOut
  spans : n.all (Node.isSpanned s.text) = true
  shaped : n.all Node.isShaped = true

namespace Holds

theorem child (h : s.Holds n) (hc : c ∈ n.children) : s.Holds c :=
  ⟨h.laidOut, (Node.all_iff.1 h.spans).2 c hc, (Node.all_iff.1 h.shaped).2 c hc⟩

theorem namedChild (h : s.Holds n) (hc : c ∈ n.namedChildren) : s.Holds c :=
  h.child (Node.mem_of_mem_namedChildren hc)

theorem isShaped (h : s.Holds n) : n.isShaped = true := (Node.all_iff.1 h.shaped).1

theorem textOf (h : s.Holds n) : s.textOf n = .ok (s.textAt n) :=
  h.laidOut.textOf (Node.all_iff.1 h.spans).1

theorem declaresByTargets (h : s.Holds n) : n.declaresByTargets = true := by
  have := h.isShaped
  rw [Node.isShaped, Bool.and_eq_true, Bool.and_eq_true] at this
  exact this.1.2

theorem boundNames (h : s.Holds n) (hk : n.kind ≠ .objectPattern) (hc : c ∈ n.children)
    (ht : c.isTarget = true) : s.boundNames c = .ok (c.targets.map s.textAt) := by
  have hcs := h.child hc
  have hkind := Node.kind_of_takesProperty (Node.takesProperty_of_mem h.isShaped hc) hk
  rw [Script.boundNames, (collected hcs.shaped ht).1 hkind.1 hkind.2]
  exact mapM_eq_ok fun m hm => h.laidOut.textOf (Node.of_mem_targets hcs.spans hm)

theorem boundNamesAt (h : s.Holds n) (hk : n.kind ≠ .objectPattern) {role : Role}
    (ht : (n.child? role).all Node.isTarget = true) :
    s.boundNames? (n.child? role) = .ok ((n.targetsAt role).map s.textAt) := by
  rw [Node.targetsAt]
  cases hc : n.child? role with
  | none => rfl
  | some c =>
    rw [hc] at ht
    exact h.boundNames hk (Node.mem_of_child? hc) ht

theorem ownName (h : s.Holds n) : s.ownName n = .ok (n.ownNames.map s.textAt) := by
  rw [Script.ownName, Node.ownNames]
  cases hc : n.child? .name with
  | none => rfl
  | some c =>
    simp only [(h.child (Node.mem_of_child? hc)).textOf]
    rfl

theorem boundNames_declarator (h : s.Holds n) (hc : c ∈ n.namedChildren)
    (hk : c.kind = .variableDeclarator) :
    s.boundNames? (c.child? .name) = .ok ((c.targetsAt .name).map s.textAt) := by
  have ht := (h.namedChild hc).declaresByTargets
  rw [Node.declaresByTargets, if_pos hk] at ht
  exact (h.namedChild hc).boundNamesAt (by rw [hk]; nofun) ht

theorem declaratorNames (h : s.Holds n) :
    s.declaratorNames n = .ok (n.declared.map s.textAt) := by
  have hnames : ∀ c ∈ n.namedChildren.filter (fun c => c.kind = .variableDeclarator),
      s.boundNames? (c.child? .name) = .ok ((c.targetsAt .name).map s.textAt) := by
    intro c hc
    obtain ⟨hmem, hk⟩ := List.mem_filter.1 hc
    exact h.boundNames_declarator hmem (of_decide_eq_true hk)
  rw [Script.declaratorNames, mapM_eq_ok hnames, Node.declared, List.map_flatMap]
  rfl

theorem statementNames (h : s.Holds n) :
    s.statementNames n = .ok (n.itemNames.map s.textAt) := by
  rw [Script.statementNames, Node.itemNames, Node.lexicals, Node.statementVariables]
  by_cases hl : n.kind = .lexicalDeclaration
  · simp [hl, Kind.isVariableDeclaration, h.declaratorNames]
  · by_cases hv : n.kind = .variableDeclaration
    · simp [hv, Kind.isVariableDeclaration, Kind.isNamedDeclaration, h.declaratorNames]
    · have hvar : n.kind.isVariableDeclaration = false := by
        unfold Kind.isVariableDeclaration
        split <;> simp_all
      rw [hvar, if_neg Bool.false_ne_true, if_neg hl, if_neg hv, h.ownName]
      split
      · rw [List.append_nil]
      · rfl

theorem blockNames {l : List Node} (h : ∀ c ∈ l, s.Holds c) :
    s.blockNames l = .ok ((l.flatMap Node.itemNames).map s.textAt) := by
  rw [Script.blockNames, mapM_eq_ok fun c hc => (h c hc).statementNames, List.map_flatMap]
  rfl

/-! ## Variables of functions -/

theorem hoistedAmong {ns : List Node} (h : ∀ c ∈ ns, c.isNamed = true →
      ∃ l, s.hoistedIn c = .ok l ∧ ∀ x, x ∈ l ↔ x ∈ c.statementVars.map s.textAt) :
    ∃ l, s.hoistedAmong ns = .ok l ∧
      ∀ x, x ∈ l ↔ x ∈ ((Node.regionAmong ns).flatMap Node.statementVariables).map s.textAt := by
  induction ns with
  | nil => exact ⟨[], by rw [Script.hoistedAmong], fun x => Iff.rfl⟩
  | cons n ns ih =>
    obtain ⟨l, hl, hmem⟩ := ih fun c hc => h c (List.mem_cons_of_mem n hc)
    rw [Script.hoistedAmong, hl, Node.regionAmong]
    by_cases hn : n.isNamed = true
    · obtain ⟨l', hl', hmem'⟩ := h n List.mem_cons_self hn
      refine ⟨l ++ l', ?_, fun x => ?_⟩
      · simp only [hn, if_true, hl']
        rfl
      · rw [if_pos hn, List.mem_append, hmem, hmem', List.flatMap_append, List.map_append,
          List.mem_append, Node.statementVars]
        exact or_comm
    · refine ⟨l, ?_, fun x => ?_⟩
      · rw [Bool.not_eq_true] at hn
        rw [hn]
        rfl
      · rw [if_neg hn, hmem]

theorem hoistedIn (h : s.Holds n) :
    ∃ l, s.hoistedIn n = .ok l ∧ ∀ x, x ∈ l ↔ x ∈ n.statementVars.map s.textAt := by
  induction n using Node.induct with
  | step n ih =>
    obtain ⟨l, hl, hmem⟩ := hoistedAmong fun c hc _ => ih c hc (h.child hc)
    have hnames := h.declaratorNames
    obtain ⟨kind, start, stop, r, isNamed, isMissing, children⟩ := n
    rw [Script.hoistedIn, Node.statementVars, Node.region]
    by_cases hk : (kind.isFunction || kind.isClass) = true
    · rw [if_pos hk, if_pos hk]
      exact ⟨[], rfl, fun x => Iff.rfl⟩
    · rw [if_neg hk, if_neg hk, List.flatMap_cons, Node.statementVariables]
      simp only at hl hmem
      by_cases hv : kind = .variableDeclaration
      · rw [if_pos hv, if_pos hv, hnames, hl, List.map_append]
        exact ⟨_, rfl, fun x => by rw [List.mem_append, List.mem_append, hmem]⟩
      · rw [if_neg hv, if_neg hv, hl]
        exact ⟨l, rfl, fun x => by rw [List.nil_append, hmem]⟩

theorem hoistedNames (h : s.Holds n) (hk : n.kind = .statementBlock) :
    ∃ l, s.hoistedNames n = .ok l ∧ ∀ x, x ∈ l ↔ x ∈ n.statementVars.map s.textAt := by
  obtain ⟨l, hl, hmem⟩ := hoistedAmong fun c hc _ => (h.child hc).hoistedIn
  refine ⟨l, hl, fun x => ?_⟩
  rw [hmem, Node.statementVars]
  cases n
  obtain rfl := hk
  rfl

/-! ## All scopes -/

theorem parameterLists (h : s.Holds n) (hk : n.kind.isFunction = true)
    (ht : (n.child? .parameters).all (fun list => list.namedChildren.all Node.isTarget) = true) :
    ∃ l : List (List Text), (match n.child? .parameters with
        | some list => list.namedChildren.mapM s.boundNames
        | none => .ok []) = Except.ok l ∧
      l.flatten = (((n.child? .parameters).map fun list =>
        list.namedChildren.flatMap Node.targets).getD []).map s.textAt := by
  cases hc : n.child? .parameters with
  | none => exact ⟨[], rfl, rfl⟩
  | some list =>
    have hmem := Node.mem_of_child? hc
    have hobject : list.kind ≠ .objectPattern := by
      intro hlist
      have := Node.not_isPattern_of_isFunction h.isShaped hk hmem
      simp [hlist, Kind.isPattern] at this
    rw [hc] at ht
    have hnames : ∀ c ∈ list.namedChildren, s.boundNames c = .ok (c.targets.map s.textAt) :=
      fun c hc => (h.child hmem).boundNames hobject (Node.mem_of_mem_namedChildren hc)
        (List.all_eq_true.1 ht c hc)
    exact ⟨_, mapM_eq_ok hnames, by
      rw [Option.map_some, Option.getD_some, List.map_flatMap, List.flatMap_def]⟩

theorem bodyVariables (h : s.Holds n) :
    ∃ l : List Text, (match n.child? .body with
        | some body => if body.kind = .statementBlock then s.hoistedNames body else .ok []
        | none => .ok []) = Except.ok l ∧
      ∀ x, x ∈ l ↔ x ∈ n.bodyStatementVars.map s.textAt := by
  rw [Node.bodyStatementVars, Node.bodyBlock?]
  cases hc : n.child? .body with
  | none => exact ⟨[], rfl, fun x => Iff.rfl⟩
  | some body =>
    by_cases hb : body.kind = .statementBlock
    · obtain ⟨l, hl, hmem⟩ := (h.child (Node.mem_of_child? hc)).hoistedNames hb
      refine ⟨l, by rw [← hl]; exact if_pos hb, fun x => ?_⟩
      rw [hmem, Option.filter_some, if_pos (by simpa using hb)]
      rfl
    · refine ⟨[], if_neg hb, fun x => ?_⟩
      rw [Option.filter_some, if_neg (by simpa using hb)]
      rfl

theorem functionNames_eq (s : Script) (n : Node) :
    s.functionNames n =
      ((match n.child? .parameters with
        | some list => list.namedChildren.mapM s.boundNames
        | none => .ok []) >>= fun ps =>
      s.boundNames? (n.child? .parameter) >>= fun parameter =>
      (if n.kind.isFunctionExpression then s.ownName n else .ok []) >>= fun own =>
      (match n.child? .body with
        | some body => if body.kind = .statementBlock then s.hoistedNames body else .ok []
        | none => .ok []) >>= fun hoisted =>
      pure (ps.flatten ++ parameter ++ own ++ hoisted)) := by
  unfold Script.functionNames
  cases n.child? .parameters <;> cases n.child? .body <;> cases n.kind.isFunctionExpression <;>
    first
    | rfl
    | next body => by_cases hb : body.kind = .statementBlock <;> simp only [hb] <;> rfl

theorem functionNames (h : s.Holds n) (hk : n.kind.isFunction = true) :
    ∃ l, s.functionNames n = .ok l ∧ ∀ x, x ∈ l ↔ x ∈ n.noticed.map s.textAt := by
  have hobject : n.kind ≠ .objectPattern := fun h => by simp [h, Kind.isFunction] at hk
  have hdeclarator : n.kind ≠ .variableDeclarator := fun h => by simp [h, Kind.isFunction] at hk
  have ht := h.declaresByTargets
  rw [Node.declaresByTargets, if_neg hdeclarator, if_pos hk, Bool.and_eq_true] at ht
  obtain ⟨ps, hps, hpsmem⟩ := h.parameterLists hk ht.1
  obtain ⟨vs, hvs, hvsmem⟩ := h.bodyVariables
  have hown : (if n.kind.isFunctionExpression then s.ownName n else .ok []) =
      Except.ok ((if n.kind.isFunctionExpression then n.ownNames else []).map s.textAt) := by
    split
    · exact h.ownName
    · rfl
  refine ⟨ps.flatten ++ (n.targetsAt .parameter).map s.textAt ++
    (if n.kind.isFunctionExpression then n.ownNames else []).map s.textAt ++ vs, ?_, fun x => ?_⟩
  · rw [functionNames_eq, hps, h.boundNamesAt hobject ht.2, hown, hvs]
    rfl
  · rw [List.mem_append, hvsmem, hpsmem, Node.noticed, if_pos hk, Node.parameters]
    simp only [List.map_append, List.mem_append]

theorem scopeNames_of_block (h : s.Holds n)
    (hk : n.kind = .statementBlock ∨ n.kind = .classStaticBlock) :
    s.scopeNames n = .ok (n.noticed.map s.textAt) := by
  have hnames := blockNames fun c hc => h.namedChild hc
  rw [Node.noticed_of_block hk, ← hnames, Script.scopeNames]
  rcases hk with hk | hk <;> rw [hk] <;> rfl

theorem scopeNames_of_switchBody (h : s.Holds n) (hk : n.kind = .switchBody) :
    s.scopeNames n = .ok (n.noticed.map s.textAt) := by
  have hcases : ∀ c ∈ n.namedChildren, s.blockNames c.namedChildren =
      .ok ((c.namedChildren.flatMap Node.itemNames).map s.textAt) := fun c hc =>
    blockNames fun d hd => (h.namedChild hc).namedChild hd
  rw [Node.noticed_of_switchBody hk, Script.scopeNames, hk, List.map_flatMap, List.flatMap_def]
  simp only [mapM_eq_ok hcases]
  rfl

theorem scopeNames_of_forStatement (h : s.Holds n) (hk : n.kind = .forStatement) :
    s.scopeNames n = .ok (n.noticed.map s.textAt) := by
  rw [Node.noticed_of_forStatement hk, Script.scopeNames, hk]
  cases hc : n.child? .initializer with
  | none => rfl
  | some c =>
    have hnames : s.blockNames [c] = .ok (([c].flatMap Node.itemNames).map s.textAt) :=
      blockNames fun d hd => by
        rw [List.mem_singleton.1 hd]
        exact h.child (Node.mem_of_child? hc)
    rw [List.flatMap_singleton] at hnames
    exact hnames

theorem scopeNames_of_forInStatement (h : s.Holds n) (hk : n.kind = .forInStatement) :
    s.scopeNames n = .ok (n.noticed.map s.textAt) := by
  have ht := h.declaresByTargets
  rw [Node.declaresByTargets, hk, if_neg (by decide), if_neg (by decide), if_pos rfl,
    Bool.or_eq_true, Option.isNone_iff_eq_none] at ht
  rw [Node.noticed_of_forInStatement hk, Script.scopeNames, hk]
  cases hc : n.child? .kind with
  | none => rfl
  | some c =>
    rw [hc] at ht
    exact h.boundNamesAt (by simp [hk]) (ht.resolve_left (Option.some_ne_none c))

theorem scopeNames_of_catchClause (h : s.Holds n) (hk : n.kind = .catchClause) :
    s.scopeNames n = .ok (n.noticed.map s.textAt) := by
  have ht := h.declaresByTargets
  rw [Node.declaresByTargets, hk, if_neg (by decide), if_neg (by decide), if_neg (by decide)] at ht
  rw [Node.noticed_of_catchClause hk, Script.scopeNames, hk]
  exact h.boundNamesAt (by simp [hk]) (by simpa using ht)

theorem scopeNames (h : s.Holds n) :
    ∃ l, s.scopeNames n = .ok l ∧ ∀ x, x ∈ l ↔ x ∈ n.noticed.map s.textAt := by
  by_cases hfunction : n.kind.isFunction = true
  · rw [Script.scopeNames, if_pos hfunction]
    exact h.functionNames hfunction
  refine ⟨n.noticed.map s.textAt, ?_, fun x => Iff.rfl⟩
  by_cases hclass : n.kind = .classExpression
  · rw [Node.noticed_of_classExpression hclass, Script.scopeNames, hclass]
    exact h.ownName
  by_cases hblock : n.kind = .statementBlock ∨ n.kind = .classStaticBlock
  · exact h.scopeNames_of_block hblock
  by_cases hswitch : n.kind = .switchBody
  · exact h.scopeNames_of_switchBody hswitch
  by_cases hfor : n.kind = .forStatement
  · exact h.scopeNames_of_forStatement hfor
  by_cases hforIn : n.kind = .forInStatement
  · exact h.scopeNames_of_forInStatement hforIn
  by_cases hcatch : n.kind = .catchClause
  · exact h.scopeNames_of_catchClause hcatch
  -- no other node is taken to declare anything
  rw [Node.noticed, Script.scopeNames, if_neg hfunction, if_neg hfunction, if_neg hclass,
    if_neg hblock, if_neg hswitch, if_neg hfor, if_neg hforIn, if_neg hcatch]
  split <;> first | rfl | simp_all

/-- The names that the pass takes a node to declare are those of the noticed identifiers. -/
theorem mem_namesIn (h : s.Holds n) (x : Text) :
    x ∈ s.namesIn n ↔ ∃ m ∈ n.noticed, s.textAt m = x := by
  obtain ⟨l, hl, hmem⟩ := h.scopeNames
  rw [namesIn, hl, ← List.mem_map]
  exact hmem x

end Holds

end Script

end RegistryScript
