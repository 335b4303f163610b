import Mathlib
import RegistryScript.Proofs.References.Local
import RegistryScript.Proofs.Scoping.Collectors

/-! # Visits of references

The pass comes by every reference of a module, with the nodes around it, and of all its local edits
only those of this visit touch the reference.

* `Trail.IsWalked`: a walk does not skip any node on the way to the one a trail leads to.
* `mem_visitsIn_of_leads`, `filter_visitsIn_of_leads`: such a node is visited, and what touches it.
* `Script.Visits`: a visit of the node that a trail leads to.
* `exists_visit`: every reference of a module is visited.
-/

namespace RegistryScript
set_option autoImplicit false

open Edit

/-! ## Walked trails -/

def Trail.IsWalked : Trail → Node → Prop
  | [], _ => True
  | (p, _) :: trail, n => (n.isNamed && !n.kind.isSkipped) = true ∧ IsWalked trail p

section Walk

variable {statement m n p c : Node} {t t₀ trail : Trail} {i : Nat}

theorem mem_visitsIn_self : ⟨statement, t₀, m⟩ ∈ visitsIn statement t₀ m := by
  rw [visitsIn_eq]
  exact List.mem_cons_self

theorem mem_visitsIn_child (hv : ⟨statement, t, p⟩ ∈ visitsIn statement t₀ m)
    (hi : p.children[i]? = some c) (hc : (c.isNamed && !c.kind.isSkipped) = true) :
    ⟨statement, (p, i) :: t, c⟩ ∈ visitsIn statement t₀ m := by
  induction m using Node.induct generalizing t₀ with
  | step m ih =>
    rw [visitsIn_eq, Script.visitsAmong_eq_flatMap, List.mem_cons] at hv ⊢
    refine .inr (List.mem_flatMap.2 ?_)
    rcases hv with hv | hv
    · obtain ⟨-, rfl, rfl⟩ := Visit.mk.inj hv
      refine ⟨(i, c), mem_numbered_of_getElem? hi, ?_⟩
      rw [if_pos hc]
      exact mem_visitsIn_self
    · obtain ⟨e, he, hv⟩ := List.mem_flatMap.1 hv
      refine ⟨e, he, ?_⟩
      split at hv
      · next hw =>
        rw [if_pos hw]
        exact ih e.2 (Script.mem_numbered he).1 hv
      · exact absurd hv List.not_mem_nil

theorem mem_visitsIn_of_leads (h : Trail.Leads m trail n) (hw : trail.IsWalked n) :
    ⟨statement, trail ++ t₀, n⟩ ∈ visitsIn statement t₀ m := by
  induction trail generalizing n with
  | nil =>
    rw [Trail.Leads] at h
    rw [h]
    exact mem_visitsIn_self
  | cons e trail ih => exact mem_visitsIn_child (ih h.2 hw.2) h.1 hw.1

variable {s : Script} {imports : ImportTable}

theorem bounds_of_leads (hs : s.IsLaidOut) (hspan : m.all (Node.isSpanned s.text) = true)
    (h : Trail.Leads m trail n) : s.startAt m ≤ s.startAt n ∧ s.stopAt n ≤ s.stopAt m := by
  induction trail generalizing n with
  | nil =>
    rw [Trail.Leads] at h
    rw [h]
    exact ⟨le_rfl, le_rfl⟩
  | cons e trail ih =>
    obtain ⟨h1, h2⟩ := ih h.2
    obtain ⟨h3, -, h4⟩ := (hs.spanned (h.2.all hspan)).follow.bounds (List.mem_of_getElem? h.1)
    exact ⟨h1.trans h3, h4.trans h2⟩

/-- Of the local edits of the visits in a node, those that touch a walked node are those of the
visits in this one. -/
theorem filter_visitsIn_of_leads (hs : s.IsLaidOut)
    (hspan : m.all (Node.isSpanned s.text) = true) (hsound : m.all Node.isSound = true)
    (h : Trail.Leads m trail n) (hw : trail.IsWalked n) :
    ((visitsIn statement t₀ m).flatMap (s.localEdits imports)).filter
        (touches (s.startAt n) (s.stopAt n)) =
      (visitsIn statement (trail ++ t₀) n).flatMap (s.localEdits imports) := by
  induction trail generalizing n with
  | nil =>
    rw [Trail.Leads] at h
    rw [h]
    exact filter_touches_eq_self fun e he =>
      ⟨Script.within_visitsIn hs hspan hsound e he, Script.isDeletion_of_mem_visits he⟩
  | cons e trail ih =>
    obtain ⟨p, i⟩ := e
    have hb := (hs.spanned (h.2.all hspan)).follow.bounds (List.mem_of_getElem? h.1)
    have hchild : ((visitsIn statement (trail ++ t₀) p).flatMap (s.localEdits imports)).filter
        (touches (s.startAt n) (s.stopAt n)) = s.childEdits imports statement p (trail ++ t₀) i n :=
      Script.filter_visitsIn hs (h.2.all hspan) (h.2.all hsound) h.1
    rw [← filter_touches_of_le hb.1 hb.2.2, ih h.2 hw.2, hchild, Script.childEdits, if_pos hw.1]
    rfl

end Walk

/-! ## References are walked -/

namespace Node

variable {n c : Node}

/-- A name, or a node with something inside. -/
def IsAlive (n : Node) : Prop := n.kind.isNameUse = true ∨ n.children ≠ []

theorem isAlive_of_mem (h : c ∈ n.children) : n.IsAlive := .inr (List.ne_nil_of_mem h)

theorem IsAlive.isNamed (h : n.IsAlive) (hn : n.isShaped = true) : n.isNamed = true := by
  simp only [isShaped, isPlain, Bool.and_eq_true, Bool.or_eq_true] at hn
  rcases hn.1.1.1 with hnamed | ⟨hempty, hname⟩
  · exact hnamed
  · rcases h with h | h
    · rw [h] at hname
      exact absurd hname Bool.false_ne_true
    · exact absurd (List.isEmpty_iff.1 hempty) h

theorem IsAlive.not_isLeaf (h : n.IsAlive) (hn : n.isShaped = true) : n.kind.isLeaf = false := by
  simp only [isShaped, isPlain, Bool.and_eq_true, Bool.or_eq_true, Bool.not_eq_true'] at hn
  rcases hn.1.1.2 with hleaf | hempty
  · exact hleaf
  · rcases h with h | h
    · unfold Kind.isNameUse at h
      split at h <;> simp_all [Kind.isLeaf]
    · exact absurd (List.isEmpty_iff.1 hempty) h

theorem IsAlive.not_string (h : c.IsAlive) (hc : c.isShaped = true) (hn : n.isSound = true)
    (hmem : c ∈ n.children) : n.kind ≠ .string := by
  intro hk
  have hleaf := h.not_isLeaf hc
  have hpart := isStringPart_of_mem hn hk
    (mem_namedDescendants.2 ⟨c, hmem, h.isNamed hc, c.mem_descendants_self⟩)
  rw [isStringPart, Bool.or_eq_true, decide_eq_true_eq, decide_eq_true_eq] at hpart
  rcases hpart with hpart | hpart <;> simp [hpart, Kind.isLeaf] at hleaf

end Node

theorem isWalked_of_isReference {m n : Node} {trail : Trail} (hsound : m.all Node.isSound = true)
    (hshaped : m.all Node.isShaped = true) (h : Trail.Leads m trail n) (halive : n.IsAlive)
    (hskipped : n.kind.isSkipped = false)
    (hplaces : ∀ e ∈ trail, e.1.holdsReferences e.2 = true) : trail.IsWalked n := by
  induction trail generalizing n with
  | nil => exact trivial
  | cons e trail ih =>
    obtain ⟨p, i⟩ := e
    have hmem : n ∈ p.children := List.mem_of_getElem? h.1
    have hp := (Node.all_iff.1 (h.2.all hshaped)).1
    have hn := (Node.all_iff.1 (Trail.Leads.all h hshaped)).1
    have hpalive := Node.isAlive_of_mem hmem
    refine ⟨by rw [halive.isNamed hn, hskipped]; rfl, ih h.2 hpalive ?_ fun e he =>
      hplaces e (List.mem_cons_of_mem _ he)⟩
    have hstring := halive.not_string hn (Node.all_iff.1 (h.2.all hsound)).1 hmem
    have hleaf := hpalive.not_isLeaf hp
    have hplace := hplaces (p, i) List.mem_cons_self
    unfold Kind.isSkipped
    unfold Node.holdsReferences at hplace
    split <;> simp_all [Kind.isLeaf]

/-! ## Parts of statements -/

def roleVisits (statement : Node) (role : Role) : List Visit :=
  match statement.childIndex? role, statement.child? role with
  | some i, some part => visitsIn statement [(statement, i)] part
  | _, _ => []

theorem statementVisits_of_export {statement : Node} (hk : statement.kind = .exportStatement) :
    statementVisits statement =
      roleVisits statement .declaration ++ roleVisits statement .value := by
  have hroles : ∀ roles : List Role, (roles.filterMap fun role => do
      return (← statement.childIndex? role, ← statement.child? role, [statement])).flatMap
        (partVisits statement) = roles.flatMap (roleVisits statement) := by
    intro roles
    induction roles with
    | nil => rfl
    | cons role roles ih =>
      rw [List.flatMap_cons, ← ih, roleVisits, List.filterMap_cons]
      cases statement.childIndex? role with
      | none => rfl
      | some i =>
        cases statement.child? role with
        | none => rfl
        | some part => rfl
  rw [statementVisits, walkedParts, if_pos hk, hroles, List.flatMap_cons, List.flatMap_singleton]

theorem statementVisits_of_not_export {statement : Node} (hk : statement.kind ≠ .exportStatement) :
    statementVisits statement = visitsIn statement [] statement := by
  rw [statementVisits, walkedParts, if_neg hk]
  exact List.append_nil _

namespace Script

variable {s : Script} {imports : ImportTable} {statement part n : Node} {trail : Trail} {i : Nat}

theorem role_of_isChildAt {role : Role} (hi : statement.isChildAt role i = true)
    (hpart : statement.children[i]? = some part) : part.role = some role := by
  obtain ⟨c, hc, hat⟩ := Node.child?_of_childIndex? (Node.isChildAt_iff.1 hi)
  obtain rfl : part = c := Option.some.inj (hpart.symm.trans hat)
  obtain ⟨-, -, -, hrole⟩ := Node.exists_child hc
  exact hrole

theorem roleVisits_eq {role : Role} (hi : statement.isChildAt role i = true)
    (hpart : statement.children[i]? = some part) :
    roleVisits statement role = visitsIn statement [(statement, i)] part := by
  have hindex := Node.isChildAt_iff.1 hi
  obtain ⟨c, hc, hat⟩ := Node.child?_of_childIndex? hindex
  obtain rfl : part = c := Option.some.inj (hpart.symm.trans hat)
  rw [roleVisits, hindex, hc]

theorem filter_roleVisits_eq_nil (hs : s.IsLaidOut)
    (hspan : statement.all (Node.isSpanned s.text) = true)
    (hsound : statement.all Node.isSound = true) {role : Role}
    (hpart : statement.children[i]? = some part) (hi : statement.isChildAt role i = false) :
    ((roleVisits statement role).flatMap (s.localEdits imports)).filter
      (touches (s.startAt part) (s.stopAt part)) = [] := by
  rw [roleVisits]
  cases hc : statement.child? role with
  | none =>
    split
    · next h => exact nomatch h
    · rfl
  | some c =>
    obtain ⟨j, hj, hcj, -⟩ := Node.exists_child hc
    have hij : j ≠ i := by
      rintro rfl
      rw [Node.isChildAt_iff.2 hj] at hi
      exact nomatch hi
    have hmem : c ∈ statement.children := List.mem_of_getElem? hcj
    rw [hj]
    exact filter_touches_eq_nil
      (within_visitsIn hs ((Node.all_iff.1 hspan).2 c hmem) ((Node.all_iff.1 hsound).2 c hmem))
      ((hs.spanned hspan).follow.apart_of_ne hpart hcj hij.symm).symm

/-! ## References are visited -/

/-- A visit of the node that a trail leads to. Of the local edits of all visits, its own touch the
node. -/
structure Visits (s : Script) (imports : ImportTable) (trail : Trail) (n : Node) (v : Visit) :
    Prop where
  mem : v ∈ s.visits
  node_eq : v.node = n
  trail_eq : ∃ i, trail = v.trail ++ [(s.root, i)]
  statement_mem : v.statement ∈ s.statements
  start_le : s.startAt v.statement ≤ s.startAt n
  stop_le : s.stopAt n ≤ s.stopAt v.statement
  filter_eq : (s.visits.flatMap (s.localEdits imports)).filter
    (touches (s.startAt n) (s.stopAt n)) = s.localEdits imports v

theorem visitsIn_of_isNameUse (hs : s.IsLaidOut) (hspan : part.all (Node.isSpanned s.text) = true)
    (hsound : part.all Node.isSound = true) (h : Trail.Leads part trail n)
    (hname : n.kind.isNameUse = true) (t : Trail) :
    visitsIn statement t n = [⟨statement, t, n⟩] := by
  have hchildren := (hs.word (Node.all_iff.1 (h.all hspan)).1 (Node.all_iff.1 (h.all hsound)).1
    (isWord_of_isNameUse hname)).1
  rw [visitsIn_eq, hchildren]
  rfl

theorem isChildAt_eq_false_of_ne {role role' : Role} (hpart : statement.children[i]? = some part)
    (hi : statement.isChildAt role i = true) (hne : role ≠ role') :
    statement.isChildAt role' i = false := by
  rw [← Bool.not_eq_true]
  intro hi'
  exact hne (Option.some.inj ((role_of_isChildAt hi hpart).symm.trans (role_of_isChildAt hi' hpart)))

/-- Of an export the declaration and the value are visited, each on its own. -/
theorem exists_exportVisit (hs : s.IsLaidOut)
    (hspan : statement.all (Node.isSpanned s.text) = true)
    (hsound : statement.all Node.isSound = true) (hshaped : statement.all Node.isShaped = true)
    (imports : ImportTable) (hk : statement.kind = .exportStatement)
    (hpart : statement.children[i]? = some part) (h : Trail.Leads part trail n)
    (hname : n.kind.isNameUse = true) (hskipped : n.kind.isSkipped = false)
    (hplaces : ∀ e ∈ trail ++ [(statement, i)], e.1.holdsReferences e.2 = true) :
    ⟨statement, trail ++ [(statement, i)], n⟩ ∈ statementVisits statement ∧
      ((statementVisits statement).flatMap (s.localEdits imports)).filter
        (touches (s.startAt n) (s.stopAt n)) =
          s.localEdits imports ⟨statement, trail ++ [(statement, i)], n⟩ := by
  have hmem := List.mem_of_getElem? hpart
  have hspanPart := (Node.all_iff.1 hspan).2 part hmem
  have hsoundPart := (Node.all_iff.1 hsound).2 part hmem
  have hwalked := isWalked_of_isReference hsoundPart ((Node.all_iff.1 hshaped).2 part hmem) h
    (.inl hname) hskipped fun e he => hplaces e (List.mem_append_left _ he)
  have hbn := bounds_of_leads hs hspanPart h
  have hin : ∀ role, statement.isChildAt role i = true →
      ⟨statement, trail ++ [(statement, i)], n⟩ ∈ roleVisits statement role ∧
      ((roleVisits statement role).flatMap (s.localEdits imports)).filter
        (touches (s.startAt n) (s.stopAt n)) =
          s.localEdits imports ⟨statement, trail ++ [(statement, i)], n⟩ := by
    intro role hi
    rw [roleVisits_eq hi hpart, filter_visitsIn_of_leads hs hspanPart hsoundPart h hwalked,
      visitsIn_of_isNameUse hs hspanPart hsoundPart h hname, List.flatMap_singleton]
    exact ⟨mem_visitsIn_of_leads h hwalked, rfl⟩
  have hout : ∀ role, statement.isChildAt role i = false →
      ((roleVisits statement role).flatMap (s.localEdits imports)).filter
        (touches (s.startAt n) (s.stopAt n)) = [] := by
    intro role hi
    rw [← filter_touches_of_le hbn.1 hbn.2, filter_roleVisits_eq_nil hs hspan hsound hpart hi]
    rfl
  have hplace := hplaces (statement, i) (List.mem_append_right _ List.mem_cons_self)
  unfold Node.holdsReferences at hplace
  rw [hk] at hplace
  rw [statementVisits_of_export hk, List.flatMap_append, List.filter_append]
  rcases Bool.or_eq_true_iff.1 hplace with hi | hi
  · obtain ⟨hv, hfilter⟩ := hin .declaration hi
    rw [hfilter, hout .value (isChildAt_eq_false_of_ne hpart hi (by decide)), List.append_nil]
    exact ⟨List.mem_append_left _ hv, rfl⟩
  · obtain ⟨hv, hfilter⟩ := hin .value hi
    rw [hfilter, hout .declaration (isChildAt_eq_false_of_ne hpart hi (by decide)), List.nil_append]
    exact ⟨List.mem_append_right _ hv, rfl⟩

theorem exists_statementVisit (hs : s.IsLaidOut)
    (hspan : statement.all (Node.isSpanned s.text) = true)
    (hsound : statement.all Node.isSound = true) (hshaped : statement.all Node.isShaped = true)
    (imports : ImportTable) (h : Trail.Leads statement trail n) (hname : n.kind.isNameUse = true)
    (hplaces : ∀ e ∈ trail, e.1.holdsReferences e.2 = true) :
    ⟨statement, trail, n⟩ ∈ statementVisits statement ∧
      ((statementVisits statement).flatMap (s.localEdits imports)).filter
        (touches (s.startAt n) (s.stopAt n)) = s.localEdits imports ⟨statement, trail, n⟩ := by
  have hskipped : n.kind.isSkipped = false := by
    unfold Kind.isNameUse at hname
    split at hname <;> simp_all [Kind.isSkipped]
  by_cases hk : statement.kind = .exportStatement
  · rcases List.eq_nil_or_concat trail with rfl | ⟨trail, e, rfl⟩
    · rw [Trail.Leads] at h
      rw [h, hk] at hname
      exact absurd hname Bool.false_ne_true
    rw [List.concat_eq_append] at h hplaces ⊢
    obtain ⟨he, part, hpart, hleads⟩ := h.of_concat
    obtain ⟨top, i⟩ := e
    obtain rfl : statement = top := he.symm
    exact exists_exportVisit hs hspan hsound hshaped imports hk hpart hleads hname hskipped hplaces
  · have hwalked := isWalked_of_isReference hsound hshaped h (.inl hname) hskipped hplaces
    have hv : (⟨statement, trail ++ [], n⟩ : Visit) ∈ visitsIn statement [] statement :=
      mem_visitsIn_of_leads h hwalked
    rw [List.append_nil] at hv
    rw [statementVisits_of_not_export hk, filter_visitsIn_of_leads hs hspan hsound h hwalked,
      visitsIn_of_isNameUse hs hspan hsound h hname, List.append_nil, List.flatMap_singleton]
    exact ⟨hv, rfl⟩

theorem isAlive_of_leads (h : Trail.Leads statement trail n) (hname : n.kind.isNameUse = true)
    (hplaces : ∀ e ∈ trail, e.1.holdsReferences e.2 = true) :
    statement.IsAlive ∧ statement.kind ≠ .importStatement := by
  rcases List.eq_nil_or_concat trail with rfl | ⟨trail, e, rfl⟩
  · rw [Trail.Leads] at h
    rw [← h]
    refine ⟨.inl hname, fun hk => ?_⟩
    rw [hk] at hname
    exact absurd hname Bool.false_ne_true
  · rw [List.concat_eq_append] at h hplaces
    obtain ⟨he, part, hpart, -⟩ := h.of_concat
    refine ⟨Node.isAlive_of_mem (List.mem_of_getElem? hpart), fun hk => ?_⟩
    have hplace := hplaces e (List.mem_append_right _ List.mem_cons_self)
    unfold Node.holdsReferences at hplace
    rw [he, hk] at hplace
    exact absurd hplace Bool.false_ne_true

theorem isStatement_of_isAlive (hshape : statement.isShaped = true) (halive : statement.IsAlive) :
    isStatement statement = true := by
  have hleaf := halive.not_isLeaf hshape
  rw [isStatement, halive.isNamed hshape, Bool.true_and, Bool.not_eq_true']
  unfold Kind.isNoStatement
  split <;> simp_all [Kind.isLeaf]

theorem exists_visit (hs : s.IsLaidOut) (hm : s.IsModule) (imports : ImportTable)
    (h : Trail.Leads s.root trail n) (href : isReference trail n = true) :
    ∃ v, s.Visits imports trail n v := by
  simp only [isReference, Bool.and_eq_true, List.all_eq_true] at href
  obtain ⟨⟨hname, -⟩, hplaces⟩ := href
  rcases List.eq_nil_or_concat trail with rfl | ⟨trail, e, rfl⟩
  · rw [Trail.Leads] at h
    rw [h, hm.program] at hname
    exact absurd hname Bool.false_ne_true
  rw [List.concat_eq_append] at h hplaces ⊢
  obtain ⟨he, statement, hstatement, hleads⟩ := h.of_concat
  obtain ⟨root, i⟩ := e
  obtain rfl : root = s.root := he
  have hmem := List.mem_of_getElem? hstatement
  have hspan := (Node.all_iff.1 hs.spans).2 statement hmem
  have hsound := (Node.all_iff.1 hs.sound).2 statement hmem
  have hshaped := (Node.all_iff.1 hm.shaped).2 statement hmem
  have hinside : ∀ e ∈ trail, e.1.holdsReferences e.2 = true := fun e he =>
    hplaces e (List.mem_append_left _ he)
  have halive := isAlive_of_leads hleads hname hinside
  have hst := isStatement_of_isAlive (Node.all_iff.1 hshaped).1 halive.1
  have hvisits : visitsOf statement = statementVisits statement := if_neg halive.2
  obtain ⟨hv, hfilter⟩ := exists_statementVisit hs hspan hsound hshaped imports hleads hname
    hinside
  have hb := bounds_of_leads hs hspan hleads
  refine ⟨⟨statement, trail, n⟩, ?_, rfl, ⟨i, rfl⟩, mem_statements hmem hst, hb.1, hb.2, ?_⟩
  · rw [visits_eq]
    exact List.mem_flatMap.2 ⟨statement, mem_statements hmem hst, hvisits ▸ hv⟩
  · have hstep := hs.filter_statements (fun c hc _ => within_visitsOf imports hs hc) hstatement hst
    rw [← filter_touches_of_le hb.1 hb.2, visits_eq, List.flatMap_assoc, hstep, hvisits,
      filter_touches_of_le hb.1 hb.2, hfilter]

end Script

end RegistryScript
