import Mathlib
import RegistryScript.Proofs.References.Log
import RegistryScript.Proofs.Script.Locality

/-! # Where the edits of references stand

* `Script.localEdits`: the edits of a visit but for constants in front of statements.
* `Script.filter_rebindEdits`: without the constants, the edits of visits are their local ones.
* `Script.textsBefore_rebindEdits`: the constants stand in front of statements.
* `Script.within_visitsIn`: the local edits of the visits in a node lie in the node.
* `Script.filter_visitsIn`: those that touch a child are those of the visits in the child.
-/

namespace RegistryScript
set_option autoImplicit false

open Edit

namespace Script

variable (s : Script) (imports : ImportTable)

/-! ## Local edits and constants -/

/-- The edits of a visit but for a constant in front of the statement. -/
def localEdits (v : Visit) : List Edit :=
  match s.rebinding? imports v.trail v.node with
  | some (.replaced expression) => [.replace (s.startAt v.node) (s.stopAt v.node) expression]
  | some (.expanded expression) => [.insertAfter (s.stopAt v.node) (": " ++ expression)]
  | _ => []

/-- The text of the constant that a visit declares, when constants for some names have been
declared. -/
def constantOf (constants : List Text) (v : Visit) : Text :=
  match s.rebinding? imports v.trail v.node with
  | some (.declared name expression) =>
    if constants.contains name then [] else constantText name expression
  | _ => []

def constantsOf (constants : List Text) : List Visit → Text
  | [] => []
  | v :: vs => s.constantOf imports constants v ++
      constantsOf (s.visitConstants imports constants v) vs

theorem filter_visitEdits (constants : List Text) (v : Visit) :
    (s.visitEdits imports constants v).filter (fun e => !e.isInsertBefore) =
      s.localEdits imports v := by
  rw [visitEdits, localEdits]
  cases s.rebinding? imports v.trail v.node with
  | none => rfl
  | some r =>
    cases r with
    | declared name expression =>
      simp only
      split <;> rfl
    | _ => rfl

theorem filter_rebindEdits (constants : List Text) (vs : List Visit) :
    (s.rebindEdits imports constants vs).filter (fun e => !e.isInsertBefore) =
      vs.flatMap (s.localEdits imports) := by
  induction vs generalizing constants with
  | nil => rfl
  | cons v vs ih =>
    rw [rebindEdits, List.filter_append, filter_visitEdits, ih, List.flatMap_cons]

theorem textsBefore_visitEdits (constants : List Text) (v : Visit) (p : Int) :
    (textsBefore p (s.visitEdits imports constants v)).flatten =
      if (s.startAt v.statement : Int) = p then s.constantOf imports constants v else [] := by
  rw [visitEdits, constantOf]
  cases s.rebinding? imports v.trail v.node with
  | none => simp [textsBefore]
  | some r =>
    cases r with
    | declared name expression =>
      simp only
      split
      · simp [textsBefore]
      · simp only [textsBefore, List.filterMap_cons, List.filterMap_nil]
        split <;> simp_all
    | _ => simp [textsBefore]

theorem textsBefore_append (p : Int) (es es' : List Edit) :
    textsBefore p (es ++ es') = textsBefore p es ++ textsBefore p es' :=
  List.filterMap_append

theorem textsBefore_rebindEdits {statement : Node} (constants : List Text) {vs : List Visit}
    (hvs : ∀ v ∈ vs, v.statement = statement) (p : Int) :
    (textsBefore p (s.rebindEdits imports constants vs)).flatten =
      if (s.startAt statement : Int) = p then s.constantsOf imports constants vs else [] := by
  induction vs generalizing constants with
  | nil => simp [rebindEdits, constantsOf, textsBefore]
  | cons v vs ih =>
    rw [rebindEdits, textsBefore_append, List.flatten_append, textsBefore_visitEdits,
      ih _ fun w hw => hvs w (List.mem_cons_of_mem v hw), hvs v List.mem_cons_self, constantsOf]
    split
    · rfl
    · rfl

theorem exists_declared_of_constantsOf_ne_nil {constants : List Text} {vs : List Visit}
    (h : s.constantsOf imports constants vs ≠ []) :
    ∃ v ∈ vs, (s.rebinding? imports v.trail v.node).isSome = true := by
  induction vs generalizing constants with
  | nil => exact absurd rfl h
  | cons v vs ih =>
    rw [constantsOf] at h
    by_cases hv : s.constantOf imports constants v = []
    · rw [hv, List.nil_append] at h
      obtain ⟨w, hw, hr⟩ := ih h
      exact ⟨w, List.mem_cons_of_mem v hw, hr⟩
    · refine ⟨v, List.mem_cons_self, ?_⟩
      rw [constantOf] at hv
      cases hr : s.rebinding? imports v.trail v.node with
      | none =>
        rw [hr] at hv
        exact absurd rfl hv
      | some r => rfl

/-! ## Edits of a node -/

variable {s imports} {statement : Node} {trail : Trail} {n : Node}

theorem isNameUse_of_rebinding? {r : Rebinding} (h : s.rebinding? imports trail n = some r) :
    n.kind.isNameUse = true := by
  rw [rebinding?] at h
  by_contra hk
  rw [Bool.not_eq_true] at hk
  rw [hk] at h
  cases h

theorem isWord_of_isNameUse (h : n.kind.isNameUse = true) : n.isWord = true := by
  unfold Kind.isNameUse at h
  unfold Node.isWord
  split at h
  · next hk => rw [hk]
  · next hk => rw [hk]
  · next hk => rw [hk]
  · exact absurd h Bool.false_ne_true

theorem within_localEdits (h : s.IsLaidOut) {v : Visit}
    (hspan : v.node.isSpanned s.text = true) (hsound : v.node.isSound = true) :
    s.Within v.node (s.localEdits imports v) := by
  rw [localEdits]
  cases hr : s.rebinding? imports v.trail v.node with
  | none => exact within_nil _
  | some r =>
    have hlt := (h.word hspan hsound (isWord_of_isNameUse (isNameUse_of_rebinding? hr))).2
    intro e he
    cases r with
    | replaced expression =>
      obtain rfl := List.mem_singleton.1 he
      exact ⟨le_rfl, by exact_mod_cast hlt, le_rfl⟩
    | expanded expression =>
      obtain rfl := List.mem_singleton.1 he
      exact ⟨by exact_mod_cast hlt, le_rfl⟩
    | declared name expression => exact absurd he List.not_mem_nil

theorem isDeletion_of_mem_localEdits {v : Visit} {e : Edit} (he : e ∈ s.localEdits imports v) :
    e.isDeletion = false := by
  rw [localEdits] at he
  split at he
  · rw [List.mem_singleton.1 he]
    rfl
  · rw [List.mem_singleton.1 he]
    rfl
  · exact absurd he List.not_mem_nil

theorem visitsAmong_eq_flatMap {parent : Node} (first : Nat) (ns : List Node) :
    visitsAmong statement parent trail first ns =
      (Node.numbered first ns).flatMap fun e =>
        if e.2.isNamed && !e.2.kind.isSkipped then
          visitsIn statement ((parent, e.1) :: trail) e.2 else [] := by
  induction ns generalizing first with
  | nil => rfl
  | cons n ns ih =>
    rw [visitsAmong, Node.numbered, List.flatMap_cons, ← ih]
    split
    · rfl
    · rfl

def childEdits (s : Script) (imports : ImportTable) (statement parent : Node) (trail : Trail)
    (i : Nat) (c : Node) : List Edit :=
  (if c.isNamed && !c.kind.isSkipped then visitsIn statement ((parent, i) :: trail) c
    else []).flatMap (s.localEdits imports)

theorem visitsIn_localEdits :
    (visitsIn statement trail n).flatMap (s.localEdits imports) =
      s.localEdits imports ⟨statement, trail, n⟩ ++
        (Node.numbered 0 n.children).flatMap fun e =>
          s.childEdits imports statement n trail e.1 e.2 := by
  rw [visitsIn_eq, List.flatMap_cons, visitsAmong_eq_flatMap, List.flatMap_assoc]
  rfl

theorem within_visitsIn (h : s.IsLaidOut) (hspan : n.all (Node.isSpanned s.text) = true)
    (hsound : n.all Node.isSound = true) :
    s.Within n ((visitsIn statement trail n).flatMap (s.localEdits imports)) := by
  induction n using Node.induct generalizing trail with
  | step n ih =>
    obtain ⟨hspan', hspans⟩ := Node.all_iff.1 hspan
    obtain ⟨hsound', hsounds⟩ := Node.all_iff.1 hsound
    rw [visitsIn_localEdits]
    refine (within_localEdits h hspan' hsound').append
      (Within.numbered ?_ (h.spanned hspan).follow)
    intro e he
    have hmem := (mem_numbered he).1
    rw [childEdits]
    split
    · exact ih e.2 hmem (hspans e.2 hmem) (hsounds e.2 hmem)
    · exact within_nil _

theorem isDeletion_of_mem_visits {vs : List Visit} {e : Edit}
    (he : e ∈ vs.flatMap (s.localEdits imports)) : e.isDeletion = false := by
  obtain ⟨v, -, he⟩ := List.mem_flatMap.1 he
  exact isDeletion_of_mem_localEdits he

theorem localEdits_eq_nil (h : s.IsLaidOut) (hspan : n.isSpanned s.text = true)
    (hsound : n.isSound = true) (hne : n.children ≠ []) :
    s.localEdits imports ⟨statement, trail, n⟩ = [] := by
  rw [localEdits]
  cases hr : s.rebinding? imports trail n with
  | none => rfl
  | some r =>
    exact absurd
      (h.word hspan hsound (isWord_of_isNameUse (isNameUse_of_rebinding? hr))).1 hne

variable (imports statement trail) in
theorem within_childEdits (h : s.IsLaidOut) (hspan : n.all (Node.isSpanned s.text) = true)
    (hsound : n.all Node.isSound = true) :
    ∀ e ∈ Node.numbered 0 n.children,
      s.Within e.2 (s.childEdits imports statement n trail e.1 e.2) := by
  intro e he
  have hmem := (mem_numbered he).1
  rw [childEdits]
  split
  · exact within_visitsIn h ((Node.all_iff.1 hspan).2 e.2 hmem) ((Node.all_iff.1 hsound).2 e.2 hmem)
  · exact within_nil _

theorem filter_visitsIn (h : s.IsLaidOut) (hspan : n.all (Node.isSpanned s.text) = true)
    (hsound : n.all Node.isSound = true) {i : Nat} {c : Node} (hi : n.children[i]? = some c) :
    ((visitsIn statement trail n).flatMap (s.localEdits imports)).filter
        (touches (s.startAt c) (s.stopAt c)) = s.childEdits imports statement n trail i c := by
  obtain ⟨hspan', -⟩ := Node.all_iff.1 hspan
  obtain ⟨hsound', -⟩ := Node.all_iff.1 hsound
  have hne : n.children ≠ [] := List.ne_nil_of_mem (List.mem_of_getElem? hi)
  have hwithin := within_childEdits imports statement trail h hspan hsound
  rw [visitsIn_localEdits, localEdits_eq_nil h hspan' hsound' hne, List.nil_append,
    filter_numbered hwithin (h.spanned hspan).follow hi, Nat.zero_add]
  exact filter_touches_eq_self fun e he =>
    ⟨hwithin (i, c) (mem_numbered_of_getElem? hi) e he, isDeletion_of_mem_visits he⟩

/-! ## Where visited nodes stand -/

/-- A visited node stands in the node whose visits are asked for. -/
structure VisitedIn (s : Script) (n : Node) (v : Visit) : Prop where
  start_le : s.startAt n ≤ s.startAt v.node
  le_stop : s.stopAt v.node ≤ s.stopAt n
  spans : v.node.all (Node.isSpanned s.text) = true
  sound : v.node.all Node.isSound = true

theorem VisitedIn.outer {m : Node} {v : Visit} (h : s.VisitedIn n v)
    (hstart : s.startAt m ≤ s.startAt n) (hstop : s.stopAt n ≤ s.stopAt m) : s.VisitedIn m v :=
  ⟨hstart.trans h.start_le, h.le_stop.trans hstop, h.spans, h.sound⟩

theorem mem_visitsIn (h : s.IsLaidOut) (hspan : n.all (Node.isSpanned s.text) = true)
    (hsound : n.all Node.isSound = true) {v : Visit} (hv : v ∈ visitsIn statement trail n) :
    v.statement = statement ∧ s.VisitedIn n v := by
  induction n using Node.induct generalizing trail with
  | step n ih =>
    rw [visitsIn_eq, visitsAmong_eq_flatMap, List.mem_cons] at hv
    rcases hv with rfl | hv
    · exact ⟨rfl, le_rfl, le_rfl, hspan, hsound⟩
    · obtain ⟨e, he, hv⟩ := List.mem_flatMap.1 hv
      have hmem := (mem_numbered he).1
      have hb := (h.spanned hspan).follow.bounds hmem
      split at hv
      · obtain ⟨hst, hin⟩ := ih e.2 hmem ((Node.all_iff.1 hspan).2 e.2 hmem)
          ((Node.all_iff.1 hsound).2 e.2 hmem) hv
        exact ⟨hst, hin.outer hb.1 hb.2.2⟩
      · exact absurd hv List.not_mem_nil

theorem mem_walkedParts {part : Nat × Node × List Node} (h : part ∈ walkedParts statement) :
    part.2.1 = statement ∨ part.2.1 ∈ statement.children := by
  unfold walkedParts at h
  split at h
  · obtain ⟨role, -, h⟩ := List.mem_filterMap.1 h
    cases hi : statement.childIndex? role with
    | none =>
      rw [hi] at h
      exact nomatch h
    | some i =>
      cases hc : statement.child? role with
      | none =>
        rw [hi, hc] at h
        exact nomatch h
      | some c =>
        rw [hi, hc] at h
        obtain rfl : (i, c, [statement]) = part := Option.some.inj h
        exact .inr (List.mem_of_find?_eq_some hc)
  · rw [List.mem_singleton.1 h]
    exact .inl rfl

theorem mem_statementVisits (h : s.IsLaidOut) (hspan : statement.all (Node.isSpanned s.text) = true)
    (hsound : statement.all Node.isSound = true) {v : Visit} (hv : v ∈ statementVisits statement) :
    v.statement = statement ∧ s.VisitedIn statement v := by
  obtain ⟨part, hpart, hv⟩ := List.mem_flatMap.1 hv
  rcases mem_walkedParts hpart with heq | hmem
  · rw [partVisits, heq] at hv
    exact mem_visitsIn h hspan hsound hv
  · have hb := (h.spanned hspan).follow.bounds hmem
    obtain ⟨hst, hin⟩ := mem_visitsIn h ((Node.all_iff.1 hspan).2 _ hmem)
      ((Node.all_iff.1 hsound).2 _ hmem) hv
    exact ⟨hst, hin.outer hb.1 hb.2.2⟩

/-! ## Statements -/

def isStatement (n : Node) : Bool := n.isNamed && !n.kind.isNoStatement

def visitsOf (statement : Node) : List Visit :=
  if statement.kind = .importStatement then [] else statementVisits statement

theorem flatMap_filter_eq {α β : Type} (l : List α) (p : α → Bool) (f : α → List β) :
    (l.filter p).flatMap f = l.flatMap fun x => if p x then f x else [] := by
  induction l with
  | nil => rfl
  | cons x l ih =>
    rw [List.filter_cons, List.flatMap_cons, ← ih]
    split
    · rfl
    · rfl

theorem statements_eq : s.statements = s.root.children.filter isStatement := by
  rw [statements, Node.namedChildren, List.filter_filter]
  exact List.filter_congr fun c _ => Bool.and_comm _ _

theorem flatMap_statements (F : Node → List Edit) :
    s.statements.flatMap F =
      (Node.numbered 0 s.root.children).flatMap fun e => if isStatement e.2 then F e.2 else [] := by
  rw [statements_eq, flatMap_filter_eq, flatMap_numbered fun c => if isStatement c then F c else []]

theorem visits_eq : s.visits = s.statements.flatMap visitsOf := by
  rw [visits, flatMap_filter_eq]
  refine List.flatMap_congr fun c _ => ?_
  rw [visitsOf]
  by_cases h : c.kind = .importStatement
  · rw [if_neg (by simp [h]), if_pos h]
  · rw [if_pos (by simp [h]), if_neg h]

theorem mem_statements {c : Node} (hc : c ∈ s.root.children) (hst : isStatement c = true) :
    c ∈ s.statements := by
  obtain ⟨hn, hk⟩ := Bool.and_eq_true_iff.1 hst
  exact List.mem_filter.2 ⟨List.mem_filter.2 ⟨hc, hn⟩, hk⟩

theorem mem_visitsOf (h : s.IsLaidOut) {c : Node} (hc : c ∈ s.root.children) {v : Visit}
    (hv : v ∈ visitsOf c) :
    c.kind ≠ .importStatement ∧ v.statement = c ∧ s.VisitedIn c v := by
  rw [visitsOf] at hv
  split at hv
  · exact absurd hv List.not_mem_nil
  · next hk =>
    exact ⟨hk, mem_statementVisits h ((Node.all_iff.1 h.spans).2 c hc)
      ((Node.all_iff.1 h.sound).2 c hc) hv⟩

theorem mem_root_of_mem_statements {c : Node} (hc : c ∈ s.statements) : c ∈ s.root.children :=
  (List.mem_filter.1 (List.mem_filter.1 hc).1).1

theorem mem_visits (h : s.IsLaidOut) {v : Visit} (hv : v ∈ s.visits) :
    v.statement ∈ s.statements ∧ v ∈ visitsOf v.statement := by
  rw [visits_eq] at hv
  obtain ⟨c, hc, hv⟩ := List.mem_flatMap.1 hv
  obtain ⟨-, rfl, -⟩ := mem_visitsOf h (mem_root_of_mem_statements hc) hv
  exact ⟨hc, hv⟩

theorem visitedIn_of_mem_visits (h : s.IsLaidOut) {v : Visit} (hv : v ∈ s.visits) :
    s.VisitedIn v.statement v := by
  obtain ⟨hst, hmem⟩ := mem_visits h hv
  exact (mem_visitsOf h (mem_root_of_mem_statements hst) hmem).2.2

variable (imports) in
theorem within_visitsOf (h : s.IsLaidOut) {c : Node} (hc : c ∈ s.root.children) :
    s.Within c ((visitsOf c).flatMap (s.localEdits imports)) := by
  intro e he
  obtain ⟨v, hv, he⟩ := List.mem_flatMap.1 he
  obtain ⟨-, -, hin⟩ := mem_visitsOf h hc hv
  exact (within_localEdits h (Node.all_iff.1 hin.spans).1 (Node.all_iff.1 hin.sound).1 e he).mono
    hin.start_le hin.le_stop

theorem IsLaidOut.followStatements (h : s.IsLaidOut) :
    s.Follow (s.startAt s.root) (s.stopAt s.root) s.root.children :=
  (h.spanned h.spans).follow

theorem IsLaidOut.filter_statements (h : s.IsLaidOut) {F : Node → List Edit}
    (hF : ∀ c ∈ s.root.children, isStatement c = true → s.Within c (F c)) {i : Nat} {c : Node}
    (hi : s.root.children[i]? = some c) (hst : isStatement c = true) :
    (s.statements.flatMap F).filter (touches (s.startAt c) (s.stopAt c)) =
      (F c).filter (touches (s.startAt c) (s.stopAt c)) := by
  rw [flatMap_statements, filter_numbered (E := fun _ c => if isStatement c then F c else []) ?_
    h.followStatements hi, if_pos hst]
  intro e he
  split
  · next hse => exact hF e.2 (mem_numbered he).1 hse
  · exact within_nil e.2

end Script

end RegistryScript
