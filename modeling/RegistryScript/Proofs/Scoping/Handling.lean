import Mathlib
import RegistryScript.Proofs.Scoping.Visits

/-! # How references are handled

* `Script.editsOf`: the edits that show inside a node.
* `Script.Handled`: a reference is rebound to an expression by edits.
* `Visits.editsOf_eq`: the edits of the pass that show inside a reference are those of its visit.
* `Visits.editsOf_of_hidden`: a reference whose name a node around it is taken to declare is left
  alone.
* `Visits.handled`: any other read of an imported name is handled.
-/

namespace RegistryScript
set_option autoImplicit false

/-! ## Edits that show inside a node -/

/-- An edit shows between two offsets, texts in front of the first one left out. -/
def Edit.showsInside (a b : Nat) : Edit → Bool
  | .insertBefore p _ => decide (a < p ∧ p < b)
  | e => Edit.touches a b e

namespace Script

def editsOf (s : Script) (es : List Edit) (n : Node) : List Edit :=
  es.filter (Edit.showsInside (s.startAt n) (s.stopAt n))

/-- A read of a name is rebound to an expression: it is replaced, it gets the expression as the
value of a property, or it is left as a superclass and its name is declared as a constant in front
of a statement no later than the one it stands in. -/
inductive Handled (s : Script) (es : List Edit) (trail : Trail) (n : Node) (expression : Text) :
    Prop
  | replaced (hkind : n.kind = .identifier)
      (hedits : s.editsOf es n = [.replace (s.startAt n) (s.stopAt n) expression])
  | expanded (hkind : n.kind = .shorthandPropertyIdentifier)
      (hedits : s.editsOf es n = [.insertAfter (s.stopAt n) (": " ++ expression)])
  | declared (hsuper : isSuperclass trail.place trail.nodes = true) (hedits : s.editsOf es n = [])
      (statement : Node) (hstatement : statement ∈ s.statements)
      (hstart : s.startAt statement ≤ s.startAt n)
      (hconstant : .insertBefore (s.startAt statement) (constantText (s.textAt n) expression) ∈ es)

/-! ## Constants -/

variable {s : Script} {imports : ImportTable}

theorem rebinding?_of_hides {trail : Trail} {n : Node} (h : s.hides trail (s.textAt n) = true) :
    s.rebinding? imports trail n = none := by
  rw [rebinding?, h]
  cases n.kind.isNameUse with
  | false => rfl
  | true => cases imports.get? (s.textAt n) <;> rfl

theorem rebinding?_of_not_hides {trail : Trail} {n : Node} {binding : ImportBinding}
    (hname : n.kind.isNameUse = true) (hget : imports.get? (s.textAt n) = some binding)
    (h : s.hides trail (s.textAt n) = false) :
    s.rebinding? imports trail n = rebindingTo? trail n (s.textAt n) binding.expression := by
  rw [rebinding?, hname, hget]
  simp only [h, Bool.not_true, Bool.false_eq_true, if_false]

theorem expression_of_declared {trail : Trail} {n : Node} {name expression : Text}
    (h : s.rebinding? imports trail n = some (.declared name expression)) :
    imports.expression? name = some expression := by
  rw [rebinding?] at h
  split at h
  · cases h
  · split at h
    · cases h
    · next binding hget =>
      split at h
      · cases h
      · have hto : ∀ x e, rebindingTo? trail n x e = some (.declared name expression) →
            x = name ∧ e = expression := by
          intro x e h
          unfold rebindingTo? at h
          repeat' split at h
          all_goals simp_all
        obtain ⟨rfl, rfl⟩ := hto _ _ h
        rw [ImportTable.expression?, hget]
        rfl

/-- A constant that a visit needs has been declared by this visit or an earlier one. -/
theorem exists_constant (pre post : List Visit) {v : Visit} {constants : List Text}
    {name expression : Text}
    (hv : s.rebinding? imports v.trail v.node = some (.declared name expression))
    (hconstants : constants.contains name = false) :
    ∃ w ∈ pre ++ [v], .insertBefore (s.startAt w.statement) (constantText name expression) ∈
      s.rebindEdits imports constants (pre ++ v :: post) := by
  -- Either the first visit declares the name, or it is still undeclared for the others.
  induction pre generalizing constants with
  | nil =>
    refine ⟨v, List.mem_cons_self, ?_⟩
    rw [List.nil_append, rebindEdits, visitEdits, hv]
    simp only [hconstants, Bool.false_eq_true, if_false]
    exact List.mem_append_left _ List.mem_cons_self
  | cons w pre ih =>
    rw [List.cons_append, List.cons_append, rebindEdits]
    by_cases hw : (s.visitConstants imports constants w).contains name = true
    · refine ⟨w, List.mem_cons_self, List.mem_append_left _ ?_⟩
      unfold visitConstants at hw
      unfold visitEdits
      split at hw
      · next name' expression' hr =>
        rw [hr]
        split at hw
        · next hin =>
          rw [hw] at hconstants
          exact absurd hconstants.symm Bool.false_ne_true
        · next hin =>
          have hnot : name ∉ constants := by simpa using hconstants
          have hname : name = name' := by simpa [hnot] using hw
          subst hname
          have he := (expression_of_declared hv).symm.trans (expression_of_declared hr)
          rw [Option.some.inj he]
          simp only [hin, Bool.false_eq_true, if_false]
          exact List.mem_cons_self
      · rw [hw] at hconstants
        exact absurd hconstants.symm Bool.false_ne_true
    · rw [Bool.not_eq_true] at hw
      obtain ⟨w', hw', hin⟩ := ih hw
      exact ⟨w', List.mem_cons_of_mem w hw', List.mem_append_right _ hin⟩

theorem mem_visitEdits {constants : List Text} {v : Visit} {e : Edit}
    (h : e ∈ s.visitEdits imports constants v) :
    v.node.isWord = true ∧
      ((∃ text, e = .replace (s.startAt v.node) (s.stopAt v.node) text) ∨
        (∃ text, e = .insertAfter (s.stopAt v.node) text) ∨
        ∃ text, e = .insertBefore (s.startAt v.statement) text) := by
  rw [visitEdits] at h
  cases hr : s.rebinding? imports v.trail v.node with
  | none =>
    rw [hr] at h
    exact absurd h List.not_mem_nil
  | some r =>
    refine ⟨isWord_of_isNameUse (isNameUse_of_rebinding? hr), ?_⟩
    rw [hr] at h
    cases r with
    | replaced expression => exact .inl ⟨_, List.mem_singleton.1 h⟩
    | expanded expression => exact .inr (.inl ⟨_, List.mem_singleton.1 h⟩)
    | declared name expression =>
      simp only at h
      split at h
      · exact absurd h List.not_mem_nil
      · exact .inr (.inr ⟨_, List.mem_singleton.1 h⟩)

theorem isNameUse_of_mem_visitEdits {constants : List Text} {v : Visit} {e : Edit}
    (h : e ∈ s.visitEdits imports constants v) : v.node.kind.isNameUse = true := by
  rw [visitEdits] at h
  cases hr : s.rebinding? imports v.trail v.node with
  | none =>
    rw [hr] at h
    exact absurd h List.not_mem_nil
  | some r => exact isNameUse_of_rebinding? hr

theorem exists_visit_of_mem_rebindEdits {vs : List Visit} {constants : List Text} {e : Edit}
    (h : e ∈ s.rebindEdits imports constants vs) :
    ∃ v ∈ vs, ∃ constants, e ∈ s.visitEdits imports constants v := by
  induction vs generalizing constants with
  | nil => exact absurd h List.not_mem_nil
  | cons v vs ih =>
    rw [rebindEdits, List.mem_append] at h
    rcases h with h | h
    · exact ⟨v, List.mem_cons_self, constants, h⟩
    · obtain ⟨w, hw, hin⟩ := ih h
      exact ⟨w, List.mem_cons_of_mem v hw, hin⟩

theorem statement_of_mem_rebindEdits {vs : List Visit} {constants : List Text} {p : Int}
    {text : Text} (h : .insertBefore p text ∈ s.rebindEdits imports constants vs) :
    ∃ w ∈ vs, p = s.startAt w.statement := by
  obtain ⟨w, hw, _, hin⟩ := exists_visit_of_mem_rebindEdits h
  refine ⟨w, hw, ?_⟩
  rcases (mem_visitEdits hin).2 with ⟨_, he⟩ | ⟨_, he⟩ | ⟨_, he⟩
  · exact nomatch he
  · exact nomatch he
  · exact (Edit.insertBefore.inj he).1

/-! ## Where statements stand -/

theorem Follow.pairwise {a b : Nat} {ns : List Node} (h : s.Follow a b ns) :
    ns.Pairwise fun c d => s.stopAt c ≤ s.startAt d := by
  induction ns generalizing a with
  | nil => exact .nil
  | cons n ns ih => exact .cons (fun c hc => (h.2.2.bounds hc).1) (ih h.2.2)

theorem pairwise_statements (hs : s.IsLaidOut) :
    s.statements.Pairwise fun c d => s.stopAt c ≤ s.startAt d :=
  (hs.followStatements.pairwise.filter _).filter _

theorem pairwise_visits (hs : s.IsLaidOut) :
    s.visits.Pairwise fun v w => s.startAt v.statement ≤ s.startAt w.statement := by
  have hstatement : ∀ c ∈ s.statements, ∀ v ∈ visitsOf c, v.statement = c := fun c hc v hv =>
    (mem_visitsOf hs (mem_root_of_mem_statements hc) hv).2.1
  rw [visits_eq, List.pairwise_flatMap]
  constructor
  · intro c hc
    refine List.pairwise_of_forall_mem_list fun v hv w hw => ?_
    rw [hstatement c hc v hv, hstatement c hc w hw]
  · refine (pairwise_statements hs).imp_of_mem fun {c d} hc hd hcd v hv w hw => ?_
    rw [hstatement c hc v hv, hstatement d hd w hw]
    have hmem := mem_root_of_mem_statements hc
    exact (hs.followStatements.bounds hmem).2.1.trans hcd

theorem statements_apart_of_ne (hs : s.IsLaidOut) {c d : Node} (hc : c ∈ s.statements)
    (hd : d ∈ s.statements) (hne : c ≠ d) :
    s.stopAt c ≤ s.startAt d ∨ s.stopAt d ≤ s.startAt c := by
  obtain ⟨i, hi⟩ := List.mem_iff_getElem?.1 (mem_root_of_mem_statements hc)
  obtain ⟨j, hj⟩ := List.mem_iff_getElem?.1 (mem_root_of_mem_statements hd)
  refine hs.followStatements.apart_of_ne hi hj ?_
  rintro rfl
  exact hne (Option.some.inj (hi.symm.trans hj))

theorem statements_apart (hs : s.IsLaidOut) {c d : Node} (hc : c ∈ s.statements)
    (hd : d ∈ s.statements) :
    s.startAt d ≤ s.startAt c ∨ s.stopAt c ≤ s.startAt d := by
  by_cases hcd : c = d
  · rw [hcd]
    exact .inl le_rfl
  · have hb := hs.followStatements.bounds (mem_root_of_mem_statements hd)
    rcases statements_apart_of_ne hs hc hd hcd with h | h
    · exact .inr h
    · exact .inl (hb.2.1.trans h)

/-! ## The edits inside a visited node -/

section Visited

variable {trail : Trail} {n : Node} {v : Visit} (hv : s.Visits imports trail n v)
include hv

theorem Visits.editsOf_eq (hs : s.IsLaidOut) (constants : List Text) :
    s.editsOf (s.rebindEdits imports constants s.visits) n = s.localEdits imports v := by
  have hplain : s.editsOf (s.rebindEdits imports constants s.visits) n =
      ((s.rebindEdits imports constants s.visits).filter fun e => !e.isInsertBefore).filter
        (Edit.touches (s.startAt n) (s.stopAt n)) := by
    rw [editsOf, List.filter_filter]
    refine List.filter_congr fun e he => ?_
    cases e with
    | insertBefore p text =>
      obtain ⟨w, hw, rfl⟩ := statement_of_mem_rebindEdits he
      have hapart := statements_apart hs hv.statement_mem ((mem_visits hs hw).1)
      have h1 := hv.start_le
      have h2 := hv.stop_le
      have hout : ¬ ((s.startAt n : Int) < s.startAt w.statement ∧
          (s.startAt w.statement : Int) < s.stopAt n) := by omega
      rw [Edit.showsInside, decide_eq_false hout]
      exact (Bool.and_false _).symm
    | _ => exact (Bool.and_true _).symm
  rw [hplain, filter_rebindEdits, hv.filter_eq]

theorem Visits.editsOf_of_hides (hs : s.IsLaidOut) (constants : List Text)
    (h : s.hides v.trail (s.textAt n) = true) :
    s.editsOf (s.rebindEdits imports constants s.visits) n = [] := by
  have hnone : s.rebinding? imports v.trail v.node = none :=
    rebinding?_of_hides (by rw [hv.node_eq]; exact h)
  rw [hv.editsOf_eq hs, localEdits, hnone]

theorem Visits.superclass (h : isSuperclass v.trail.place v.trail.nodes = true) :
    isSuperclass trail.place trail.nodes = true := by
  obtain ⟨i, rfl⟩ := hv.trail_eq
  rcases htrail : v.trail with _ | ⟨e₁, _ | ⟨e₂, rest⟩⟩
  · rw [htrail] at h
    exact nomatch h
  · rw [htrail] at h
    exact nomatch h
  · rw [htrail] at h
    exact h

theorem Visits.exists_constant (hs : s.IsLaidOut) {name expression : Text}
    (hr : s.rebinding? imports v.trail v.node = some (.declared name expression)) :
    ∃ statement ∈ s.statements, s.startAt statement ≤ s.startAt n ∧
      .insertBefore (s.startAt statement) (constantText name expression) ∈
        s.rebindEdits imports [] s.visits := by
  obtain ⟨pre, post, hsplit⟩ := List.append_of_mem hv.mem
  have hordered := pairwise_visits hs
  rw [hsplit, List.pairwise_append] at hordered
  obtain ⟨w, hw, hin⟩ := Script.exists_constant pre post hr
    (List.contains_nil : ([] : List Text).contains name = false)
  rw [← hsplit] at hin
  have hle : s.startAt w.statement ≤ s.startAt v.statement := by
    rcases List.mem_append.1 hw with hw | hw
    · exact hordered.2.2 w hw v List.mem_cons_self
    · rw [List.mem_singleton.1 hw]
  have hmem : w ∈ s.visits := by
    rw [hsplit]
    rcases List.mem_append.1 hw with hw | hw
    · exact List.mem_append_left _ hw
    · rw [List.mem_singleton.1 hw]
      exact List.mem_append_right _ List.mem_cons_self
  exact ⟨w.statement, (mem_visits hs hmem).1, hle.trans hv.start_le, hin⟩

theorem Visits.handled (hs : s.IsLaidOut) (hname : n.kind.isNameUse = true)
    (hpattern : n.kind ≠ .shorthandPropertyIdentifierPattern)
    (hdeclares : declaresName v.trail.place v.trail.nodes = false)
    {binding : ImportBinding} (hget : imports.get? (s.textAt n) = some binding)
    (h : s.hides v.trail (s.textAt n) = false) :
    s.Handled (s.rebindEdits imports [] s.visits) trail n binding.expression := by
  have hr : s.rebinding? imports v.trail v.node =
      rebindingTo? v.trail n (s.textAt n) binding.expression := by
    rw [hv.node_eq]
    exact rebinding?_of_not_hides hname hget h
  have hedits := hv.editsOf_eq hs []
  rw [localEdits, hr, hv.node_eq] at hedits
  have hkind : n.kind = .identifier ∨ n.kind = .shorthandPropertyIdentifier := by
    unfold Kind.isNameUse at hname
    split at hname <;> simp_all
  rcases hkind with hk | hk
  · have hto : rebindingTo? v.trail n (s.textAt n) binding.expression =
        if isSuperclass v.trail.place v.trail.nodes && !binding.expression.isNameLine then
          some (.declared (s.textAt n) binding.expression)
        else some (.replaced binding.expression) := by
      rw [rebindingTo?, hk]
      simp only [hdeclares, Bool.false_eq_true, if_false]
    rw [hto] at hr hedits
    split at hr
    · next hsuper =>
      rw [if_pos hsuper] at hedits
      obtain ⟨statement, hstatement, hstart, hconstant⟩ := hv.exists_constant hs hr
      exact .declared (hv.superclass (Bool.and_eq_true_iff.1 hsuper).1) hedits statement hstatement
        hstart hconstant
    · next hsuper =>
      rw [if_neg hsuper] at hedits
      exact .replaced hk hedits
  · rw [rebindingTo?, hk] at hedits
    exact .expanded hk hedits

end Visited

end Script

end RegistryScript
