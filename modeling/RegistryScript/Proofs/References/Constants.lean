import Mathlib
import RegistryScript.Proofs.References.Preorder
import RegistryScript.Proofs.Registration.Expressions
import RegistryScript.Proofs.Scoping.Room

/-! # Constants of superclasses

A class declaration keeps the name it extends when the name stands for an expression that is no
name. The name is declared as a constant instead, in front of the first statement that needs it.

* `Script.inherits`: a visit of a name that a class declaration extends.
* `Script.rebinding?_of_inherits`, `Script.inherits_of_declared`: these are the visits that declare
  constants.
* `Script.filter_inserts_rebindEdits`: the first of them inserts the constant, the others do not.
* `Script.find?_visits`: the first of them stands in the first statement with one.
* `superclass_constants`: what the pass does about a name whose expression is no name.
-/

namespace RegistryScript
set_option autoImplicit false

open Edit

def Edit.inserts (text : Text) : Edit → Bool
  | .prepend t | .append t | .insertBefore _ t | .insertAfter _ t => t = text
  | .replace .. | .delete .. => false

/-! ## Visits of superclasses -/

theorem declaresName_of_isSuperclass {i : Nat} {ns : List Node} (h : isSuperclass i ns = true) :
    declaresName i ns = false := by
  rcases ns with _ | ⟨heritage, _ | ⟨owner, ns⟩⟩
  · exact nomatch h
  · exact nomatch h
  · rw [isSuperclass, Bool.and_eq_true, Bool.and_eq_true, decide_eq_true_eq] at h
    simp [declaresName, h.1.1, Kind.isFunction, Kind.isClass, Kind.isPattern]

namespace Script

/-- A visit of an identifier that a class declaration extends. It has a name, and no scope around it
declares the name. -/
def inherits (s : Script) (name : Text) (v : Visit) : Bool :=
  v.node.kind = .identifier && s.textAt v.node = name && !s.hides v.trail name &&
    isSuperclass v.trail.place v.trail.nodes

variable {s : Script} {imports : ImportTable} {name expression : Text} {binding : ImportBinding}
  {v : Visit}

theorem rebinding?_of_inherits (hget : imports.get? name = some binding)
    (hline : binding.expression.isNameLine = false) (h : s.inherits name v = true) :
    s.rebinding? imports v.trail v.node = some (.declared name binding.expression) := by
  simp only [inherits, Bool.and_eq_true, Bool.not_eq_true', decide_eq_true_eq] at h
  obtain ⟨⟨⟨hk, rfl⟩, hhides⟩, hsuper⟩ := h
  rw [rebinding?_of_not_hides (by rw [hk]; rfl) hget hhides, rebindingTo?, hk]
  simp only [declaresName_of_isSuperclass hsuper, hsuper, hline, Bool.false_eq_true, if_false,
    Bool.not_false, Bool.and_self, if_true]

theorem inherits_of_declared
    (h : s.rebinding? imports v.trail v.node = some (.declared name expression)) :
    s.inherits name v = true ∧ expression.isNameLine = false := by
  have hhides : s.hides v.trail (s.textAt v.node) = false := by
    rw [← Bool.not_eq_true]
    intro hhides
    rw [rebinding?_of_hides hhides] at h
    cases h
  cases hget : imports.get? (s.textAt v.node) with
  | none =>
    rw [rebinding?, hget] at h
    split at h <;> cases h
  | some binding =>
    have hname := isNameUse_of_rebinding? h
    rw [rebinding?_of_not_hides hname hget hhides] at h
    have hk : v.node.kind = .identifier := by
      unfold Kind.isNameUse at hname
      split at hname
      · assumption
      · next hk => simp [rebindingTo?, hk] at h
      · next hk => simp [rebindingTo?, hk] at h
      · exact absurd hname Bool.false_ne_true
    simp only [rebindingTo?, hk] at h
    split at h
    · cases h
    · split at h
      · next hsuper =>
        rw [Bool.and_eq_true, Bool.not_eq_true'] at hsuper
        obtain ⟨rfl, rfl⟩ := Rebinding.declared.inj (Option.some.inj h)
        simp only [inherits, hk, hhides, hsuper, decide_true, Bool.not_false, Bool.and_self,
          and_self]
      · cases h

theorem exists_declared_iff (hget : imports.get? name = some binding)
    (hline : binding.expression.isNameLine = false) :
    (∃ expression, s.rebinding? imports v.trail v.node = some (.declared name expression)) ↔
      s.inherits name v = true :=
  ⟨fun ⟨_, h⟩ => (inherits_of_declared h).1, fun h => ⟨_, rebinding?_of_inherits hget hline h⟩⟩

/-! ## Names with constants -/

theorem mem_visitConstants {constants : List Text} :
    name ∈ s.visitConstants imports constants v ↔ name ∈ constants ∨
      ∃ expression, s.rebinding? imports v.trail v.node = some (.declared name expression) := by
  rw [visitConstants]
  split
  · next x e hr =>
    have hiff : (∃ expression, s.rebinding? imports v.trail v.node =
        some (.declared name expression)) ↔ name = x := by
      rw [hr]
      constructor
      · rintro ⟨_, h⟩
        exact (Rebinding.declared.inj (Option.some.inj h)).1.symm
      · rintro rfl
        exact ⟨e, rfl⟩
    rw [hiff]
    split
    · next hin =>
      refine ⟨.inl, fun h => h.elim id fun heq => ?_⟩
      rw [heq]
      simpa using hin
    · rw [List.mem_append, List.mem_singleton]
  · next hr =>
    refine ⟨.inl, fun h => h.elim id fun hdeclared => ?_⟩
    obtain ⟨e, h⟩ := hdeclared
    exact absurd h (hr name e)

theorem mem_rebindConstants (constants : List Text) (vs : List Visit) :
    name ∈ s.rebindConstants imports constants vs ↔ name ∈ constants ∨
      ∃ v ∈ vs, ∃ expression,
        s.rebinding? imports v.trail v.node = some (.declared name expression) := by
  induction vs generalizing constants with
  | nil => simp [rebindConstants]
  | cons v vs ih =>
    have hstep : s.rebindConstants imports constants (v :: vs) =
        s.rebindConstants imports (s.visitConstants imports constants v) vs := rfl
    rw [hstep, ih, mem_visitConstants, or_assoc, List.exists_mem_cons_iff]

/-! ## Inserted constants -/

theorem filter_inserts_visitEdits {constants : List Text} {x e : Text}
    (h : ∀ name expression, s.rebinding? imports v.trail v.node = some (.declared name expression) →
      constantText name expression ≠ constantText x e) :
    (s.visitEdits imports constants v).filter (Edit.inserts (constantText x e)) = [] := by
  rw [visitEdits]
  split
  · rfl
  · rfl
  · next expression _ =>
    have hne : ": " ++ expression ≠ constantText x e := fun heq =>
      absurd (List.cons.inj heq).1 (by decide)
    simp [Edit.inserts, hne]
  · next name expression hr =>
    have hne := h name expression hr
    split
    · rfl
    · simp [Edit.inserts, hne]

/-- Among the edits of visits the constant of a name is inserted by the first visit that needs it,
unless the constant is there already. -/
theorem filter_inserts_rebindEdits (hget : imports.get? name = some binding)
    (hline : binding.expression.isNameLine = false)
    (hinj : ∀ x b, imports.get? x = some b →
      constantText x b.expression = constantText name binding.expression → x = name)
    (constants : List Text) (vs : List Visit) :
    (s.rebindEdits imports constants vs).filter
        (Edit.inserts (constantText name binding.expression)) =
      if name ∈ constants then []
      else ((vs.find? (s.inherits name)).map fun v =>
        .insertBefore (s.startAt v.statement) (constantText name binding.expression)).toList := by
  -- The names declared so far grow from visit to visit, so the claim is about any of them.
  induction vs generalizing constants with
  | nil =>
    rw [rebindEdits]
    split <;> rfl
  | cons v vs ih =>
    rw [rebindEdits, List.filter_append, ih, List.find?_cons]
    by_cases hv : s.inherits name v = true
    · have hr := rebinding?_of_inherits hget hline hv
      rw [hv, visitEdits, visitConstants, hr]
      by_cases hin : name ∈ constants
      · simp [hin]
      · simp [hin, Edit.inserts]
    · have hother : ∀ x e, s.rebinding? imports v.trail v.node = some (.declared x e) →
          x ≠ name := by
        rintro x e hr rfl
        exact hv (inherits_of_declared hr).1
      have hconstants : name ∈ s.visitConstants imports constants v ↔ name ∈ constants := by
        rw [mem_visitConstants, exists_declared_iff hget hline]
        exact or_iff_left hv
      rw [Bool.not_eq_true] at hv
      rw [filter_inserts_visitEdits, hv, List.nil_append]
      · simp only [hconstants]
      · intro x e hr heq
        have hexpression := expression_of_declared hr
        obtain ⟨b, hb, rfl⟩ := Option.map_eq_some_iff.1 hexpression
        exact hother x _ hr (hinj x b hb heq)

/-! ## Statements -/

theorem statement_of_mem_visitsOf {c : Node} (h : v ∈ visitsOf c) : v.statement = c := by
  rw [visitsOf] at h
  split at h
  · exact absurd h List.not_mem_nil
  · obtain ⟨part, -, h⟩ := List.mem_flatMap.1 h
    obtain ⟨trail, heq, -, -⟩ := exists_of_mem_visitsIn h
    rw [heq]

theorem find?_visits {α : Type} (p : Visit → Bool) (f : Node → α) :
    (s.visits.find? p).map (fun v => f v.statement) =
      (s.statements.find? fun c => (visitsOf c).any p).map f := by
  rw [visits_eq]
  induction s.statements with
  | nil => rfl
  | cons c statements ih =>
    rw [List.flatMap_cons, List.find?_append, List.find?_cons]
    cases hfind : (visitsOf c).find? p with
    | none =>
      have hnone : (visitsOf c).any p = false := by
        rw [← Bool.not_eq_true, List.any_eq_true]
        rintro ⟨v, hv, hp⟩
        exact List.find?_eq_none.1 hfind v hv hp
      rw [hnone, Option.none_or]
      exact ih
    | some v =>
      have hmem := List.mem_of_find?_eq_some hfind
      have hany : (visitsOf c).any p = true :=
        List.any_eq_true.2 ⟨v, hmem, List.find?_some hfind⟩
      rw [hany, Option.some_or, Option.map_some, statement_of_mem_visitsOf hmem]
      rfl

/-! ## Superclasses stay -/

theorem localEdits_of_inherits (hget : imports.get? name = some binding)
    (hline : binding.expression.isNameLine = false) (h : s.inherits name v = true) :
    s.localEdits imports v = [] := by
  rw [localEdits, rebinding?_of_inherits hget hline h]

theorem editsOf_eq_nil_of_localEdits (hs : s.IsLaidOut) (hv : v ∈ s.visits)
    (hword : v.node.isWord = true) (hnil : s.localEdits imports v = []) (constants : List Text) :
    s.editsOf (s.rebindEdits imports constants s.visits) v.node = [] := by
  have hin := visitedIn_of_mem_visits hs hv
  have hout : (s.visits.flatMap (s.localEdits imports)).filter
      (touches (s.startAt v.node) (s.stopAt v.node)) = s.localEdits imports v := by
    rw [hnil, List.filter_flatMap, List.flatMap_eq_nil_iff]
    intro w hw
    by_cases hne : w = v
    · rw [hne, hnil]
      rfl
    have hnode := visitedIn_of_mem_visits hs hw
    cases hr : s.rebinding? imports w.trail w.node with
    | none =>
      rw [localEdits, hr]
      rfl
    | some r =>
      have hsymm : Std.Symm s.WordsApart := ⟨fun v w h hw hv => (h hv hw).symm⟩
      have hapart := (wordsApart_visits hs).forall hw hv hne
        (isWord_of_isNameUse (isNameUse_of_rebinding? hr)) hword
      exact filter_touches_eq_nil (within_localEdits hs (Node.all_iff.1 hnode.spans).1
        (Node.all_iff.1 hnode.sound).1) hapart
  have hvisits : s.Visits imports (v.trail ++ [(s.root, 0)]) v.node v :=
    ⟨hv, rfl, ⟨0, rfl⟩, (mem_visits hs hv).1, hin.start_le, hin.le_stop, hout⟩
  rw [hvisits.editsOf_eq hs, hnil]

theorem references_eq_add (hget : imports.get? name = some binding)
    (hline : binding.expression.isNameLine = false) (vs : List Visit) :
    s.references imports vs = vs.countP (s.inherits name) +
      s.references imports (vs.filter fun v => !s.inherits name v) := by
  have hall : (vs.filter (s.inherits name)).countP
      (fun v => (s.rebinding? imports v.trail v.node).isSome) = vs.countP (s.inherits name) := by
    rw [List.countP_eq_length_filter (p := s.inherits name), List.countP_eq_length]
    intro v hv
    rw [rebinding?_of_inherits hget hline (List.mem_filter.1 hv).2]
    rfl
  rw [references, references, List.countP_eq_countP_filter_add vs _ (s.inherits name), hall]

end Script

/-- When the references of a script are rebound after its imports are collected, a name whose
expression is no name is declared as a constant if and only if some class declaration extends it
where no scope hides it: once, in front of the first statement with such a class. There the name
stays and counts as a reference, and no other reference is affected. -/
theorem superclass_constants {s : Script} {names : Settings} {d d' : Draft} {u : Unit} {k : Nat}
    {name : Text} {binding : ImportBinding} (hnames : names.importPrefix.isNameLine = true)
    (hcollect : Succeeds (collectImports s names) (Draft.ofText s.text) u d)
    (h : Succeeds (rebindReferences s) d k d') (hget : d.imports.get? name = some binding)
    (hname : binding.expression.isName = false) :
    ∃ es, d.overlay.Takes es d'.overlay ∧
      es.filter (Edit.inserts (Script.constantText name binding.expression)) =
        ((s.statements.find? fun c => (Script.visitsOf c).any (s.inherits name)).map fun c =>
          .insertBefore (s.startAt c) (Script.constantText name binding.expression)).toList ∧
      (name ∈ d'.helperConstants ↔ ∃ v ∈ s.visits, s.inherits name v = true) ∧
      es.filter (fun e => !e.isInsertBefore) =
        (s.visits.filter fun v => !s.inherits name v).flatMap (s.localEdits d.imports) ∧
      (s.IsLaidOut → ∀ v ∈ s.visits, s.inherits name v = true → s.editsOf es v.node = []) ∧
      k = s.visits.countP (s.inherits name) +
        s.references d.imports (s.visits.filter fun v => !s.inherits name v) := by
  have hlog := rebindReferences_log h
  obtain ⟨hbinds, -, -⟩ := collectImports_binds hcollect
  have hlists := collectImports_lists ImportTable.lists_nil hcollect
  have hexpression : ∀ {x b}, d.imports.get? x = some b → names.IsExpression b.expression :=
    fun hb => isExpression_of_get? hbinds hlists hb
  have hline : binding.expression.isNameLine = false := by
    rw [← Bool.not_eq_true]
    intro hline
    rw [(hexpression hget).isName_of_isNameLine hline] at hname
    exact nomatch hname
  have hconstants : d.helperConstants = [] := (collectImports_log hcollect).constants
  refine ⟨s.rebindEdits d.imports [] s.visits, ?_, ?_, ?_, ?_, ?_, ?_⟩
  · rw [← hconstants]
    exact hlog.takes
  · rw [Script.filter_inserts_rebindEdits hget hline fun x b hb heq =>
      (constantText_inj hnames (hexpression hb) (hexpression hget) heq).1, if_neg List.not_mem_nil]
    rw [Script.find?_visits (s.inherits name) fun c =>
      Edit.insertBefore (s.startAt c) (Script.constantText name binding.expression)]
  · rw [hlog.constants, hconstants, Script.mem_rebindConstants]
    simp only [List.not_mem_nil, false_or, Script.exists_declared_iff hget hline]
  · rw [Script.filter_rebindEdits, Script.flatMap_filter_eq]
    refine List.flatMap_congr fun v _ => ?_
    cases hv : s.inherits name v with
    | true => exact Script.localEdits_of_inherits hget hline hv
    | false => rfl
  · intro hs v hv hinherits
    have hk : v.node.kind = .identifier := by
      simp only [Script.inherits, Bool.and_eq_true, decide_eq_true_eq] at hinherits
      exact hinherits.1.1.1
    exact Script.editsOf_eq_nil_of_localEdits hs hv (Script.isWord_of_isNameUse (by rw [hk]; rfl))
      (Script.localEdits_of_inherits hget hline hinherits) []
  · rw [hlog.count_eq, Script.references_eq_add hget hline]

def superclassModule : String :=
  "import \x7b a \x7d from 'm';\nlet y = a;\nexport class B extends a \x7b\x7d\n" ++
    "class C extends a \x7b\x7d\n"

theorem superclass_constants_superclassModule :
    let s := Script.ofModule superclassModule
    let text := Script.constantText "a" "__import_0__.a"
    ∃ d d' es, Succeeds (collectImports s {}) (Draft.ofText s.text) () d ∧
      Succeeds (rebindReferences s) d 3 d' ∧ d.overlay.Takes es d'.overlay ∧
      es.filter (Edit.inserts text) = [.insertBefore 34 text] ∧ ("a" : Text) ∈ d'.helperConstants ∧
      s.visits.countP (s.inherits "a") = 2 ∧
      ∀ v ∈ s.visits, s.inherits "a" v = true → s.editsOf es v.node = [] := by
  intro s text
  have hready : s.IsReady := Script.isReady_ofModule (by decide +kernel)
  let d := (outcome (collectImports s {}) (Draft.ofText s.text)).2
  let d' := (outcome (rebindReferences s) d).2
  have hruns : (outcome (collectImports s {}) (Draft.ofText s.text)).1.toOption = some () ∧
      (outcome (rebindReferences s) d).1.toOption = some 3 ∧
      (d.imports.get? "a").map ImportBinding.expression = some "__import_0__.a" := by
    decide +kernel
  have hvisits : (s.statements.find? fun c => (Script.visitsOf c).any (s.inherits "a")).map
      s.startAt = some 34 ∧ s.visits.countP (s.inherits "a") = 2 := by decide +kernel
  obtain ⟨hcollects, hrebinds, hbinding⟩ := hruns
  obtain ⟨hfirst, hcount⟩ := hvisits
  obtain ⟨binding, hget, hexpression⟩ := Option.map_eq_some_iff.1 hbinding
  have hcollect : Succeeds (collectImports s {}) (Draft.ofText s.text) () d :=
    outcome_eq_of_toOption hcollects
  have hrebind : Succeeds (rebindReferences s) d 3 d' := outcome_eq_of_toOption hrebinds
  obtain ⟨es, htakes, hinserts, hconstants, -, hedits, -⟩ :=
    superclass_constants (by decide) hcollect hrebind hget (by rw [hexpression]; decide)
  rw [hexpression] at hinserts
  refine ⟨d, d', es, hcollect, hrebind, htakes, ?_, hconstants.2 ?_, hcount,
    hedits hready.laidOut⟩
  · obtain ⟨c, hc, hstart⟩ := Option.map_eq_some_iff.1 hfirst
    rw [hinserts, hc, Option.map_some, hstart]
    rfl
  · exact List.countP_pos_iff.1 (by rw [hcount]; exact Nat.two_pos)

end RegistryScript
