import Mathlib
import RegistryScript.Proofs.Printing.Module
import RegistryScript.Proofs.Scoping.Hoisting
import RegistryScript.Proofs.Scoping.Room

/-! # What references resolve to, and what becomes of them

* `editsOf_eq_nil_of_declared`: a reference to a declaration around it is left alone, unless the pass
  overlooks the declaration.
* `handled_or_stray`: a read that resolves to an import is handled, unless a function around it is
  taken to declare its name at a place where it does not.
* `editsOf_loopVariable`, `editsOf_methodKey`: both exceptions occur.
-/

namespace RegistryScript
set_option autoImplicit false

variable {s : Script} {names : Settings} {d d' : Draft} {k : Nat} {u : Unit}

namespace Script

/-- A declaration in scope that the pass does not overlook has the name of a node, as it is
written. -/
def resolvesPlainly (s : Script) (trail : Trail) (n : Node) : Prop :=
  ∃ e ∈ trail, ∃ m ∈ s.declaredAt e.1 e.2, m ∉ s.overlooked e.1 ∧ s.textAt m = s.textAt n

theorem isNoticed_of_resolvesPlainly {trail : Trail} {n : Node} (h : s.resolvesPlainly trail n) :
    s.isNoticed trail n := by
  obtain ⟨e, he, m, hm, hoverlooked, htext⟩ := h
  rcases mem_noticed_or_overlooked hm with hnoticed | hin
  · exact ⟨e, he, m, hnoticed, htext⟩
  · exact absurd hin hoverlooked

instance {trail : Trail} {n : Node} : Decidable (s.resolvesInside trail n) :=
  inferInstanceAs (Decidable (∃ e ∈ trail, ∃ m ∈ s.declaredAt e.1 e.2, s.nameAt m = s.nameAt n))

abbrev referenceEdits (s : Script) (d : Draft) : List Edit :=
  s.rebindEdits d.imports d.helperConstants s.visits

end Script

namespace Trail

/-- The trail that enters the children at some places, given from the inside out, and the node it
leads to. -/
def along (root : Node) : List Nat → Option (Trail × Node)
  | [] => some ([], root)
  | i :: places => do
    let (trail, parent) ← along root places
    let n ← parent.children[i]?
    return ((parent, i) :: trail, n)

theorem leads_of_along {root n : Node} {places : List Nat} {trail : Trail}
    (h : along root places = some (trail, n)) : Leads root trail n := by
  induction places generalizing trail n with
  | nil =>
    obtain ⟨rfl, rfl⟩ := Prod.mk.inj (Option.some.inj h)
    rfl
  | cons i places ih =>
    obtain ⟨⟨outer, parent⟩, houter, h⟩ := Option.bind_eq_some_iff.1 h
    obtain ⟨c, hc, h⟩ := Option.bind_eq_some_iff.1 h
    obtain ⟨rfl, rfl⟩ := Prod.mk.inj (Option.some.inj h)
    exact ⟨hc, ih houter⟩

theorem exists_of_along {root : Node} {places : List Nat} {p : Trail → Node → Bool}
    (h : (along root places).any (fun e => p e.1 e.2) = true) :
    ∃ trail n, Leads root trail n ∧ p trail n = true := by
  rcases he : along root places with _ | ⟨trail, n⟩
  · rw [he] at h
    exact nomatch h
  · rw [he] at h
    exact ⟨trail, n, leads_of_along he, h⟩

end Trail

/-! ## Left alone -/

/-- When the references of a module are rebound, the edits of the pass leave a reference alone if it
resolves to a declaration around it that the pass does not overlook. -/
theorem editsOf_eq_nil_of_declared (hs : s.IsLaidOut) (hm : s.IsModule)
    (h : outcome (rebindReferences s) d = (.ok k, d')) :
    d.overlay.Takes (s.referenceEdits d) d'.overlay ∧
      ∀ trail n, Trail.Leads s.root trail n → Script.isReference trail n = true →
        s.resolvesPlainly trail n → s.editsOf (s.referenceEdits d) n = [] := by
  refine ⟨(rebindReferences_log h).takes, fun trail n hleads href hresolves => ?_⟩
  obtain ⟨v, hv⟩ := Script.exists_visit hs hm d.imports hleads href
  exact hv.editsOf_of_hides hs _
    ((hv.hides_iff hs hm hleads).2 (Script.isNoticed_of_resolvesPlainly hresolves))

def methodKeyModule : String :=
  "import { x } from './a';\nclass C \x7b\n  [x](x) \x7b return x; \x7d\n\x7d\n"

theorem isReady_methodKeyModule : (Script.ofModule methodKeyModule).IsReady :=
  Script.isReady_ofModule (by decide +kernel)

theorem editsOf_methodParameter :
    let s := Script.ofModule methodKeyModule
    let d := Draft.ofExports s
    ∃ k d', outcome (rebindReferences s) d = (.ok k, d') ∧
      ∃ trail n, Trail.Leads s.root trail n ∧ Script.isReference trail n = true ∧
        s.resolvesPlainly trail n ∧ s.editsOf (s.referenceEdits d) n = [] := by
  intro s d
  have hready := isReady_methodKeyModule
  obtain ⟨k, d', h⟩ := completes_rebindReferences hready.laidOut hready.module hready.exports
    hready.completes
  obtain ⟨trail, n, hleads, hn⟩ := @Trail.exists_of_along s.root [0, 0, 2, 0, 1, 1]
    (fun trail n => Script.isReference trail n && trail.any fun e =>
      (s.overlooked e.1).isEmpty && (s.declaredAt e.1 e.2).any fun m => s.textAt m = s.textAt n)
    (by decide +kernel)
  rw [Bool.and_eq_true] at hn
  have hresolves : s.resolvesPlainly trail n := by
    obtain ⟨e, he, hin⟩ := List.any_eq_true.1 hn.2
    obtain ⟨hempty, hdeclared⟩ := Bool.and_eq_true_iff.1 hin
    obtain ⟨m, hm, htext⟩ := List.any_eq_true.1 hdeclared
    refine ⟨e, he, m, hm, ?_, of_decide_eq_true htext⟩
    rw [List.isEmpty_iff.1 hempty]
    exact List.not_mem_nil
  exact ⟨k, d', h, trail, n, hleads, hn.1, hresolves,
    (editsOf_eq_nil_of_declared hready.laidOut hready.module h).2 trail n hleads hn.1 hresolves⟩

def loopVariableModule : String :=
  "import { x } from './a';\nfunction f(o) \x7b\n  for (var x of o) \x7b\x7d\n  return x;\n\x7d\n"

/-- A reference to a variable declared in the head of a loop is edited if its name is imported. -/
theorem editsOf_loopVariable :
    let s := Script.ofModule loopVariableModule
    let d := Draft.ofExports s
    ∃ trail n, Trail.Leads s.root trail n ∧ Script.isReference trail n = true ∧
      (d.imports.get? (s.textAt n)).isSome = true ∧ s.resolvesInside trail n ∧
      s.editsOf (s.referenceEdits d) n ≠ [] := by
  intro s d
  obtain ⟨trail, n, hleads, hn⟩ := @Trail.exists_of_along s.root [0, 1, 2, 1]
    (fun trail n => Script.isReference trail n && (d.imports.get? (s.textAt n)).isSome &&
      decide (s.resolvesInside trail n) && decide (s.editsOf (s.referenceEdits d) n ≠ []))
    (by decide +kernel)
  simp only [Bool.and_eq_true, decide_eq_true_eq] at hn
  exact ⟨trail, n, hleads, hn.1.1.1, hn.1.1.2, hn.1.2, hn.2⟩

/-! ## Handled -/

/-- After the passes over imports and exports of a module the pass over references completes, and a
read of an imported name that no declaration around it and no variable of the module has is handled,
unless it is a stray one: those are left alone. -/
theorem handled_or_stray (hs : s.IsLaidOut) (hm : s.IsModule) (hexports : s.exportsAreShaped = true)
    (h : outcome (do collectImports s names; registerExports s names) (Draft.ofText s.text) =
      (.ok u, d)) :
    ∃ k d', outcome (rebindReferences s) d = (.ok k, d') ∧
      d.overlay.Takes (s.referenceEdits d) d'.overlay ∧
      ∀ trail n binding, Trail.Leads s.root trail n → Script.isRead trail n = true →
        d.imports.get? (s.textAt n) = some binding → ¬ s.resolvesInside trail n →
        (∀ m ∈ s.moduleVariables, s.nameAt m ≠ s.nameAt n) →
        (¬ s.isStray trail n → s.Handled (s.referenceEdits d) trail n binding.expression) ∧
          (s.isStray trail n → s.editsOf (s.referenceEdits d) n = []) := by
  obtain ⟨k, d', hrun⟩ := completes_rebindReferences hs hm hexports h
  refine ⟨k, d', hrun, (rebindReferences_log hrun).takes, ?_⟩
  intro trail n binding hleads hread hget hinside hvariables
  rw [Script.isRead, Bool.and_eq_true, decide_eq_true_eq] at hread
  obtain ⟨href, hpattern⟩ := hread
  obtain ⟨v, hv⟩ := Script.exists_visit hs hm d.imports hleads href
  have hstray := Script.isNoticed_iff_isStray hm hleads hinside hvariables
  have hhides := hv.hides_iff hs hm hleads
  refine ⟨fun hnot => ?_, fun hyes => hv.editsOf_of_hides hs _ (hhides.2 (hstray.2 hyes))⟩
  simp only [Script.isReference, Bool.and_eq_true, Bool.not_eq_true'] at href
  obtain ⟨⟨hname, hbinding⟩, -⟩ := href
  have hdeclares : declaresName v.trail.place v.trail.nodes = false := by
    obtain ⟨i, rfl⟩ := hv.trail_eq
    rw [← Bool.not_eq_true]
    intro hd
    rw [isBinding_of_declaresName hm hleads hname hd] at hbinding
    exact absurd hbinding.symm Bool.false_ne_true
  have hshown : s.hides v.trail (s.textAt n) = false := by
    rw [← Bool.not_eq_true]
    exact fun hhidden => hnot (hstray.1 (hhides.1 hhidden))
  have hconstants : d.helperConstants = [] := (awaits_visits hs hexports h).2
  rw [Script.referenceEdits, hconstants]
  exact hv.handled hs hname hpattern hdeclares hget hshown

theorem handled_sampleModule :
    let s := Script.ofModule sampleModule
    let d := Draft.ofExports s
    ∃ trail n expression, Trail.Leads s.root trail n ∧ Script.isRead trail n = true ∧
      ¬ s.resolvesInside trail n ∧ ¬ s.isStray trail n ∧
      s.Handled (s.referenceEdits d) trail n expression := by
  intro s d
  have hready : s.IsReady := Script.isReady_ofModule (by decide +kernel)
  obtain ⟨trail, n, hleads, hn⟩ := @Trail.exists_of_along s.root [0, 0, 2]
    (fun trail n => Script.isRead trail n && (d.imports.get? (s.textAt n)).isSome &&
      !decide (s.resolvesInside trail n) && s.moduleVariables.isEmpty &&
      trail.all fun e => (e.1.strays e.2).isEmpty)
    (by decide +kernel)
  simp only [Bool.and_eq_true, Bool.not_eq_true', decide_eq_false_iff_not, List.isEmpty_iff,
    Option.isSome_iff_exists, List.all_eq_true] at hn
  obtain ⟨⟨⟨⟨hread, binding, hget⟩, hinside⟩, hvariables⟩, hstrays⟩ := hn
  have hstray : ¬ s.isStray trail n := by
    rintro ⟨e, he, m, hm, -⟩
    rw [hstrays e he] at hm
    exact absurd hm List.not_mem_nil
  obtain ⟨k, d', -, -, hall⟩ := handled_or_stray hready.laidOut hready.module
    hready.exports hready.completes
  have hnone : ∀ m ∈ s.moduleVariables, s.nameAt m ≠ s.nameAt n := by
    rw [hvariables]
    exact fun m hm => absurd hm List.not_mem_nil
  exact ⟨trail, n, binding.expression, hleads, hread, hinside, hstray,
    (hall trail n binding hleads hread hget hinside hnone).1 hstray⟩

/-- The computed key of a method is left alone if a parameter has its name. -/
theorem editsOf_methodKey :
    let s := Script.ofModule methodKeyModule
    let d := Draft.ofExports s
    ∃ trail n, Trail.Leads s.root trail n ∧ Script.isRead trail n = true ∧
      (d.imports.get? (s.textAt n)).isSome = true ∧ ¬ s.resolvesInside trail n ∧
      s.moduleVariables = [] ∧ s.editsOf (s.referenceEdits d) n = [] := by
  intro s d
  obtain ⟨trail, n, hleads, hn⟩ := @Trail.exists_of_along s.root [0, 0, 0, 1, 1]
    (fun trail n => Script.isRead trail n && (d.imports.get? (s.textAt n)).isSome &&
      !decide (s.resolvesInside trail n) && s.moduleVariables.isEmpty &&
      decide (s.editsOf (s.referenceEdits d) n = []))
    (by decide +kernel)
  simp only [Bool.and_eq_true, Bool.not_eq_true', decide_eq_true_eq, decide_eq_false_iff_not,
    List.isEmpty_iff] at hn
  exact ⟨trail, n, hleads, hn.1.1.1.1, hn.1.1.1.2, hn.1.1.2, hn.1.2, hn.2⟩

end RegistryScript
