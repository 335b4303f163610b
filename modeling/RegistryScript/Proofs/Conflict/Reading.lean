import Mathlib
import RegistryScript.Pass.Exports
import RegistryScript.Pass.Scope
import RegistryScript.Proofs.Overlay.Acceptance
import RegistryScript.Proofs.Scoping.Collectors

/-! # Reading a tree meets no conflict

A conflict is an edit that touches what was edited before. What only reads a tree may fail on a tree
that lacks nodes or leaves the text, but not by a conflict.

* `Fault.isConflict`: the fault of a conflict.
* `Harmless`: a computation does not fail by a conflict.
* `harmless_stringValue`, `harmless_declaredNames`, `harmless_scopeNames`: the computations that the
  passes read a tree by.
-/

namespace RegistryScript
set_option autoImplicit false

def Fault.isConflict : Fault → Bool
  | .edit e => e.isOverlap
  | _ => false

/-- A computation does not fail by a conflict. -/
def Harmless {α : Type} (r : Except Fault α) : Prop := ∀ f, r = .error f → f.isConflict = false

section Rules

variable {α β : Type}

theorem harmless_ok (a : α) : Harmless (.ok a) := fun _ h => nomatch h

theorem harmless_error {f : Fault} (h : f.isConflict = false) :
    Harmless (.error f : Except Fault α) := by
  intro f' hf
  rw [← Except.error.inj hf]
  exact h

theorem harmless_bind {r : Except Fault α} {g : α → Except Fault β} (hr : Harmless r)
    (hg : ∀ a, Harmless (g a)) : Harmless (r >>= g) := by
  intro f hf
  cases r with
  | error e => exact hr f (congrArg Except.error (Except.error.inj hf))
  | ok a => exact hg a f hf

theorem harmless_ite {p : Prop} [Decidable p] {r r' : Except Fault α} (hr : Harmless r)
    (hr' : Harmless r') : Harmless (if p then r else r') := by
  split
  · exact hr
  · exact hr'

theorem harmless_mapM {g : α → Except Fault β} {l : List α} (hg : ∀ a ∈ l, Harmless (g a)) :
    Harmless (l.mapM g) := by
  induction l with
  | nil => exact harmless_ok []
  | cons a l ih =>
    rw [List.mapM_cons]
    exact harmless_bind (hg a List.mem_cons_self) fun _ =>
      harmless_bind (ih fun b hb => hg b (List.mem_cons_of_mem a hb)) fun _ => harmless_ok _

end Rules

/-! ## Texts and strings -/

variable (s : Script) (n : Node)

theorem harmless_offsetOf (byte : Nat) : Harmless (s.offsetOf byte) := by
  unfold Script.offsetOf
  split
  · exact harmless_ok _
  · split
    · exact harmless_ok _
    · exact harmless_error rfl

theorem harmless_startOf : Harmless (s.startOf n) := harmless_offsetOf s n.start

theorem harmless_stopOf : Harmless (s.stopOf n) := harmless_offsetOf s n.stop

theorem harmless_textOf : Harmless (s.textOf n) :=
  harmless_bind (harmless_startOf s n) fun _ =>
    harmless_bind (harmless_stopOf s n) fun _ => harmless_ok _

theorem harmless_partValue : Harmless (s.partValue n) := by
  refine harmless_bind (harmless_textOf s n) fun text => harmless_ite ?_ (harmless_ok _)
  intro f hf
  cases he : decodeEscape text with
  | ok t =>
    rw [he] at hf
    exact nomatch hf
  | error e =>
    rw [he] at hf
    rw [← Except.error.inj hf]
    rfl

theorem harmless_stringValue : Harmless (s.stringValue n) :=
  harmless_bind (harmless_mapM fun part _ => harmless_partValue s part) fun _ => harmless_ok _

theorem harmless_exportName : Harmless (s.exportName n) :=
  harmless_ite (harmless_stringValue s n) (harmless_textOf s n)

theorem harmless_demand (n? : Option Node) : Harmless (Pass.demand n?) := by
  cases n? with
  | none => exact harmless_error rfl
  | some n => exact harmless_ok n

theorem harmless_namespaceName? : Harmless (namespaceName? n) := by
  unfold namespaceName?
  split
  · split
    · exact harmless_ok _
    · exact harmless_error rfl
  · exact harmless_ok _

/-! ## Bound names -/

theorem harmless_accessBase : Harmless (accessBase n) := by
  induction n using Node.induct with
  | step n ih =>
    obtain ⟨kind, start, stop, role, isNamed, isMissing, children⟩ := n
    have hobject : ∀ ns : List Node, (∀ c ∈ ns, Harmless (accessBase c)) →
        Harmless (accessBase.baseOfObject ns) := by
      intro ns hns
      induction ns with
      | nil =>
        rw [accessBase.baseOfObject]
        exact harmless_error rfl
      | cons c ns ihs =>
        rw [accessBase.baseOfObject]
        exact harmless_ite (hns c List.mem_cons_self)
          (ihs fun d hd => hns d (List.mem_cons_of_mem c hd))
    rw [accessBase]
    exact harmless_ite (hobject children ih) (harmless_ok _)

theorem harmless_boundInRole {role : Role} {ns : List Node}
    (h : ∀ c ∈ ns, Harmless (boundIdentifiers c)) : Harmless (boundInRole role ns) := by
  induction ns with
  | nil =>
    rw [boundInRole]
    exact harmless_ok _
  | cons c ns ih =>
    rw [boundInRole]
    exact harmless_ite (h c List.mem_cons_self) (ih fun d hd => h d (List.mem_cons_of_mem c hd))

theorem harmless_boundInElements {ns : List Node} (h : ∀ c ∈ ns, Harmless (boundIdentifiers c)) :
    Harmless (boundInElements ns) := by
  induction ns with
  | nil =>
    rw [boundInElements]
    exact harmless_ok _
  | cons c ns ih =>
    have hrest : ∀ here, Harmless (do return here ++ (← boundInElements ns)) := fun here =>
      harmless_bind (ih fun d hd => h d (List.mem_cons_of_mem c hd)) fun _ => harmless_ok _
    rw [boundInElements]
    exact harmless_ite (harmless_bind (h c List.mem_cons_self) hrest)
      (harmless_bind (harmless_ok _) hrest)

theorem harmless_boundInProperties {ns : List Node}
    (h : ∀ c ∈ ns, Harmless (boundIdentifiers c))
    (hparts : ∀ c ∈ ns, ∀ role, Harmless (boundInRole role c.children)) :
    Harmless (boundInProperties ns) := by
  induction ns with
  | nil =>
    rw [boundInProperties]
    exact harmless_ok _
  | cons c ns ih =>
    have hpart := hparts c List.mem_cons_self
    have hself := h c List.mem_cons_self
    have hrest : ∀ here, Harmless (do return here ++ (← boundInProperties ns)) := fun here =>
      harmless_bind (ih (fun d hd => h d (List.mem_cons_of_mem c hd))
        fun d hd => hparts d (List.mem_cons_of_mem c hd)) fun _ => harmless_ok _
    obtain ⟨kind, start, stop, role, isNamed, isMissing, children⟩ := c
    unfold boundInProperties
    refine harmless_ite ?_ (harmless_bind (harmless_ok _) hrest)
    split
    · exact harmless_bind (hpart .value) hrest
    · exact harmless_bind (hpart .left) hrest
    · exact harmless_bind hself hrest
    · exact harmless_bind hself hrest
    · exact harmless_bind (harmless_ok _) hrest

theorem harmless_boundIdentifiers : Harmless (boundIdentifiers n) := by
  have hboth : Harmless (boundIdentifiers n) ∧
      ∀ role, Harmless (boundInRole role n.children) := by
    induction n using Node.induct with
    | step n ih =>
      have hchildren : ∀ c ∈ n.children, Harmless (boundIdentifiers c) := fun c hc => (ih c hc).1
      refine ⟨?_, fun role => harmless_boundInRole hchildren⟩
      have hproperties := harmless_boundInProperties hchildren fun c hc => (ih c hc).2
      obtain ⟨kind, start, stop, role, isNamed, isMissing, children⟩ := n
      unfold boundIdentifiers
      split
      · exact harmless_ok _
      · exact harmless_ok _
      · exact harmless_bind (harmless_accessBase _) fun _ => harmless_ok _
      · exact hproperties
      · exact harmless_boundInElements hchildren
      · exact harmless_boundInElements hchildren
      · exact harmless_boundInRole hchildren
      · exact harmless_ok _
  exact hboth.1

theorem harmless_boundNames : Harmless (s.boundNames n) :=
  harmless_bind (harmless_boundIdentifiers n) fun _ => harmless_mapM fun c _ => harmless_textOf s c

theorem harmless_boundNames? (n? : Option Node) : Harmless (s.boundNames? n?) := by
  cases n? with
  | none => exact harmless_ok _
  | some n => exact harmless_boundNames s n

theorem harmless_declaratorNames : Harmless (s.declaratorNames n) :=
  harmless_bind (harmless_mapM fun _ _ => harmless_boundNames? s _) fun _ => harmless_ok _

theorem harmless_ownName : Harmless (s.ownName n) := by
  unfold Script.ownName
  split
  · exact harmless_ok _
  · exact harmless_bind (harmless_textOf s _) fun _ => harmless_ok _

theorem harmless_declaredNames : Harmless (s.declaredNames n) :=
  harmless_ite (harmless_declaratorNames s n) (harmless_ownName s n)

/-! ## Scopes -/

theorem harmless_statementNames : Harmless (s.statementNames n) :=
  harmless_ite (harmless_declaratorNames s n)
    (harmless_ite (harmless_ownName s n) (harmless_ok _))

theorem harmless_blockNames (ns : List Node) : Harmless (s.blockNames ns) :=
  harmless_bind (harmless_mapM fun c _ => harmless_statementNames s c) fun _ => harmless_ok _

theorem harmless_hoistedAmong {ns : List Node} (h : ∀ c ∈ ns, Harmless (s.hoistedIn c)) :
    Harmless (s.hoistedAmong ns) := by
  induction ns with
  | nil =>
    rw [Script.hoistedAmong]
    exact harmless_ok _
  | cons c ns ih =>
    rw [Script.hoistedAmong]
    exact harmless_bind (ih fun d hd => h d (List.mem_cons_of_mem c hd)) fun _ =>
      harmless_ite (harmless_bind (h c List.mem_cons_self) fun _ => harmless_ok _) (harmless_ok _)

theorem harmless_hoistedIn : Harmless (s.hoistedIn n) := by
  induction n using Node.induct with
  | step n ih =>
    obtain ⟨kind, start, stop, role, isNamed, isMissing, children⟩ := n
    have hrest : ∀ here, Harmless (do return here ++ (← s.hoistedAmong children)) := fun here =>
      harmless_bind (harmless_hoistedAmong s ih) fun _ => harmless_ok _
    rw [Script.hoistedIn]
    exact harmless_ite (harmless_ok _)
      (harmless_ite (harmless_bind (harmless_declaratorNames s _) hrest)
        (harmless_bind (harmless_ok _) hrest))

theorem harmless_hoistedNames : Harmless (s.hoistedNames n) :=
  harmless_hoistedAmong s fun c _ => harmless_hoistedIn s c

theorem harmless_functionNames : Harmless (s.functionNames n) := by
  rw [Script.Holds.functionNames_eq]
  refine harmless_bind ?_ fun _ => harmless_bind (harmless_boundNames? s _) fun _ =>
    harmless_bind (harmless_ite (harmless_ownName s n) (harmless_ok _)) fun _ =>
      harmless_bind ?_ fun _ => harmless_ok _
  · split
    · exact harmless_mapM fun c _ => harmless_boundNames s c
    · exact harmless_ok _
  · split
    · exact harmless_ite (harmless_hoistedNames s _) (harmless_ok _)
    · exact harmless_ok _

theorem harmless_scopeNames : Harmless (s.scopeNames n) := by
  unfold Script.scopeNames
  refine harmless_ite (harmless_functionNames s n) ?_
  split
  · exact harmless_ownName s n
  · exact harmless_blockNames s _
  · exact harmless_blockNames s _
  · exact harmless_bind (harmless_mapM fun c _ => harmless_blockNames s _) fun _ => harmless_ok _
  · split
    · exact harmless_blockNames s _
    · exact harmless_ok _
  · exact harmless_ite (harmless_boundNames? s _) (harmless_ok _)
  · exact harmless_boundNames? s _
  · exact harmless_ok _

end RegistryScript
