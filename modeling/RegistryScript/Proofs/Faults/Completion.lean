import Mathlib
import RegistryScript.Proofs.Commutation.Passes
import RegistryScript.Proofs.Envelope.Seams
import RegistryScript.Proofs.Faults.Passes

/-! # Every accepted module is converted

A module that the grammar accepts has a registry script, whatever imports and exports it has, but for
one form: `export * as` with a name that is a mere token. For this form the passes stop with a fault.

* `Script.IsAccepted`: what a tree has that the grammar gives for a text without errors.
* `unnamed_of_convertBody`, `convert_cases`: the faults of the passes over the body, and of all passes.
* `transform_completes`: every module that is accepted has a registry script, but for that form.
-/

namespace RegistryScript
set_option autoImplicit false

/-! ## Accepted scripts -/

namespace Script

/-- A script that the grammar accepts: its tree is laid out over its text, has the shape of a module
and all the nodes that belong to it, and there is no error in it. -/
structure IsAccepted (s : Script) : Prop where
  laidOut : s.IsLaidOut
  module : s.IsModule
  exports : s.exportsAreShaped = true
  equipped : s.root.all s.isEquipped = true
  intact : s.root.hasError = false

def isAccepted (s : Script) : Bool :=
  s.root.all (Node.isSpanned s.text) && s.root.all Node.isSound && s.root.kind = .program &&
    s.root.all Node.isShaped && s.exportsAreShaped && s.root.all s.isEquipped && !s.root.hasError

variable {s : Script}

theorem isAccepted_ofTree {text : Text} {root : Node}
    (h : (ofTree text root).isAccepted = true) : (ofTree text root).IsAccepted := by
  simp only [isAccepted, Bool.and_eq_true, decide_eq_true_eq, Bool.not_eq_true'] at h
  obtain ⟨⟨⟨⟨⟨⟨hspans, hsound⟩, hprogram⟩, hshaped⟩, hexports⟩, hequipped⟩, hintact⟩ := h
  exact ⟨⟨rfl, hspans, hsound⟩, ⟨hprogram, hshaped⟩, hexports, hequipped, hintact⟩

theorem IsAccepted.supplies (h : s.IsAccepted) : s.Supplies s.root :=
  ⟨⟨h.laidOut, h.laidOut.spans, h.module.shaped⟩, h.laidOut.sound, h.equipped⟩

end Script

/-! ## Passes -/

variable {s : Script} {names : Settings}

/-- The fault of a script in which `export * as` has a name that is no node. -/
def Script.Unnamed (s : Script) (f : Fault) : Prop :=
  f = .outside ∧ s.root.all Node.namesNamespace = false

theorem failsOnly_front (h : s.IsAccepted) : FailsOnly s.text s.Unnamed
    (do collectImports s names; registerExports s names) :=
  failsOnly_bind (failsOnly_collectImports h.supplies) fun _ =>
    failsOnly_registerExports h.supplies h.exports fun hunnamed => ⟨rfl, hunnamed⟩

theorem failsOnly_back (h : s.IsAccepted) (k : Nat) : FailsOnly s.text s.Unnamed
    (redirectImports s names >>= fun _ => pure k) :=
  failsOnly_bind (failsOnly_redirectImports h.supplies) fun _ => failsOnly_pure k

theorem unnamed_of_convertBody (h : s.IsAccepted) {f : Fault} {d : Draft}
    (hrun : outcome (convertBody s names) (Draft.ofText s.text) = (.error f, d)) :
    s.Unnamed f := by
  have hpeace := isConflict_of_convertBody h.laidOut h.exports hrun
  have hfails : f.isConflict = true ∨ s.Unnamed f := by
    obtain ⟨hedits, hfront⟩ := @failsOnly_front s names h _ (Draft.edits_ofText s.text)
    rw [convertBody_eq] at hrun
    rcases hrun₁ : outcome (do collectImports s names; registerExports s names)
      (Draft.ofText s.text) with ⟨f' | u, d₁⟩
    · rw [outcome_bind_of_error hrun₁] at hrun
      rw [← Except.error.inj (Prod.mk.inj hrun).1]
      exact hfront f' d₁ hrun₁
    · obtain ⟨k, d₂, hrun₂⟩ := completes_rebindReferences h.laidOut h.module h.exports hrun₁
      have hd₂ := (confined_rebindReferences d₁ k d₂ (hedits u d₁ hrun₁) hrun₂).1
      rw [outcome_bind_of_ok hrun₁, outcome_bind_of_ok hrun₂] at hrun
      exact (failsOnly_back h k d₂ hd₂).2 f d hrun
  exact hfails.resolve_left (Bool.eq_false_iff.1 hpeace)

theorem convert_cases (h : s.IsAccepted) (id : Text) (css : Value) :
    (∃ r, convert names id css s = .ok r) ∨
      s.root.all Node.namesNamespace = false ∧
        convert names id css s = .error (.fault .outside) := by
  rw [convert]
  rcases hrun : (convertBody s names).run (Draft.ofText s.text) with ⟨f | k, d⟩
  · obtain ⟨rfl, hunnamed⟩ := unnamed_of_convertBody h hrun
    exact .inr ⟨hunnamed, rfl⟩
  · obtain ⟨d', henvelope, -⟩ := serialize_emitEnvelope names id css d
    have henvelope : (emitEnvelope names id css).run d = (.ok (), d') := henvelope
    simp only [henvelope]
    exact .inl ⟨(k, d'), rfl⟩

/-! ## Modules -/

/-- For every reader, every text that it finds a tree for, every id that is not empty, every
stylesheet and all settings: if the tree is accepted, the module has a registry script, or the tree
has an `export * as` whose name is no node, and then the fault of this is the only one. -/
theorem transform_completes {read : Reader} {text id : Text} {root : Node} (names : Settings)
    (css : Value) (hid : id ≠ []) (hread : read text = some root)
    (h : (Script.ofTree text root).IsAccepted) :
    (∃ m, transform read names (.text text) (.text id) css = .ok m) ∨
      root.all Node.namesNamespace = false ∧
        transform read names (.text text) (.text id) css = .error (.fault .outside) := by
  rw [transform_text hid, readScript_eq_ok hread h.intact]
  change (∃ m, (convert names id css (Script.ofTree text root) >>= _) = Except.ok m) ∨
    _ ∧ (convert names id css (Script.ofTree text root) >>= _) = _
  rcases @convert_cases _ names h id css with ⟨r, hr⟩ | ⟨hunnamed, herror⟩
  · rw [hr]
    exact .inl ⟨_, rfl⟩
  · rw [herror]
    exact .inr ⟨hunnamed, rfl⟩

def formsModule : String :=
  "import b, * as c from './b';\nimport \x7b default as d, 'e' as e \x7d from './\\u0063';\n" ++
    "export \x7b default, default as f \x7d from './d';\nexport * as 'g' from './g';\n" ++
    "export \x7b b as default \x7d;\nexport const [h] = c;\nimport('./h');\n"

theorem transform_completes_formsModule :
    ∃ root m, Reader.ofGrammar formsModule = some root ∧
      (Script.ofTree formsModule root).IsAccepted ∧ root.all Node.namesNamespace = true ∧
      transform Reader.ofGrammar {} (.text formsModule) (.text "m") .null = .ok m := by
  have h : ((Reader.ofGrammar formsModule).map fun root =>
      (Script.ofTree formsModule root).isAccepted && root.all Node.namesNamespace) = some true := by
    decide +kernel
  obtain ⟨root, hread, hchecks⟩ := Option.map_eq_some_iff.1 h
  obtain ⟨haccepted, hnamed⟩ := Bool.and_eq_true_iff.1 hchecks
  have hs := Script.isAccepted_ofTree haccepted
  rcases transform_completes {} .null (List.cons_ne_nil _ _) hread hs with ⟨m, hm⟩ | ⟨hunnamed, -⟩
  · exact ⟨root, m, hread, hs, hnamed, hm⟩
  · exact nomatch hnamed.symm.trans hunnamed

def defaultNamespaceModule : String := "export * as default from './x';\n"

/-- The word `default` behind `export * as` is a mere token, and the passes stop at it with a fault,
though the grammar accepts it. -/
theorem transform_defaultNamespace :
    ∃ root, Reader.ofGrammar defaultNamespaceModule = some root ∧
      (Script.ofTree defaultNamespaceModule root).IsAccepted ∧
      root.all Node.namesNamespace = false ∧
      transform Reader.ofGrammar {} (.text defaultNamespaceModule) (.text "m") .null =
        .error (.fault .outside) := by
  have h : ((Reader.ofGrammar defaultNamespaceModule).map fun root =>
      (Script.ofTree defaultNamespaceModule root).isAccepted &&
        !root.all Node.namesNamespace) = some true := by
    decide +kernel
  have hfault : (match transform Reader.ofGrammar {} (.text defaultNamespaceModule) (.text "m")
      .null with
    | .error (.fault .outside) => true
    | _ => false) = true := by
    decide +kernel
  obtain ⟨root, hread, hchecks⟩ := Option.map_eq_some_iff.1 h
  obtain ⟨haccepted, hunnamed⟩ := Bool.and_eq_true_iff.1 hchecks
  have hnamed : root.all Node.namesNamespace = false := by simpa using hunnamed
  refine ⟨root, hread, Script.isAccepted_ofTree haccepted, hnamed, ?_⟩
  cases hr : transform Reader.ofGrammar {} (.text defaultNamespaceModule) (.text "m") .null with
  | ok m =>
    rw [hr] at hfault
    exact nomatch hfault
  | error e =>
    rw [hr] at hfault
    split at hfault
    · next he => exact he
    · exact nomatch hfault

end RegistryScript
