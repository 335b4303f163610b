import Mathlib
import RegistryScript.Proofs.Commutation.Region
import RegistryScript.Proofs.Conflict.Conversion
import RegistryScript.Proofs.Faults.Supplies
import RegistryScript.Proofs.Registration.Imports
import RegistryScript.Proofs.Scoping.Room

/-! # Faults of the passes

On a tree with all its nodes a pass can only fail because two edits get in each other's way, or
because `export * as` has a name that is no node of its own.

* `FailsOnly`: an action fails, if it does, by a conflict or by one of some faults.
* `failsOnly_bind`, `failsOnly_edit`, `failsOnly_forM`: how this is made up of the parts of an action.
* `failsOnly_collectImports`, `failsOnly_registerExports`, `failsOnly_redirectImports`: the faults of
  the passes over imports, exports and dynamic imports.
-/

namespace RegistryScript
set_option autoImplicit false

variable {α β : Type} {base : Text} {s : Script} {names : Settings} {faults : Fault → Prop}

/-! ## Actions with few faults -/

/-- An action on a draft of a text fails, if it does, by a conflict or by one of some faults. -/
def FailsOnly (base : Text) (faults : Fault → Prop) (x : Pass α) : Prop :=
  ∀ d, d.Edits base → (∀ a d', Succeeds x d a d' → d'.Edits base) ∧
    ∀ f d', outcome x d = (.error f, d') → f.isConflict = true ∨ faults f

theorem failsOnly_pure (a : α) : FailsOnly base faults (pure a : Pass α) := fun _ hd =>
  ⟨fun _ _ h => (succeeds_pure.1 h).2 ▸ hd, fun _ _ h => nomatch (Prod.mk.inj h).1⟩

theorem failsOnly_bind {x : Pass α} {f : α → Pass β} (hx : FailsOnly base faults x)
    (hf : ∀ a, FailsOnly base faults (f a)) : FailsOnly base faults (x >>= f) := by
  intro d hd
  obtain ⟨hedits, herror⟩ := hx d hd
  constructor
  · intro b d' h
    obtain ⟨a, d₁, h₁, h₂⟩ := succeeds_bind.1 h
    exact (hf a d₁ (hedits a d₁ h₁)).1 b d' h₂
  · intro e d' h
    rcases hrun : outcome x d with ⟨e' | a, d₁⟩
    · rw [outcome_bind_of_error hrun] at h
      rw [← Except.error.inj (Prod.mk.inj h).1]
      exact herror e' d₁ hrun
    · rw [outcome_bind_of_ok hrun] at h
      exact (hf a d₁ (hedits a d₁ hrun)).2 e d' h

theorem failsOnly_lift_bind {a : α} {r : Except Fault α} {f : α → Pass β} (hr : r = .ok a)
    (hf : FailsOnly base faults (f a)) : FailsOnly base faults (liftM r >>= f) := by
  rw [hr]
  exact hf

theorem failsOnly_error_bind {r : Except Fault α} {f : α → Pass β} {fault : Fault}
    (hr : r = .error fault) (hfault : faults fault) : FailsOnly base faults (liftM r >>= f) := by
  rw [hr]
  refine fun _ _ => ⟨fun _ _ h => ?_, fun e d' h => .inr ?_⟩
  · exact nomatch (Prod.mk.inj h).1
  · rw [← Except.error.inj (Prod.mk.inj h).1]
    exact hfault

theorem failsOnly_get_bind {k : Draft → Pass β} (hk : ∀ d, FailsOnly base faults (k d)) :
    FailsOnly base faults (get >>= k) := fun d hd => hk d d hd

theorem failsOnly_modify {g : Draft → Draft} (ho : ∀ d, (g d).overlay = d.overlay) :
    FailsOnly base faults (modify g : Pass PUnit) := fun d hd =>
  ⟨fun _ _ h => by
    rw [succeeds_modify.1 h]
    exact ⟨ho d ▸ hd.consistent, ho d ▸ hd.base_eq⟩, fun _ _ h => nomatch (Prod.mk.inj h).1⟩

theorem failsOnly_edit {e : Edit} (hfits : e.FitsIn base.length) :
    FailsOnly base faults (Pass.edit e.run) := by
  intro d hd
  refine ⟨fun a d' h => ((confined_edit e : Confined base {} _) d a d' hd h).1, fun f d' h => ?_⟩
  rw [outcome_edit] at h
  rcases hrun : outcome e.run d.overlay with ⟨err | _, o⟩
  · rw [hrun] at h
    rw [← Except.error.inj (Prod.mk.inj h).1]
    exact .inl (hd.consistent.isOverlap_of_refused (hd.base_eq ▸ hfits) hrun)
  · rw [hrun] at h
    exact nomatch (Prod.mk.inj h).1

theorem failsOnly_forM {f : α → Pass PUnit} {l : List α}
    (hf : ∀ a ∈ l, FailsOnly base faults (f a)) : FailsOnly base faults (l.forM f) := by
  induction l with
  | nil => exact failsOnly_pure _
  | cons a l ih =>
    exact failsOnly_bind (hf a List.mem_cons_self) fun _ =>
      ih fun b hb => hf b (List.mem_cons_of_mem a hb)

theorem failsOnly_recordFor (specifier : Text) :
    FailsOnly base faults (Pass.recordFor names specifier) := fun d hd =>
  ⟨fun _ _ h => by
    obtain ⟨-, rfl⟩ := Prod.mk.inj (Eq.symm h)
    exact ⟨hd.consistent, hd.base_eq⟩, fun _ _ h => nomatch (Prod.mk.inj h).1⟩

theorem failsOnly_queue (exported expression : Text) :
    FailsOnly base faults (Pass.queue exported expression) := failsOnly_modify fun _ => rfl

theorem failsOnly_bindName (localName specifier : Text) (imported : Option Text) :
    FailsOnly base faults (Pass.bind names localName specifier imported) :=
  failsOnly_modify fun _ => rfl

section Passes

open Script

variable {n : Node}

theorem failsOnly_deleteNode (h : s.Supplies n) : FailsOnly s.text faults (Pass.deleteNode s n) := by
  refine failsOnly_lift_bind h.startOf (failsOnly_lift_bind h.stopOf ?_)
  have hspan := h.spanned
  exact failsOnly_edit (e := .delete _ _)
    ⟨Int.natCast_nonneg _, Int.ofNat_le.2 hspan.start_le, Int.ofNat_le.2 hspan.stop_le⟩

theorem failsOnly_replaceNode (h : s.Supplies n) (hlt : s.startAt n < s.stopAt n) (text : Text) :
    FailsOnly s.text faults (Pass.replaceNode s n text) := by
  refine failsOnly_lift_bind h.startOf (failsOnly_lift_bind h.stopOf ?_)
  exact failsOnly_edit (e := .replace _ _ text)
    ⟨Int.natCast_nonneg _, Int.ofNat_lt.2 hlt, Int.ofNat_le.2 h.spanned.stop_le⟩

/-! ## Imports -/

theorem failsOnly_bindSpecifier (h : s.Supplies n) (hk : n.kind = .importSpecifier)
    (specifier : Text) : FailsOnly s.text faults (bindSpecifier s names specifier n) := by
  obtain ⟨name, hname, hsupplies⟩ := h.name (.inl hk)
  obtain ⟨imported, himported⟩ := hsupplies.exportName
  unfold bindSpecifier
  rw [hname]
  refine failsOnly_lift_bind rfl (failsOnly_lift_bind himported ?_)
  cases hgiven : n.child? .givenName with
  | none => exact failsOnly_bindName _ _ _
  | some given =>
    exact failsOnly_lift_bind (h.child (Node.mem_of_child? hgiven)).textOf (failsOnly_bindName _ _ _)

theorem failsOnly_bindPart (h : s.Supplies n) (specifier : Text) :
    FailsOnly s.text faults (bindPart s names specifier n) := by
  unfold bindPart
  cases n.kind with
  | identifier => exact failsOnly_lift_bind h.textOf (failsOnly_bindName _ _ _)
  | namespaceImport =>
    exact failsOnly_forM fun c hc => failsOnly_lift_bind
      (h.namedChild (List.mem_filter.1 hc).1).textOf (failsOnly_bindName _ _ _)
  | namedImports =>
    refine failsOnly_forM fun c hc => ?_
    obtain ⟨hmem, hk⟩ := List.mem_filter.1 hc
    exact failsOnly_bindSpecifier (h.namedChild hmem) (of_decide_eq_true hk) specifier
  | _ => exact failsOnly_pure _

theorem failsOnly_collectImport (h : s.Supplies n) (hk : n.kind = .importStatement) :
    FailsOnly s.text faults (collectImport s names n) := by
  have hequipped := h.isEquipped_eq
  simp only [isEquipped, hk, Option.any_eq_true] at hequipped
  obtain ⟨source, hsource, hstring⟩ := hequipped
  obtain ⟨specifier, hspecifier⟩ := (h.source hsource).stringValue (of_decide_eq_true hstring)
  unfold collectImport
  rw [hsource]
  refine failsOnly_lift_bind hspecifier (failsOnly_bind (failsOnly_recordFor specifier) fun _ => ?_)
  refine failsOnly_bind (failsOnly_forM fun clause hclause => failsOnly_forM fun part hpart => ?_)
    fun _ => failsOnly_deleteNode h
  exact failsOnly_bindPart ((h.namedChild (List.mem_filter.1 hclause).1).namedChild hpart) specifier

theorem failsOnly_collectImports (h : s.Supplies s.root) :
    FailsOnly s.text faults (collectImports s names) := by
  refine failsOnly_forM fun n hn => ?_
  obtain ⟨hmem, hk⟩ := List.mem_filter.1 hn
  exact failsOnly_collectImport (h.child (mem_root_of_mem_statements hmem)) (of_decide_eq_true hk)

/-! ## Exports -/

theorem failsOnly_registerSpecifier (h : s.Supplies n) (hk : n.kind = .exportSpecifier)
    (recordId : Option Text) : FailsOnly s.text faults (registerSpecifier s recordId n) := by
  have hqueue : ∀ name exported : Text,
      FailsOnly s.text faults (queueSpecified recordId name exported) := by
    intro name exported
    cases recordId with
    | some id => exact failsOnly_queue _ _
    | none => exact failsOnly_get_bind fun d => failsOnly_queue _ _
  obtain ⟨name, hname, hsupplies⟩ := h.name (.inr hk)
  obtain ⟨text, htext⟩ := hsupplies.exportName
  unfold registerSpecifier
  rw [hname]
  refine failsOnly_lift_bind rfl (failsOnly_lift_bind htext ?_)
  cases hgiven : n.child? .givenName with
  | none => exact failsOnly_bind (failsOnly_pure _) fun exported => hqueue text exported
  | some given =>
    obtain ⟨exported, hexported⟩ := (h.child (Node.mem_of_child? hgiven)).exportName
    exact failsOnly_lift_bind hexported (hqueue text exported)

theorem failsOnly_registerClause (h : s.Supplies n) (recordId : Option Text) :
    FailsOnly s.text faults (registerClause s recordId n) := by
  refine failsOnly_forM fun c hc => ?_
  obtain ⟨hmem, hk⟩ := List.mem_filter.1 hc
  exact failsOnly_registerSpecifier (h.namedChild hmem) (of_decide_eq_true hk) recordId

theorem failsOnly_registerForwarded (h : s.Supplies n) {source : Node}
    (hsource : s.Supplies source) (hk : source.kind = .string)
    (hfaults : n.all Node.namesNamespace = false → faults .outside) :
    FailsOnly s.text faults (registerForwarded s names n source) := by
  obtain ⟨specifier, hspecifier⟩ := hsource.stringValue hk
  refine failsOnly_lift_bind hspecifier (failsOnly_bind (failsOnly_recordFor specifier)
    fun recordId => ?_)
  rcases namespaceName?_cases n with ⟨name?, hname, hinside⟩ | ⟨herror, hunnamed⟩
  · refine failsOnly_lift_bind hname ?_
    split
    · next clause _ hclause =>
      exact failsOnly_registerClause (h.namedChild (List.mem_of_find?_eq_some hclause)) _
    · next name _ =>
      have hsupplies : s.Supplies name := by
        rcases hinside name rfl with hmem | ⟨clause, hclause, hmem⟩
        · exact h.namedChild hmem
        · exact (h.namedChild hclause).namedChild hmem
      obtain ⟨exported, hexported⟩ := hsupplies.exportName
      exact failsOnly_lift_bind hexported (failsOnly_queue _ _)
    · exact failsOnly_modify fun _ => rfl
  · exact failsOnly_error_bind herror (hfaults hunnamed)

theorem failsOnly_registerNamed (h : s.Supplies n) (hk : n.kind = .exportStatement)
    (hfaults : n.all Node.namesNamespace = false → faults .outside) :
    FailsOnly s.text faults (registerNamed s names n) := by
  unfold registerNamed
  cases hsource : n.source? with
  | some source =>
    have hequipped := h.isEquipped_eq
    simp only [isEquipped, hk, hsource, Option.all_some, decide_eq_true_eq] at hequipped
    exact failsOnly_bind (failsOnly_registerForwarded h (h.source hsource) hequipped hfaults)
      fun _ => failsOnly_deleteNode h
  | none =>
    cases hclause : n.namedChildOfKind? .exportClause with
    | none => exact failsOnly_bind (failsOnly_pure _) fun _ => failsOnly_deleteNode h
    | some clause =>
      exact failsOnly_bind (failsOnly_registerClause
        (h.namedChild (List.mem_of_find?_eq_some hclause)) none) fun _ => failsOnly_deleteNode h

section Part

variable {keyword part : Node} (hkeyword : s.Supplies keyword) (hpart : s.Supplies part)
  (hbehind : keyword.stop ≤ part.start)
include hkeyword hpart hbehind

theorem failsOnly_deleteFront :
    FailsOnly s.text faults (Pass.edit (Overlay.delete (s.startAt keyword) (s.startAt part))) := by
  have hle := hkeyword.holds.laidOut.charAt_le (Node.isSpanned_iff.1 hkeyword.isSpanned).1
    (Node.isSpanned_iff.1 hpart.isSpanned).1
    ((Node.isSpanned_iff.1 hkeyword.isSpanned).2.2.1.trans hbehind)
  have hstop := hpart.spanned.start_le.trans hpart.spanned.stop_le
  exact failsOnly_edit (e := .delete _ _)
    ⟨Int.natCast_nonneg _, Int.ofNat_le.2 hle, Int.ofNat_le.2 hstop⟩

theorem failsOnly_registerDefault (htarget : n.defaultTarget? = some part)
    (hlt : keyword.start < keyword.stop) :
    FailsOnly s.text faults (registerDefault s names n (s.startAt keyword)) := by
  have hdemand : Pass.demand ((n.child? .declaration).or (n.child? .value)) = .ok part := by
    rw [← Node.defaultTarget?, htarget]
    rfl
  refine failsOnly_lift_bind hdemand ?_
  split
  · next name hname =>
    have hmem : name ∈ part.children := by
      split at hname
      · exact Node.mem_of_child? hname
      · cases hname
    refine failsOnly_lift_bind hpart.startOf ?_
    refine failsOnly_bind (failsOnly_deleteFront hkeyword hpart hbehind) fun _ => ?_
    exact failsOnly_lift_bind (hpart.child hmem).textOf (failsOnly_queue _ _)
  · have hstart := hkeyword.holds.laidOut.charAt_lt (Node.isSpanned_iff.1 hkeyword.isSpanned).1
      (Node.isSpanned_iff.1 hpart.isSpanned).1 (hlt.trans_le hbehind)
    have hstop := hpart.spanned.start_le.trans hpart.spanned.stop_le
    refine failsOnly_lift_bind hpart.startOf (failsOnly_bind (failsOnly_edit (e := .replace _ _ _)
      ⟨Int.natCast_nonneg _, Int.ofNat_lt.2 hstart, Int.ofNat_le.2 hstop⟩) fun _ => ?_)
    exact failsOnly_modify fun _ => rfl

theorem failsOnly_registerDeclaration :
    FailsOnly s.text faults (registerDeclaration s part (s.startAt keyword)) := by
  obtain ⟨texts, htexts⟩ := hpart.declaredNames
  refine failsOnly_lift_bind htexts (failsOnly_bind (failsOnly_forM fun name _ =>
    failsOnly_queue name name) fun _ => ?_)
  exact failsOnly_lift_bind hpart.startOf (failsOnly_deleteFront hkeyword hpart hbehind)

end Part

theorem failsOnly_registerExport (h : s.Supplies n) (hk : n.kind = .exportStatement)
    (hshape : n.isExportShaped = true)
    (hfaults : n.all Node.namesNamespace = false → faults .outside) :
    FailsOnly s.text faults (registerExport s names n) := by
  obtain ⟨keyword, hkeyword, hpart⟩ := exists_exportKeyword hshape
  have hsupplies : s.Supplies keyword := h.child (List.mem_of_find?_eq_some hkeyword)
  have hkind : keyword.kind = .exportKeyword := by simpa using List.find?_some hkeyword
  have hlt : keyword.start < keyword.stop := by
    have := hsupplies.isEquipped_eq
    rwa [isEquipped, hkind, decide_eq_true_eq] at this
  unfold registerExport
  rw [hkeyword]
  refine failsOnly_lift_bind hsupplies.startOf ?_
  rcases hpart with ⟨part, htarget, hbehind⟩ | ⟨htarget, hdefault⟩
  · have hmem : part ∈ n.children := by
      rw [Node.defaultTarget?, Option.or_eq_some_iff] at htarget
      exact htarget.elim Node.mem_of_child? fun hv => Node.mem_of_child? hv.2
    split
    · exact failsOnly_registerDefault hsupplies (h.child hmem) hbehind htarget hlt
    · split
      · next declaration hd =>
        rw [Node.defaultTarget?, hd, Option.some_or] at htarget
        rw [Option.some.inj htarget]
        exact failsOnly_registerDeclaration hsupplies (h.child hmem) hbehind
      · exact failsOnly_registerNamed h hk hfaults
  · have hd : n.child? .declaration = none := (Option.or_eq_none_iff.1 htarget).1
    rw [hdefault, hd]
    exact failsOnly_registerNamed h hk hfaults

theorem failsOnly_registerExports (h : s.Supplies s.root) (hexports : s.exportsAreShaped = true)
    (hfaults : s.root.all Node.namesNamespace = false → faults .outside) :
    FailsOnly s.text faults (registerExports s names) := by
  refine failsOnly_forM fun n hn => ?_
  obtain ⟨hmem, hk⟩ := List.mem_filter.1 hn
  rw [decide_eq_true_eq] at hk
  have hchild := mem_root_of_mem_statements hmem
  refine failsOnly_registerExport (h.child hchild) hk (isExportShaped_of_mem hexports hmem hk) ?_
  refine fun hn => hfaults (Bool.eq_false_iff.2 fun hall => ?_)
  exact Bool.eq_false_iff.1 hn ((Node.all_iff.1 hall).2 n hchild)

/-! ## Dynamic imports -/

theorem failsOnly_redirectImport (h : s.Supplies n) (hk : n.isDynamicImport = true) :
    FailsOnly s.text faults (redirectImport s names n) := by
  have hskip : FailsOnly s.text faults (do let _ ← s.textOf n : Pass Unit) :=
    failsOnly_lift_bind h.textOf (failsOnly_pure _)
  unfold redirectImport
  split
  · next callee argument hcallee harguments =>
    split
    · next hstring =>
      have hargument : s.Supplies argument := by
        have hmem : argument ∈ n.callArguments := by
          rw [harguments]
          exact List.mem_singleton_self argument
        unfold Node.callArguments at hmem
        split at hmem
        · next list hlist =>
          exact (h.child (Node.mem_of_child? hlist)).namedChild (List.mem_filter.1 hmem).1
        · exact absurd hmem List.not_mem_nil
      have hword : callee.isWord = true := by
        rw [Node.isDynamicImport, hcallee, Bool.and_eq_true] at hk
        have hkind : callee.kind = .importCallee := of_decide_eq_true hk.2
        rw [Node.isWord, hkind]
      have hsupplies := h.child (Node.mem_of_child? hcallee)
      have hlt := (h.holds.laidOut.word hsupplies.isSpanned (Node.all_iff.1 hsupplies.sound).1
        hword).2
      have hlt' := h.holds.laidOut.charAt_lt (Node.isSpanned_iff.1 hargument.isSpanned).1
        (Node.isSpanned_iff.1 hargument.isSpanned).2.1 (hargument.string hstring).1
      obtain ⟨specifier, hspecifier⟩ := hargument.stringValue hstring
      refine failsOnly_lift_bind hspecifier ?_
      split
      · refine failsOnly_bind (failsOnly_replaceNode hsupplies hlt _) fun _ => ?_
        refine failsOnly_bind (failsOnly_replaceNode hargument hlt' _) fun _ => ?_
        exact failsOnly_modify fun _ => rfl
      · exact failsOnly_pure _
    · exact hskip
  · exact hskip

theorem failsOnly_redirectImports (h : s.Supplies s.root) :
    FailsOnly s.text faults (redirectImports s names) := by
  refine failsOnly_bind (failsOnly_forM fun c hc => failsOnly_forM fun call hcall => ?_) fun _ =>
    failsOnly_get_bind fun d => failsOnly_pure _
  have hsupplies := h.child (mem_root_of_mem_statements (List.mem_filter.1 hc).1)
  obtain ⟨hmem, hdynamic⟩ := List.mem_filter.1 hcall
  exact failsOnly_redirectImport (hsupplies.descendant hmem) hdynamic

end Passes

end RegistryScript
