import Mathlib
import RegistryScript.Proofs.Overlay.Order
import RegistryScript.Proofs.Pass.Composition

/-! # Actions on a part of a draft

A pass reads and writes some parts of a draft and makes edits of its text. It does the same on every
other draft of the same text that has the same in these parts, whatever the rest of it is, unless an
edit gets into the way of one that was made there before.

* `Region`, `Region.merge`: some parts of a draft, and a draft that has these parts of one draft and
  the rest of another.
* `Draft.Edits`: a draft holds edits of a given text.
* `Confined`: an action that reads and writes nothing but a region and the text.
* `confined_bind`, `composes_confined`: how this is made up of the parts of an action.
* `Confined.frame`: what is outside the region stays as it is.
-/

namespace RegistryScript
set_option autoImplicit false

/-! ## Regions -/

/-- Some parts of a draft: those that are set. -/
structure Region where
  records : Bool := false
  bindings : Bool := false
  exports : Bool := false
  constants : Bool := false
  calls : Bool := false

/-- A draft that has the parts in a region from one draft, and the text and the other parts from
another. -/
def Region.merge (r : Region) (d f : Draft) : Draft where
  overlay := f.overlay
  imports :=
    { records := cond r.records d.imports.records f.imports.records
      bindings := cond r.bindings d.imports.bindings f.imports.bindings }
  exports := cond r.exports d.exports f.exports
  exportNames := cond r.exports d.exportNames f.exportNames
  helperConstants := cond r.constants d.helperConstants f.helperConstants
  dynamicImports := cond r.calls d.dynamicImports f.dynamicImports

namespace Region

theorem merge_self (r : Region) (d : Draft) : r.merge d d = d := by
  obtain ⟨overlay, ⟨records, bindings⟩, exports, exportNames, constants, calls⟩ := d
  simp only [merge, Bool.cond_self]

end Region

structure Draft.Edits (base : Text) (d : Draft) : Prop where
  consistent : d.overlay.Consistent
  base_eq : d.overlay.base = base

theorem Draft.edits_ofText (base : Text) : (Draft.ofText base).Edits base :=
  ⟨Overlay.consistent_ofText base, rfl⟩

/-! ## Confined actions -/

variable {α β : Type} {base : Text} {r : Region} {s : Script}

/-- An action reads and writes nothing but a region of the draft and the text: when it succeeds on
a draft, then on every other draft of the same text that has the same in the region it succeeds in
the same way, or it meets a conflict there. -/
def Confined (base : Text) (r : Region) (x : Pass α) : Prop :=
  ∀ d a d', d.Edits base → Succeeds x d a d' → d'.Edits base ∧ ∀ f, f.Edits base →
    (∃ o, Succeeds x (r.merge d f) a (r.merge d' { f with overlay := o })) ∨
      ∃ e f', outcome x (r.merge d f) = (.error e, f') ∧ e.isConflict = true

theorem Confined.frame {x : Pass α} (hx : Confined base r x) {d d' : Draft} {a : α}
    (hd : d.Edits base) (h : Succeeds x d a d') :
    d' = r.merge d' { d with overlay := d'.overlay } := by
  have hself := (hx d a d' hd h).2 d hd
  rw [r.merge_self] at hself
  rcases hself with ⟨o, ho⟩ | ⟨e, f', herror, -⟩
  · obtain ⟨-, heq⟩ := h.unique ho
    have hoverlay : d'.overlay = o := congrArg Draft.overlay heq
    rw [hoverlay]
    exact heq
  · exact nomatch (Prod.mk.inj (h.symm.trans herror)).1

/-! ## Rules -/

theorem confined_pure (a : α) : Confined base r (pure a : Pass α) := by
  intro d b d' hd h
  obtain ⟨rfl, rfl⟩ := succeeds_pure.1 h
  exact ⟨hd, fun f _ => .inl ⟨f.overlay, succeeds_pure.2 ⟨rfl, rfl⟩⟩⟩

theorem confined_throw (e : Fault) : Confined base r (throw e : Pass α) :=
  fun _ _ _ _ h => absurd h not_succeeds_throw

theorem confined_lift (x : Except Fault α) : Confined base r (liftM x : Pass α) := by
  intro d a d' hd h
  obtain ⟨hok, rfl⟩ := succeeds_lift.1 h
  exact ⟨hd, fun f _ => .inl ⟨f.overlay, succeeds_lift.2 ⟨hok, rfl⟩⟩⟩

theorem confined_modify {g : Draft → Draft} (hg : ∀ d f, g (r.merge d f) = r.merge (g d) f)
    (ho : ∀ d, (g d).overlay = d.overlay) : Confined base r (modify g : Pass PUnit) := by
  intro d a d' hd h
  obtain rfl := succeeds_modify.1 h
  refine ⟨⟨ho d ▸ hd.consistent, ho d ▸ hd.base_eq⟩, fun f _ => .inl ⟨f.overlay, ?_⟩⟩
  exact succeeds_modify.2 (hg d f).symm

theorem confined_edit (e : Edit) : Confined base r (Pass.edit e.run) := by
  intro d u d' hd h
  obtain ⟨htakes, hframe⟩ := succeeds_edit e h
  obtain ⟨o, hmade, ho⟩ := Overlay.takes_cons.1 htakes
  obtain ⟨-, rfl⟩ := ho
  obtain ⟨hconsistent, hbase⟩ := hd.consistent.of_made hmade
  refine ⟨⟨hconsistent, hbase.trans hd.base_eq⟩, fun f hf => ?_⟩
  have hedit : outcome (Pass.edit e.run) (r.merge d f) =
      ((outcome e.run f.overlay).1.mapError .edit,
        { r.merge d f with overlay := (outcome e.run f.overlay).2 }) := rfl
  rcases hrun : outcome e.run f.overlay with ⟨err | _, o⟩
  · -- The offsets of the edit are in the text, so it can only be refused for an overlap.
    have hfits := Overlay.fitsIn_of_made hmade
    rw [hd.base_eq, ← hf.base_eq] at hfits
    rw [hrun] at hedit
    exact .inr ⟨.edit err, _, hedit, hf.consistent.isOverlap_of_refused hfits hrun⟩
  · rw [hrun] at hedit
    rw [hframe]
    exact .inl ⟨o, hedit⟩

theorem confined_bind {x : Pass α} {f : α → Pass β} (hx : Confined base r x)
    (hf : ∀ a, Confined base r (f a)) : Confined base r (x >>= f) := by
  intro d b d' hd h
  obtain ⟨a, d₁, h₁, h₂⟩ := succeeds_bind.1 h
  obtain ⟨hd₁, hfirst⟩ := hx d a d₁ hd h₁
  obtain ⟨hd', hsecond⟩ := hf a d₁ b d' hd₁ h₂
  refine ⟨hd', fun g hg => ?_⟩
  rcases hfirst g hg with ⟨o, ho⟩ | ⟨e, g', herror, he⟩
  · have hg' : Draft.Edits base { g with overlay := o } := by
      have hmerged := (hx (r.merge d g) a _ ⟨hg.consistent, hg.base_eq⟩ ho).1
      exact ⟨hmerged.consistent, hmerged.base_eq⟩
    rcases hsecond _ hg' with ⟨o', ho'⟩ | ⟨e, g', herror, he⟩
    · exact .inl ⟨o', succeeds_bind.2 ⟨a, _, ho, ho'⟩⟩
    · exact .inr ⟨e, g', by rw [outcome_bind_of_ok ho, herror], he⟩
  · exact .inr ⟨e, g', outcome_bind_of_error herror, he⟩

theorem confined_get_bind {k : Draft → Pass β} (hk : ∀ d f, k (r.merge d f) = k d)
    (h : ∀ d, Confined base r (k d)) : Confined base r (get >>= k) := by
  intro d b d' hd hsucceeds
  obtain ⟨_, _, hget, h₁⟩ := succeeds_bind.1 hsucceeds
  obtain ⟨rfl, rfl⟩ := succeeds_get.1 hget
  obtain ⟨hd', hrest⟩ := h _ _ b d' hd h₁
  refine ⟨hd', fun f hf => ?_⟩
  rw [outcome_bind_of_ok (outcome_get _), hk]
  rcases hrest f hf with ⟨o, ho⟩ | herror
  · refine .inl ⟨o, succeeds_bind.2 ⟨_, _, succeeds_get.2 ⟨rfl, rfl⟩, ?_⟩⟩
    rw [hk]
    exact ho
  · exact .inr herror

theorem composes_confined : Composes fun _ => Confined base r :=
  ⟨confined_pure, fun _ => confined_lift _, confined_bind⟩

theorem confined_foldlM {f : β → α → Pass β} (hf : ∀ b a, Confined base r (f b a)) (l : List α)
    (b : β) : Confined base r (l.foldlM f b) := by
  induction l generalizing b with
  | nil => exact confined_pure _
  | cons a l ih =>
    rw [List.foldlM_cons]
    exact confined_bind (hf b a) ih

theorem confined_deleteNode (n : Node) : Confined base r (Pass.deleteNode s n) :=
  confined_bind (confined_lift _) fun a => confined_bind (confined_lift _) fun b =>
    confined_edit (.delete a b)

theorem confined_replaceNode (n : Node) (text : Text) :
    Confined base r (Pass.replaceNode s n text) :=
  confined_bind (confined_lift _) fun a => confined_bind (confined_lift _) fun b =>
    confined_edit (.replace a b text)

end RegistryScript
