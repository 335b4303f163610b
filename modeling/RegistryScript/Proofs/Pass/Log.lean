import Mathlib
import RegistryScript.Pass.Basic
import RegistryScript.Proofs.Overlay.Stretch
import RegistryScript.Proofs.Script.Span

/-! # The edits that an action on a draft makes

* `succeeds_edit`: an edit of a draft's text that is not refused.
* `Draft.Becomes`: a draft becomes another by edits that are all accepted.
* `Draft.Becomes.trans`, `becomes_of_forM`: edits of actions one after another.
-/

namespace RegistryScript
set_option autoImplicit false

variable {d d' d'' : Draft} {s : Script} {es es' : List Edit}

/-! ## Edits of a draft -/

theorem outcome_edit (e : Edit) (d : Draft) :
    outcome (Pass.edit e.run) d =
      ((outcome e.run d.overlay).1.mapError .edit,
        { d with overlay := (outcome e.run d.overlay).2 }) := rfl

theorem completes_edit {e : Edit} {o' : Overlay} (h : outcome e.run d.overlay = (.ok (), o')) :
    Completes (Pass.edit e.run) d := by
  refine ⟨(), { d with overlay := o' }, ?_⟩
  rw [Succeeds, outcome_edit, h]
  rfl

theorem succeeds_edit (e : Edit) {u : Unit} (h : Succeeds (Pass.edit e.run) d u d') :
    d.overlay.Takes [e] d'.overlay ∧ d' = { d with overlay := d'.overlay } := by
  rw [Succeeds, outcome_edit] at h
  rcases he : outcome e.run d.overlay with ⟨r, o'⟩
  rw [he] at h
  cases r with
  | error f => simp [Except.mapError] at h
  | ok v =>
    obtain rfl : d' = { d with overlay := o' } := (Prod.mk.inj h).2.symm
    exact ⟨Overlay.takes_single he, rfl⟩

theorem succeeds_startOf {n : Node} {a : Nat}
    (h : Succeeds (liftM (s.startOf n) : Pass Nat) d a d') : a = s.startAt n ∧ d' = d := by
  obtain ⟨hok, rfl⟩ := succeeds_lift.1 h
  exact ⟨Script.startOf_eq hok, rfl⟩

theorem succeeds_stopOf {n : Node} {a : Nat}
    (h : Succeeds (liftM (s.stopOf n) : Pass Nat) d a d') : a = s.stopAt n ∧ d' = d := by
  obtain ⟨hok, rfl⟩ := succeeds_lift.1 h
  exact ⟨Script.stopOf_eq hok, rfl⟩

theorem succeeds_textOf {n : Node} {t : Text}
    (h : Succeeds (liftM (s.textOf n) : Pass Text) d t d') : t = s.textAt n ∧ d' = d := by
  obtain ⟨hok, rfl⟩ := succeeds_lift.1 h
  exact ⟨Script.textOf_eq hok, rfl⟩

theorem succeeds_atSpan {n : Node} {k : Nat → Nat → Pass Unit} {u : Unit}
    (h : Succeeds (do
      let start ← liftM (s.startOf n)
      let stop ← liftM (s.stopOf n)
      k start stop : Pass Unit) d u d') :
    s.HasSpan n ∧ Succeeds (k (s.startAt n) (s.stopAt n)) d u d' := by
  obtain ⟨a, d₁, ha, h₁⟩ := succeeds_bind.1 h
  obtain ⟨hstart, rfl⟩ := succeeds_lift.1 ha
  obtain ⟨b, d₂, hb, h₂⟩ := succeeds_bind.1 h₁
  obtain ⟨hstop, rfl⟩ := succeeds_lift.1 hb
  obtain rfl := Script.startOf_eq hstart
  obtain rfl := Script.stopOf_eq hstop
  exact ⟨⟨hstart, hstop⟩, h₂⟩

theorem succeeds_replaceNode {n : Node} {text : Text} {u : Unit}
    (h : Succeeds (Pass.replaceNode s n text) d u d') :
    d.overlay.Takes [.replace (s.startAt n) (s.stopAt n) text] d'.overlay ∧
      d' = { d with overlay := d'.overlay } :=
  succeeds_edit (.replace _ _ text) (succeeds_atSpan h).2

theorem hasSpan_of_replaceNode {n : Node} {text : Text} {u : Unit}
    (h : Succeeds (Pass.replaceNode s n text) d u d') : s.HasSpan n :=
  (succeeds_atSpan h).1

theorem succeeds_deleteNode {n : Node} {u : Unit} (h : Succeeds (Pass.deleteNode s n) d u d') :
    d.overlay.Takes [.delete (s.startAt n) (s.stopAt n)] d'.overlay ∧
      d' = { d with overlay := d'.overlay } :=
  succeeds_edit (.delete _ _) (succeeds_atSpan h).2

theorem hasSpan_of_deleteNode {n : Node} {u : Unit} (h : Succeeds (Pass.deleteNode s n) d u d') :
    s.HasSpan n :=
  (succeeds_atSpan h).1

/-! ## Edits of actions -/

/-- A draft becomes another by edits that are all accepted; no constant is declared for a name. -/
structure Draft.Becomes (d : Draft) (es : List Edit) (d' : Draft) : Prop where
  takes : d.overlay.Takes es d'.overlay
  constants : d'.helperConstants = d.helperConstants

namespace Draft.Becomes

theorem refl : d.Becomes [] d := ⟨Overlay.takes_nil, rfl⟩

theorem trans (h : d.Becomes es d') (h' : d'.Becomes es' d'') : d.Becomes (es ++ es') d'' :=
  ⟨h.takes.append h'.takes, h'.constants.trans h.constants⟩

theorem of_eq (ho : d'.overlay = d.overlay) (hc : d'.helperConstants = d.helperConstants) :
    d.Becomes [] d' :=
  ⟨by rw [ho]; exact Overlay.takes_nil, hc⟩

theorem of_edit (h : d.overlay.Takes es d'.overlay ∧ d' = { d with overlay := d'.overlay }) :
    d.Becomes es d' :=
  ⟨h.1, by rw [h.2]⟩

end Draft.Becomes

theorem succeeds_forM_cons {α : Type} {f : α → Pass PUnit} {x : α} {xs : List α} {u : PUnit}
    (h : Succeeds ((x :: xs).forM f) d u d') :
    ∃ d₁, Succeeds (f x) d () d₁ ∧ Succeeds (xs.forM f) d₁ () d' := by
  have hcons : (x :: xs).forM f = f x >>= fun _ => xs.forM f := rfl
  rw [hcons] at h
  obtain ⟨_, d₁, h1, h2⟩ := succeeds_bind.1 h
  exact ⟨d₁, h1, h2⟩

theorem becomes_of_forM {α : Type} {f : α → Pass PUnit} {g : α → List Edit} {xs : List α}
    {u : PUnit} (hf : ∀ x ∈ xs, ∀ d d', Succeeds (f x) d () d' → d.Becomes (g x) d')
    (h : Succeeds (xs.forM f) d u d') : d.Becomes (xs.flatMap g) d' := by
  induction xs generalizing d with
  | nil =>
    obtain ⟨-, rfl⟩ := succeeds_pure.1 h
    exact .refl
  | cons x xs ih =>
    obtain ⟨d₁, h1, h2⟩ := succeeds_forM_cons h
    exact (hf x List.mem_cons_self d d₁ h1).trans
      (ih (fun y hy => hf y (List.mem_cons_of_mem x hy)) h2)

/-! ## Actions that edit nothing -/

def KeepsText {α : Type} (x : Pass α) : Prop :=
  ∀ d a d', Succeeds x d a d' →
    d'.overlay = d.overlay ∧ d'.helperConstants = d.helperConstants

namespace KeepsText

variable {α β : Type}

theorem of_pure (a : α) : KeepsText (pure a : Pass α) := by
  intro d b d' h
  obtain ⟨-, rfl⟩ := succeeds_pure.1 h
  exact ⟨rfl, rfl⟩

theorem of_throw (f : Fault) : KeepsText (throw f : Pass α) :=
  fun _ _ _ h => absurd h not_succeeds_throw

theorem of_lift (r : Except Fault α) : KeepsText (liftM r : Pass α) := by
  intro d b d' h
  obtain ⟨-, rfl⟩ := succeeds_lift.1 h
  exact ⟨rfl, rfl⟩

theorem of_get : KeepsText (get : Pass Draft) := by
  intro d b d' h
  obtain ⟨-, rfl⟩ := succeeds_get.1 h
  exact ⟨rfl, rfl⟩

theorem of_modify {f : Draft → Draft}
    (hf : ∀ d, (f d).overlay = d.overlay ∧ (f d).helperConstants = d.helperConstants) :
    KeepsText (modify f : Pass PUnit) := by
  intro d b d' h
  obtain rfl := succeeds_modify.1 h
  exact hf d

theorem of_bind {x : Pass α} {f : α → Pass β} (hx : KeepsText x) (hf : ∀ a, KeepsText (f a)) :
    KeepsText (x >>= f) := by
  intro d b d' h
  obtain ⟨a, d₁, h₁, h₂⟩ := succeeds_bind.1 h
  obtain ⟨ho, hc⟩ := hx d a d₁ h₁
  obtain ⟨ho', hc'⟩ := hf a d₁ b d' h₂
  exact ⟨ho'.trans ho, hc'.trans hc⟩

theorem becomes {x : Pass α} (hx : KeepsText x) {d d' : Draft} {a : α}
    (h : Succeeds x d a d') : d.Becomes [] d' :=
  .of_eq (hx d a d' h).1 (hx d a d' h).2

end KeepsText

theorem keepsText_recordFor (names : Settings) (specifier : Text) :
    KeepsText (Pass.recordFor names specifier) := by
  intro d b d' h
  obtain rfl := (Prod.mk.inj (Eq.symm h)).2
  exact ⟨rfl, rfl⟩

theorem keepsText_bind (names : Settings) (localName specifier : Text) (imported : Option Text) :
    KeepsText (Pass.bind names localName specifier imported) :=
  .of_modify fun _ => ⟨rfl, rfl⟩

theorem keepsText_queue (exported expression : Text) : KeepsText (Pass.queue exported expression) :=
  .of_modify fun _ => ⟨rfl, rfl⟩

end RegistryScript
