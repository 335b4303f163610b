import Mathlib

/-! # Running actions that may fail

An action on a state may fail, and the state it has made by then is kept. These are the equations
by which such actions are run, and what follows from an action that is known to succeed.

* `outcome`: the result of an action together with the state it leaves behind.
* `outcome_bind`: one action after another.
* `Succeeds`: an action ends with a value and a state.
* `succeeds_bind`, `succeeds_lift`: how a success is made up of the successes of the parts.
* `Completes`: an action ends with some value.
* `bind_eq_ok_iff`, `mapM_eq_ok_iff`: computations without a state, one after another and on all
  members of a list.
-/

namespace RegistryScript
set_option autoImplicit false

variable {ε σ α β : Type}

/-! ## Equations -/

/-- What an action gives, and the state it leaves behind. -/
def outcome (x : ExceptT ε (StateM σ) α) (s : σ) : Except ε α × σ := x.run s

theorem outcome_pure (a : α) (s : σ) :
    outcome (pure a : ExceptT ε (StateM σ) α) s = (.ok a, s) := rfl

theorem outcome_bind (x : ExceptT ε (StateM σ) α) (f : α → ExceptT ε (StateM σ) β) (s : σ) :
    outcome (x >>= f) s =
      match outcome x s with
      | (.ok a, s') => outcome (f a) s'
      | (.error e, s') => (.error e, s') := by
  have h : outcome (x >>= f) s =
      match outcome x s with
      | (r, s') => outcome (ExceptT.bindCont f r) s' := rfl
  rw [h]
  obtain ⟨r, s'⟩ := outcome x s
  cases r <;> rfl

theorem outcome_get (s : σ) : outcome (get : ExceptT ε (StateM σ) σ) s = (.ok s, s) := rfl

theorem outcome_modify (f : σ → σ) (s : σ) :
    outcome (modify f : ExceptT ε (StateM σ) PUnit) s = (.ok (), f s) := rfl

theorem outcome_throw (e : ε) (s : σ) :
    outcome (throw e : ExceptT ε (StateM σ) α) s = (.error e, s) := rfl

theorem outcome_lift (r : Except ε α) (s : σ) :
    outcome (liftM r : ExceptT ε (StateM σ) α) s = (r, s) := rfl

theorem outcome_bind_of_ok {x : ExceptT ε (StateM σ) α} {f : α → ExceptT ε (StateM σ) β}
    {s s' : σ} {a : α} (h : outcome x s = (.ok a, s')) :
    outcome (x >>= f) s = outcome (f a) s' := by
  rw [outcome_bind, h]

theorem outcome_bind_of_error {x : ExceptT ε (StateM σ) α} {f : α → ExceptT ε (StateM σ) β}
    {s s' : σ} {e : ε} (h : outcome x s = (.error e, s')) :
    outcome (x >>= f) s = (.error e, s') := by
  rw [outcome_bind, h]

/-! ## Success -/

def Succeeds (x : ExceptT ε (StateM σ) α) (s : σ) (a : α) (s' : σ) : Prop :=
  outcome x s = (.ok a, s')

theorem succeeds_pure {a b : α} {s s' : σ} :
    Succeeds (pure a : ExceptT ε (StateM σ) α) s b s' ↔ b = a ∧ s' = s := by
  simp only [Succeeds, outcome_pure, Prod.mk.injEq, Except.ok.injEq]
  exact and_congr eq_comm eq_comm

theorem succeeds_bind {x : ExceptT ε (StateM σ) α} {f : α → ExceptT ε (StateM σ) β} {s s'' : σ}
    {b : β} :
    Succeeds (x >>= f) s b s'' ↔ ∃ a s', Succeeds x s a s' ∧ Succeeds (f a) s' b s'' := by
  unfold Succeeds
  rw [outcome_bind]
  constructor
  · intro h
    rcases hx : outcome x s with ⟨r, s'⟩
    rw [hx] at h
    cases r with
    | error e => simp at h
    | ok a => exact ⟨a, s', rfl, h⟩
  · rintro ⟨a, s', hx, hf⟩
    rw [hx]
    exact hf

theorem succeeds_get {s a s' : σ} :
    Succeeds (get : ExceptT ε (StateM σ) σ) s a s' ↔ a = s ∧ s' = s := by
  simp only [Succeeds, outcome_get, Prod.mk.injEq, Except.ok.injEq]
  exact and_congr eq_comm eq_comm

theorem succeeds_modify {f : σ → σ} {s s' : σ} {u : PUnit} :
    Succeeds (modify f : ExceptT ε (StateM σ) PUnit) s u s' ↔ s' = f s := by
  simp only [Succeeds, outcome_modify, Prod.mk.injEq, true_and]
  exact eq_comm

theorem not_succeeds_throw {e : ε} {s s' : σ} {a : α} :
    ¬ Succeeds (throw e : ExceptT ε (StateM σ) α) s a s' := by
  simp [Succeeds, outcome_throw]

theorem succeeds_lift {r : Except ε α} {s s' : σ} {a : α} :
    Succeeds (liftM r : ExceptT ε (StateM σ) α) s a s' ↔ r = .ok a ∧ s' = s := by
  simp only [Succeeds, outcome_lift, Prod.mk.injEq]
  exact and_congr_right fun _ => eq_comm

theorem Succeeds.unique {x : ExceptT ε (StateM σ) α} {s s₁ s₂ : σ} {a b : α}
    (h₁ : Succeeds x s a s₁) (h₂ : Succeeds x s b s₂) : a = b ∧ s₁ = s₂ := by
  unfold Succeeds at h₁ h₂
  rw [h₁] at h₂
  simpa using h₂

theorem eq_ok_of_toOption {ε α : Type} {x : Except ε α} {a : α} (h : x.toOption = some a) :
    x = .ok a := by
  cases x with
  | error e => exact nomatch h
  | ok b => rw [Option.some.inj h]

theorem outcome_eq_of_toOption {x : ExceptT ε (StateM σ) α} {s : σ} {a : α}
    (h : (outcome x s).1.toOption = some a) : outcome x s = (.ok a, (outcome x s).2) := by
  rcases hx : outcome x s with ⟨_ | b, s'⟩
  · rw [hx] at h
    exact nomatch h
  · rw [hx] at h
    rw [Option.some.inj h]

/-! ## Completion -/

def Completes (x : ExceptT ε (StateM σ) α) (s : σ) : Prop := ∃ a s', Succeeds x s a s'

theorem completes_pure (a : α) (s : σ) : Completes (pure a : ExceptT ε (StateM σ) α) s :=
  ⟨a, s, succeeds_pure.2 ⟨rfl, rfl⟩⟩

theorem completes_bind_of {x : ExceptT ε (StateM σ) α} {f : α → ExceptT ε (StateM σ) β} {s : σ}
    (hx : Completes x s) (hf : ∀ a s', Succeeds x s a s' → Completes (f a) s') :
    Completes (x >>= f) s := by
  obtain ⟨a, s', hx⟩ := hx
  obtain ⟨b, s'', hf⟩ := hf a s' hx
  exact ⟨b, s'', succeeds_bind.2 ⟨a, s', hx, hf⟩⟩

theorem completes_get_bind {f : σ → ExceptT ε (StateM σ) β} {s : σ} (hf : Completes (f s) s) :
    Completes (get >>= f) s :=
  completes_bind_of ⟨s, s, succeeds_get.2 ⟨rfl, rfl⟩⟩ fun a s' h => by
    obtain ⟨rfl, rfl⟩ := succeeds_get.1 h
    exact hf

theorem completes_lift_bind {a : α} {r : Except ε α} {f : α → ExceptT ε (StateM σ) β} {s : σ}
    (hr : r = .ok a) (hf : Completes (f a) s) : Completes (liftM r >>= f) s :=
  completes_bind_of ⟨a, s, succeeds_lift.2 ⟨hr, rfl⟩⟩ fun b s' h => by
    obtain ⟨hb, rfl⟩ := succeeds_lift.1 h
    obtain rfl : a = b := Except.ok.inj (hr.symm.trans hb)
    exact hf

/-! ## Computations that may fail -/

theorem bind_eq_ok_iff {x : Except ε α} {f : α → Except ε β} {b : β} :
    (x >>= f) = .ok b ↔ ∃ a, x = .ok a ∧ f a = .ok b := by
  constructor
  · intro h
    cases x with
    | error e => cases h
    | ok a => exact ⟨a, rfl, h⟩
  · rintro ⟨a, rfl, h⟩
    exact h

theorem mapM_eq_ok_iff {f : α → Except ε β} {xs : List α} {ys : List β} :
    xs.mapM f = .ok ys ↔ List.Forall₂ (fun x y => f x = .ok y) xs ys := by
  induction xs generalizing ys with
  | nil =>
    rw [List.forall₂_nil_left_iff]
    exact ⟨fun h => (Except.ok.inj h).symm, fun h => h ▸ rfl⟩
  | cons x xs ih =>
    rw [List.mapM_cons, List.forall₂_cons_left_iff]
    simp only [bind_eq_ok_iff, ih]
    constructor
    · rintro ⟨y, hx, ys', hxs, h⟩
      exact ⟨y, ys', hx, hxs, (Except.ok.inj h).symm⟩
    · rintro ⟨y, ys', hx, hxs, rfl⟩
      exact ⟨y, hx, ys', hxs, rfl⟩

theorem mapM_eq_ok {f : α → Except ε β} {g : α → β} {l : List α}
    (h : ∀ a ∈ l, f a = .ok (g a)) : l.mapM f = .ok (l.map g) :=
  mapM_eq_ok_iff.2 (List.forall₂_map_right_iff.2 (List.forall₂_same.2 h))

theorem mapM_eq_map {f : α → Except ε β} {g : α → β} {xs : List α} {ys : List β}
    (hf : ∀ x y, f x = .ok y → y = g x) (h : xs.mapM f = .ok ys) : ys = xs.map g := by
  have hsame : List.Forall₂ (fun x y => g x = y) xs ys :=
    (mapM_eq_ok_iff.1 h).imp fun x y hy => (hf x y hy).symm
  rw [← List.forall₂_map_left_iff (R := Eq), List.forall₂_eq_eq_eq] at hsame
  exact hsame.symm

theorem exists_of_mapM_eq_ok {f : α → Except ε β} {xs : List α} {ys : List β}
    (h : xs.mapM f = .ok ys) : ∀ x ∈ xs, ∃ y, f x = .ok y := by
  intro x hx
  obtain ⟨i, hi, rfl⟩ := List.mem_iff_getElem.1 hx
  have hall := mapM_eq_ok_iff.1 h
  exact ⟨_, hall.get hi (hall.length_eq ▸ hi)⟩

end RegistryScript
