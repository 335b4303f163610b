import Mathlib
import RegistryScript.Transform

/-! # The steps of a transformation

* `transform_text`: a text with an id is read, converted and wrapped up.
* `exists_texts_of_transform`, `transform_eq_ok`: what a result says of the arguments and the steps.
* `readScript_eq_ok`, `readScript_cases`: how reading ends.
-/

namespace RegistryScript
set_option autoImplicit false

variable {read : Reader} {names : Settings} {text id : Text} {css : Value}

theorem transform_text (hid : id ≠ []) :
    transform read names (.text text) (.text id) css = (do
      let s ← readScript read id text
      let r ← convert names id css s
      return RegistryModule.ofDraft id r.1 r.2) := by
  cases id with
  | nil => exact absurd rfl hid
  | cons c cs => rfl

theorem exists_texts_of_transform {script moduleId : Value} {m : RegistryModule}
    (h : transform read names script moduleId css = .ok m) :
    ∃ text id, script = .text text ∧ moduleId = .text id := by
  unfold transform at h
  split at h
  · split at h
    · exact ⟨_, _, rfl, rfl⟩
    · exact nomatch h
  · exact nomatch h

theorem transform_eq_ok {m : RegistryModule}
    (h : transform read names (.text text) (.text id) css = .ok m) :
    ∃ s r, readScript read id text = .ok s ∧ convert names id css s = .ok r ∧
      m = RegistryModule.ofDraft id r.1 r.2 := by
  have hid : id ≠ [] := by
    rintro rfl
    exact nomatch h
  rw [transform_text hid] at h
  cases hs : readScript read id text with
  | error e =>
    rw [hs] at h
    exact nomatch h
  | ok s =>
    cases hr : convert names id css s with
    | error e =>
      rw [hs] at h
      change (convert names id css s >>= _) = _ at h
      rw [hr] at h
      exact nomatch h
    | ok r =>
      rw [hs] at h
      change (convert names id css s >>= _) = _ at h
      rw [hr] at h
      exact ⟨s, r, rfl, hr, (Except.ok.inj h).symm⟩

theorem readScript_eq_ok {root : Node} (hread : read text = some root)
    (hintact : root.hasError = false) :
    readScript read id text = .ok (Script.ofTree text root) := by
  have hnone : (Script.ofTree text root).diagnostics = .ok [] := by
    have hroot : (Script.ofTree text root).root.hasError = false := hintact
    rw [Script.diagnostics, hroot]
    rfl
  simp only [readScript, hread, hnone]
  rfl

/-- A text that has a tree is read as a script, or refused, but not for a conflict. -/
theorem readScript_cases {root : Node} (hread : read text = some root) :
    readScript read id text = .ok (Script.ofTree text root) ∨
      ∃ e, readScript read id text = .error e ∧ ∀ id' e', e ≠ .conflict id' e' := by
  rw [readScript, hread]
  cases hd : (Script.ofTree text root).diagnostics with
  | error f => exact .inr ⟨.fault f, by simp [hd, Except.mapError]; rfl, nofun⟩
  | ok diagnostics =>
    cases diagnostics with
    | nil => exact .inl (by simp [hd, Except.mapError]; rfl)
    | cons d ds => exact .inr ⟨.parse ⟨id, d :: ds⟩, by simp [hd, Except.mapError]; rfl, nofun⟩

end RegistryScript
