import Mathlib
import RegistryScript.Proofs.Run
import RegistryScript.Settings.Basic

/-! # Settings of given entries

Settings take the value of each key that is given and keep the default of each that is not. The
values have to pass the tests of their settings.

* `Settings.nameAt`: the name that a setting has.
* `Settings.Takes`: settings agree with given entries.
* `ofEntries_eq_ok_iff`: the settings that are taken are those that agree with the entries.
* `faultsAre_fieldsOf`: why the values of entries are refused.
* `fieldsOf_congr`: of the entries only the value of each key counts.
-/

namespace RegistryScript
set_option autoImplicit false

/-! ## Computations that may fail -/

section Failing

variable {ε α β : Type} {x : Except ε α} {f : α → Except ε β}

def FaultsAre (p : ε → Prop) (x : Except ε α) : Prop := ∀ e, x = .error e → p e

theorem FaultsAre.bind {p : ε → Prop} (hx : FaultsAre p x) (hf : ∀ a, FaultsAre p (f a)) :
    FaultsAre p (x >>= f) := by
  intro e h
  cases x with
  | error e' => exact Except.error.inj h ▸ hx e' rfl
  | ok a => exact hf a e h

end Failing

/-! ## Settings and their keys -/

namespace SettingsError

def IsRefusal : SettingsError → Prop
  | .noEntries _ | .unknownKey _ | .tooManyDigits => False
  | .notAPath _ | .notAName _ _ | .notABool | .unknownEntry _ | .notATable | .malformed => True

end SettingsError

namespace Settings

def nameAt (s : Settings) : NameSetting → Text
  | .registryProperty => s.registryProperty
  | .stylesheetProperty => s.stylesheetProperty
  | .moduleBinding => s.moduleBinding
  | .exportHelper => s.exportHelper
  | .requireHelper => s.requireHelper
  | .dynamicImportHelper => s.dynamicImportHelper
  | .importPrefix => s.importPrefix

def givenText (entries : List (Text × Value)) (key preset : Text) : Value :=
  (Value.lookup? key entries).getD (.text preset)

def givenHost (entries : List (Text × Value)) : Value :=
  givenText entries "host" ({} : Settings).host

def givenName (entries : List (Text × Value)) (setting : NameSetting) : Value :=
  givenText entries setting.key (({} : Settings).nameAt setting)

def givenChoice (entries : List (Text × Value)) : Value :=
  (Value.lookup? "emit_default_export" entries).getD (.bool ({} : Settings).emitDefaultExport)

/-- Settings that have the values of entries, or the defaults, all of which pass the tests. -/
structure Takes (entries : List (Text × Value)) (s : Settings) : Prop where
  known : ∀ e ∈ entries, e.1 ∈ keys
  host : givenHost entries = .text s.host
  name : ∀ setting, givenName entries setting = .text (s.nameAt setting)
  choice : givenChoice entries = .bool s.emitDefaultExport
  isPathLine : s.host.isPathLine = true
  isNameLine : ∀ setting, (s.nameAt setting).isNameLine = true

variable {entries entries' : List (Text × Value)} {s : Settings} {setting : NameSetting}
  {value : Value} {test : Text → Bool} {t : Text} {b : Bool} {e : SettingsError}

/-! ## The tests of values -/

theorem checkedText_eq_ok_iff :
    checkedText test e value = .ok t ↔ value = .text t ∧ test t = true := by
  cases value with
  | text u =>
    by_cases hu : test u = true
    · simp only [checkedText, hu, if_true, Except.ok.injEq, Value.text.injEq]
      exact ⟨fun h => ⟨h, h ▸ hu⟩, And.left⟩
    · simp only [checkedText, hu, Value.text.injEq]
      exact ⟨nofun, fun h => absurd (h.1 ▸ h.2) hu⟩
  | _ => exact ⟨nofun, nofun⟩

theorem pathOf_eq_ok_iff : pathOf value = .ok t ↔ value = .text t ∧ t.isPathLine = true :=
  checkedText_eq_ok_iff

theorem nameOf_eq_ok_iff :
    nameOf setting value = .ok t ↔ value = .text t ∧ t.isNameLine = true :=
  checkedText_eq_ok_iff

theorem boolOf_eq_ok_iff : boolOf value = .ok b ↔ value = .bool b := by
  cases value with
  | bool c => exact ⟨fun h => congrArg Value.bool (Except.ok.inj h), fun h => by cases h; rfl⟩
  | _ => exact ⟨nofun, nofun⟩

/-- A fault of which the caller is told as such, or one of some values cannot be shown. -/
def Blames (among : Value → Prop) (e : SettingsError) : Prop :=
  e.IsRefusal ∨ e = .tooManyDigits ∧ ∃ v, among v ∧ v.isShowable = false

theorem Blames.mono {p q : Value → Prop} (h : Blames p e)
    (hpq : ∀ v, p v → v.isShowable = false → q v) : Blames q e :=
  h.imp_right fun ⟨he, v, hv, hshow⟩ => ⟨he, v, hpq v hv hshow, hshow⟩

theorem blames_refusal (he : e.IsRefusal) : Blames (· = value) (refusal value e) := by
  rw [refusal]
  split
  · exact .inl he
  · next h => exact .inr ⟨rfl, value, rfl, Bool.eq_false_iff.2 h⟩

theorem faultsAre_checkedText (he : e.IsRefusal) :
    FaultsAre (Blames (· = value)) (checkedText test e value) := by
  intro e' h
  unfold checkedText at h
  split at h
  · split at h
    · cases h
    · exact Except.error.inj h ▸ blames_refusal he
  · exact Except.error.inj h ▸ blames_refusal he

theorem faultsAre_boolOf : FaultsAre SettingsError.IsRefusal (boolOf value) := by
  intro e h
  unfold boolOf at h
  split at h
  · cases h
  · exact Except.error.inj h ▸ trivial

/-! ## The fields in their order -/

def fieldsOf (entries : List (Text × Value)) : Except SettingsError Settings := do
  let name (setting : NameSetting) := nameOf setting (givenName entries setting)
  let host ← pathOf (givenHost entries)
  let registryProperty ← name .registryProperty
  let stylesheetProperty ← name .stylesheetProperty
  let moduleBinding ← name .moduleBinding
  let exportHelper ← name .exportHelper
  let requireHelper ← name .requireHelper
  let dynamicImportHelper ← name .dynamicImportHelper
  let importPrefix ← name .importPrefix
  let emitDefaultExport ← boolOf (givenChoice entries)
  return { host, registryProperty, stylesheetProperty, moduleBinding, exportHelper, requireHelper,
           dynamicImportHelper, importPrefix, emitDefaultExport }

theorem ofEntries_eq (entries : List (Text × Value)) :
    ofEntries entries =
      match entries.find? fun e => !keys.contains e.1 with
      | some e => .error (.unknownKey e.1)
      | none => fieldsOf entries := by
  rw [ofEntries]
  cases entries.find? fun e => !keys.contains e.1 <;> rfl

theorem ofEntries_of_known (h : ∀ e ∈ entries, e.1 ∈ keys) :
    ofEntries entries = fieldsOf entries := by
  have hnone : entries.find? (fun e => !keys.contains e.1) = none := by
    refine List.find?_eq_none.2 fun e he => ?_
    simpa using h e he
  rw [ofEntries_eq, hnone]

theorem known_of_ofEntries (h : ofEntries entries = .ok s) : ∀ e ∈ entries, e.1 ∈ keys := by
  intro e he
  rw [ofEntries_eq] at h
  split at h
  · cases h
  · next hnone => simpa using List.find?_eq_none.1 hnone e he

theorem fieldsOf_eq_ok_iff (hknown : ∀ e ∈ entries, e.1 ∈ keys) :
    fieldsOf entries = .ok s ↔ Takes entries s := by
  constructor
  · intro h
    -- Each field in its turn gives the text that was found for it and that the text passes.
    simp only [fieldsOf, bind_eq_ok_iff, pathOf_eq_ok_iff, nameOf_eq_ok_iff,
      boolOf_eq_ok_iff] at h
    obtain ⟨_, ⟨hhost, hpath⟩, _, ⟨h₁, n₁⟩, _, ⟨h₂, n₂⟩, _, ⟨h₃, n₃⟩, _, ⟨h₄, n₄⟩, _, ⟨h₅, n₅⟩,
      _, ⟨h₆, n₆⟩, _, ⟨h₇, n₇⟩, _, hchoice, hs⟩ := h
    cases hs
    refine ⟨hknown, hhost, fun setting => ?_, hchoice, hpath, fun setting => ?_⟩
    · cases setting
      exacts [h₁, h₂, h₃, h₄, h₅, h₆, h₇]
    · cases setting
      exacts [n₁, n₂, n₃, n₄, n₅, n₆, n₇]
  · intro h
    have hhost := pathOf_eq_ok_iff.2 ⟨h.host, h.isPathLine⟩
    have hname : ∀ setting, nameOf setting (givenName entries setting) = .ok (s.nameAt setting) :=
      fun setting => nameOf_eq_ok_iff.2 ⟨h.name setting, h.isNameLine setting⟩
    have hchoice := boolOf_eq_ok_iff.2 h.choice
    simp only [fieldsOf, hhost, hname, hchoice]
    rfl

theorem ofEntries_eq_ok_iff : ofEntries entries = .ok s ↔ Takes entries s := by
  constructor
  · intro h
    have hknown := known_of_ofEntries h
    rw [ofEntries_of_known hknown] at h
    exact (fieldsOf_eq_ok_iff hknown).1 h
  · intro h
    rw [ofEntries_of_known h.known]
    exact (fieldsOf_eq_ok_iff h.known).2 h

/-! ## Refused entries -/

def Gives (entries : List (Text × Value)) (v : Value) : Prop :=
  ∃ key, Value.lookup? key entries = some v

theorem gives_givenText {key preset : Text}
    (h : (givenText entries key preset).isShowable = false) :
    Gives entries (givenText entries key preset) := by
  unfold givenText at h ⊢
  cases hlookup : Value.lookup? key entries with
  | none => rw [hlookup] at h; exact nomatch h
  | some v => exact ⟨key, hlookup⟩

theorem faultsAre_given {key preset : Text} (he : e.IsRefusal) :
    FaultsAre (Blames (Gives entries)) (checkedText test e (givenText entries key preset)) := by
  intro e' h
  refine (faultsAre_checkedText he e' h).mono fun v hv hshow => ?_
  subst hv
  exact gives_givenText hshow

theorem faultsAre_fieldsOf : FaultsAre (Blames (Gives entries)) (fieldsOf entries) := by
  have hhost : FaultsAre (Blames (Gives entries)) (pathOf (givenHost entries)) :=
    faultsAre_given trivial
  have hname (setting : NameSetting) :
      FaultsAre (Blames (Gives entries)) (nameOf setting (givenName entries setting)) :=
    faultsAre_given trivial
  have hchoice : FaultsAre (Blames (Gives entries)) (boolOf (givenChoice entries)) :=
    fun e h => .inl (faultsAre_boolOf e h)
  exact hhost.bind fun _ => (hname _).bind fun _ => (hname _).bind fun _ => (hname _).bind fun _ =>
    (hname _).bind fun _ => (hname _).bind fun _ => (hname _).bind fun _ => (hname _).bind fun _ =>
      hchoice.bind fun _ => nofun

theorem fieldsOf_congr (h : ∀ key, Value.lookup? key entries = Value.lookup? key entries') :
    fieldsOf entries = fieldsOf entries' := by
  simp only [fieldsOf, givenHost, givenName, givenChoice, givenText, h]

end Settings

end RegistryScript
