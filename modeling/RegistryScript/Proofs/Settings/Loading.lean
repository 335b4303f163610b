import Mathlib
import RegistryScript.Proofs.Settings.Entries
import RegistryScript.Settings.Project

/-! # Loading the settings of a project

The settings of a project stand in a table inside a table. They are those of its entries under keys
with underscores for hyphens; where two spellings of one key are there, the later one counts.

* `Settings.Spells`: entries under the keys of settings for those of a table.
* `spells_setKeys`, `knownEntries_of_known`, `knownEntries_of_unknown`: what is read from the
  entries of a table.
* `Settings.Loads`: what a project comes to, by what stands in its two tables.
* `loads_ofProject`: loading comes to exactly that, and which faults it can end in.
-/

namespace RegistryScript
set_option autoImplicit false

namespace Settings

variable {entries known tools project : List (Text × Value)} {e : Text × Value} {key k : Text}
  {value : Value}

/-! ## Spellings of keys -/

def lastSpelled? (key : Text) (entries : List (Text × Value)) : Option Value :=
  ((entries.filter fun e => underscored e.1 = key).getLast?).map Prod.snd

/-- A table has the entries of another one under keys with underscores, the last of each. -/
structure Spells (entries known : List (Text × Value)) : Prop where
  nodup : (known.map Prod.fst).Nodup
  lookup? : ∀ key, Value.lookup? key known = lastSpelled? key entries

theorem mem_of_lastSpelled? (h : lastSpelled? key entries = some value) :
    ∃ e ∈ entries, underscored e.1 = key ∧ e.2 = value := by
  obtain ⟨e, he, rfl⟩ := Option.map_eq_some_iff.1 h
  obtain ⟨hmem, hkey⟩ := List.mem_filter.1 (List.mem_of_getLast? he)
  exact ⟨e, hmem, of_decide_eq_true hkey, rfl⟩

theorem lastSpelled?_concat :
    lastSpelled? key (entries ++ [e]) =
      if key = underscored e.1 then some e.2 else lastSpelled? key entries := by
  rw [lastSpelled?, List.filter_append]
  by_cases h : underscored e.1 = key
  · simp only [List.filter_cons, h, decide_true, if_true, List.filter_nil, List.getLast?_concat]
    rfl
  · simp only [List.filter_cons, h, decide_false, Bool.false_eq_true, if_false, List.filter_nil,
      List.append_nil, Ne.symm h]
    rfl

/-! ## Setting keys -/

theorem lookup?_cons :
    Value.lookup? k (e :: known) = if e.1 = k then some e.2 else Value.lookup? k known := by
  rw [Value.lookup?, List.find?_cons]
  by_cases h : e.1 = k
  · simp [h]
  · simp [h, Value.lookup?]

theorem lookup?_setKey :
    Value.lookup? k (setKey key value known) =
      if k = key then some value else Value.lookup? k known := by
  induction known with
  | nil => simp only [setKey, lookup?_cons, eq_comm]
  | cons a known ih =>
    rw [setKey]
    split
    · next ha =>
      rw [lookup?_cons, lookup?_cons, ha]
      by_cases hk : k = key
      · rw [if_pos hk.symm, if_pos hk]
      · rw [if_neg (Ne.symm hk), if_neg hk, if_neg (Ne.symm hk)]
    · next ha =>
      rw [lookup?_cons, ih, lookup?_cons]
      by_cases hk : k = key
      · rw [if_pos hk, if_pos hk, if_neg (hk ▸ ha)]
      · rw [if_neg hk, if_neg hk]

theorem mem_map_fst_setKey :
    k ∈ (setKey key value known).map Prod.fst ↔ k = key ∨ k ∈ known.map Prod.fst := by
  induction known with
  | nil => simp [setKey]
  | cons a known ih =>
    rw [setKey]
    split
    · next ha => simp [ha]
    · rw [List.map_cons, List.mem_cons, ih, List.map_cons, List.mem_cons, or_left_comm]

theorem nodup_setKey (h : (known.map Prod.fst).Nodup) :
    ((setKey key value known).map Prod.fst).Nodup := by
  induction known with
  | nil => simp [setKey]
  | cons a known ih =>
    obtain ⟨hnot, hnodup⟩ := List.nodup_cons.1 h
    rw [setKey]
    split
    · next ha => exact List.nodup_cons.2 ⟨ha ▸ hnot, hnodup⟩
    · next ha =>
      refine List.nodup_cons.2 ⟨fun hmem => ?_, ih hnodup⟩
      exact (mem_map_fst_setKey.1 hmem).elim ha hnot

theorem Spells.setKey (h : Spells entries known) :
    Spells (entries ++ [e]) (setKey (underscored e.1) e.2 known) where
  nodup := nodup_setKey h.nodup
  lookup? key := by rw [lookup?_setKey, lastSpelled?_concat, h.lookup?]

def setKeys (entries : List (Text × Value)) : List (Text × Value) :=
  entries.foldl (fun known e => Settings.setKey (underscored e.1) e.2 known) []

theorem spells_setKeys (entries : List (Text × Value)) : Spells entries (setKeys entries) := by
  induction entries using List.reverseRecOn with
  | nil => exact ⟨List.nodup_nil, fun _ => rfl⟩
  | append_singleton entries e ih =>
    rw [setKeys, List.foldl_append]
    exact ih.setKey

def addEntry (known : List (Text × Value)) (e : Text × Value) :
    Except SettingsError (List (Text × Value)) :=
  if keys.contains (underscored e.1) then .ok (Settings.setKey (underscored e.1) e.2 known)
  else .error (.unknownEntry e.1)

theorem knownEntries_eq (entries : List (Text × Value)) :
    knownEntries entries = entries.foldlM addEntry [] := rfl

theorem addEntry_of_mem (h : underscored e.1 ∈ keys) :
    addEntry known e = .ok (Settings.setKey (underscored e.1) e.2 known) :=
  if_pos (List.contains_iff_mem.2 h)

theorem addEntry_of_not_mem (h : underscored e.1 ∉ keys) :
    addEntry known e = .error (.unknownEntry e.1) :=
  if_neg (mt List.contains_iff_mem.1 h)

theorem knownEntries_of_known (h : ∀ e ∈ entries, underscored e.1 ∈ keys) :
    knownEntries entries = .ok (setKeys entries) := by
  rw [knownEntries_eq]
  -- From the end of the list: the fold takes its last step there.
  induction entries using List.reverseRecOn with
  | nil => rfl
  | append_singleton entries e ih =>
    have hconcat : setKeys (entries ++ [e]) =
        Settings.setKey (underscored e.1) e.2 (setKeys entries) := List.foldl_append ..
    rw [List.foldlM_append, ih fun e he => h e (List.mem_append_left _ he), hconcat]
    exact bind_eq_ok_iff.2
      ⟨_, rfl, bind_eq_ok_iff.2 ⟨_, addEntry_of_mem (h e List.mem_concat_self), rfl⟩⟩

theorem knownEntries_of_unknown {before after : List (Text × Value)}
    (hbefore : ∀ e ∈ before, underscored e.1 ∈ keys) (h : underscored e.1 ∉ keys) :
    knownEntries (before ++ e :: after) = .error (.unknownEntry e.1) := by
  rw [knownEntries_eq, List.foldlM_append, ← knownEntries_eq, knownEntries_of_known hbefore]
  change (addEntry (setKeys before) e >>= fun known => after.foldlM addEntry known) = _
  rw [addEntry_of_not_mem h]
  rfl

/-! ## What a project comes to -/

def heldAt (key : Text) (entries : List (Text × Value)) : Value :=
  (Value.lookup? key entries).getD (.table [])

/-- What the settings of a project come to, by what stands in its tables. -/
inductive Loads (project : List (Text × Value)) : Except SettingsError Settings → Prop
  | noEntries (h : ∀ tools, heldAt "tool" project ≠ .table tools) :
    Loads project (.error (.noEntries (heldAt "tool" project).typeName))
  | notATable {tools : List (Text × Value)} (htools : heldAt "tool" project = .table tools)
      (h : ∀ entries, heldAt "esm-registry" tools ≠ .table entries) :
    Loads project (.error .notATable)
  | unknownEntry {tools before after : List (Text × Value)} {e : Text × Value}
      (htools : heldAt "tool" project = .table tools)
      (hentries : heldAt "esm-registry" tools = .table (before ++ e :: after))
      (hbefore : ∀ e ∈ before, underscored e.1 ∈ keys) (h : underscored e.1 ∉ keys) :
    Loads project (.error (.unknownEntry e.1))
  /-- All entries name settings, and the settings are those of the last spelling of each key. -/
  | entries {tools entries known : List (Text × Value)}
      (htools : heldAt "tool" project = .table tools)
      (hentries : heldAt "esm-registry" tools = .table entries)
      (hkeys : ∀ e ∈ entries, underscored e.1 ∈ keys) (h : Spells entries known) :
    Loads project (ofEntries known)

variable {r : Except SettingsError Settings} {fault : SettingsError}

def ofSection (table : Value) : Except SettingsError Settings :=
  match table with
  | .table entries => knownEntries entries >>= ofEntries
  | _ => .error .notATable

theorem ofProject_eq (project : List (Text × Value)) :
    ofProject (.table project) = entryOf "esm-registry" (heldAt "tool" project) >>= ofSection := rfl

theorem entryOf_of_not_table (h : ∀ entries, value ≠ .table entries) :
    entryOf key value = .error (.noEntries value.typeName) := by
  cases value with
  | table entries => exact absurd rfl (h entries)
  | _ => rfl

theorem ofSection_of_not_table (h : ∀ entries, value ≠ .table entries) :
    ofSection value = .error .notATable := by
  cases value with
  | table entries => exact absurd rfl (h entries)
  | _ => rfl

theorem ofProject_of_tools (h : heldAt "tool" project = .table tools) :
    ofProject (.table project) = ofSection (heldAt "esm-registry" tools) := by
  rw [ofProject_eq, h]
  rfl

theorem ofProject_of_entries (htools : heldAt "tool" project = .table tools)
    (hentries : heldAt "esm-registry" tools = .table entries) :
    ofProject (.table project) = knownEntries entries >>= ofEntries := by
  rw [ofProject_of_tools htools, hentries]
  rfl

theorem Spells.mem_keys (h : Spells entries known)
    (hkeys : ∀ e ∈ entries, underscored e.1 ∈ keys) : ∀ e ∈ known, e.1 ∈ keys := by
  intro e he
  have hsome : (Value.lookup? e.1 known).isSome := by
    rw [Value.lookup?, Option.isSome_map, List.find?_isSome]
    exact ⟨e, he, decide_eq_true rfl⟩
  obtain ⟨v, hv⟩ := Option.isSome_iff_exists.1 hsome
  obtain ⟨e', he', hkey, -⟩ := mem_of_lastSpelled? ((h.lookup? e.1).symm.trans hv)
  exact hkey ▸ hkeys e' he'

theorem Loads.eq (h : Loads project r) : ofProject (.table project) = r := by
  cases h with
  | noEntries h => rw [ofProject_eq, entryOf_of_not_table h]; rfl
  | notATable htools h => rw [ofProject_of_tools htools, ofSection_of_not_table h]
  | unknownEntry htools hentries hbefore h =>
    rw [ofProject_of_entries htools hentries, knownEntries_of_unknown hbefore h]
    rfl
  | @entries tools entries known htools hentries hkeys h =>
    -- What is read and what spells the entries agree at each key, and no more of them counts.
    have hspells := spells_setKeys entries
    rw [ofProject_of_entries htools hentries, knownEntries_of_known hkeys]
    change ofEntries (setKeys entries) = _
    rw [ofEntries_of_known (hspells.mem_keys hkeys), ofEntries_of_known (h.mem_keys hkeys)]
    exact fieldsOf_congr fun key => (hspells.lookup? key).trans (h.lookup? key).symm

theorem exists_loads (project : List (Text × Value)) : ∃ r, Loads project r := by
  by_cases htools : ∃ tools, heldAt "tool" project = .table tools
  swap
  · exact ⟨_, .noEntries (not_exists.1 htools)⟩
  obtain ⟨tools, htools⟩ := htools
  by_cases hentries : ∃ entries, heldAt "esm-registry" tools = .table entries
  swap
  · exact ⟨_, .notATable htools (not_exists.1 hentries)⟩
  obtain ⟨entries, hentries⟩ := hentries
  cases hfind : entries.find? fun e => !keys.contains (underscored e.1) with
  | none =>
    have hkeys : ∀ e ∈ entries, underscored e.1 ∈ keys := fun e he => by
      simpa using List.find?_eq_none.1 hfind e he
    exact ⟨_, .entries htools hentries hkeys (spells_setKeys entries)⟩
  | some e =>
    obtain ⟨hnot, before, after, rfl, hbefore⟩ := List.find?_eq_some_iff_append.1 hfind
    exact ⟨_, .unknownEntry htools hentries
      (fun a ha => by simpa using hbefore a ha) (by simpa using hnot)⟩

theorem loads_self (project : List (Text × Value)) :
    Loads project (ofProject (.table project)) := by
  obtain ⟨r, h⟩ := exists_loads project
  exact h.eq ▸ h

/-! ## The faults of loading -/

/-- The faults of loading are refusals of the settings, a value in place of the table of tools, and
a value among the settings that cannot be shown. -/
theorem Loads.fault_cases (h : Loads project (.error fault)) :
    fault.IsRefusal ∨
    ((∀ tools, heldAt "tool" project ≠ .table tools) ∧
      fault = .noEntries (heldAt "tool" project).typeName) ∨
    (fault = .tooManyDigits ∧ ∃ tools entries, heldAt "tool" project = .table tools ∧
      heldAt "esm-registry" tools = .table entries ∧ ∃ e ∈ entries, e.2.isShowable = false) := by
  generalize hr : Except.error fault = r at h
  cases h with
  | noEntries h => exact .inr (.inl ⟨h, Except.error.inj hr⟩)
  | notATable htools h => exact .inl (Except.error.inj hr ▸ trivial)
  | unknownEntry htools hentries hbefore h => exact .inl (Except.error.inj hr ▸ trivial)
  | @entries tools entries known htools hentries hkeys h =>
    rw [ofEntries_of_known (h.mem_keys hkeys)] at hr
    refine (faultsAre_fieldsOf fault hr.symm).imp_right fun ⟨hdigits, v, ⟨key, hv⟩, hshow⟩ => ?_
    obtain ⟨e, he, -, rfl⟩ := mem_of_lastSpelled? ((h.lookup? key).symm.trans hv)
    exact .inr ⟨hdigits, tools, entries, htools, hentries, e, he, hshow⟩

/-- Loading a project comes to exactly one thing, told by its tables: the settings of the last
spelling of each key, or what is wrong with them. Unless there is a value in place of the table of
tools, or an integer that is too long to be shown, what is wrong is told as a fault of the
settings. -/
theorem loads_ofProject (project : List (Text × Value)) :
    (∀ r, ofProject (.table project) = r ↔ Loads project r) ∧
    ∀ fault, ofProject (.table project) = .error fault →
      fault.IsRefusal ∨
      ((∀ tools, heldAt "tool" project ≠ .table tools) ∧
        fault = .noEntries (heldAt "tool" project).typeName) ∨
      (fault = .tooManyDigits ∧ ∃ tools entries, heldAt "tool" project = .table tools ∧
        heldAt "esm-registry" tools = .table entries ∧ ∃ e ∈ entries, e.2.isShowable = false) :=
  ⟨fun _ => ⟨fun h => h ▸ loads_self project, Loads.eq⟩,
    fun _ h => (h ▸ loads_self project).fault_cases⟩

theorem loads_ofProject_spellings :
    let spellings : List (Text × Value) :=
      [("export-helper", .text "a"), ("host", .text "window"), ("export_helper", .text "b")]
    let tools (entries : List (Text × Value)) : List (Text × Value) :=
      [("tool", .table [("esm-registry", .table entries)])]
    ofProject (.table (tools spellings)) = .ok { host := "window", exportHelper := "b" } ∧
      ofProject (.table (tools [("host", .int 5)])) = .error (.notAPath (.int 5)) ∧
      SettingsError.IsRefusal (.notAPath (.int 5)) := by
  intro spellings tools
  have hhost : ofProject (.table (tools [("host", .int 5)])) = .error (.notAPath (.int 5)) := rfl
  refine ⟨((loads_ofProject _).1 _).2 (.entries rfl rfl (by decide) (spells_setKeys spellings)),
    hhost, ?_⟩
  rcases (loads_ofProject _).2 _ hhost with h | ⟨h, -⟩ | ⟨h, -⟩
  · exact h
  · exact absurd rfl (h _)
  · exact nomatch h

/-- A value in place of the table of tools is not told as a fault of the settings. -/
theorem ofProject_integer_tools :
    ofProject (.table [("tool", .int 5)]) = .error (.noEntries "int") ∧
      ¬ SettingsError.IsRefusal (.noEntries "int") := ⟨rfl, id⟩

end Settings

end RegistryScript
