import RegistryScript.Settings.Basic

/-! # Settings of a project

A project keeps its settings in the table `tool.esm-registry`, with keys that are written with
hyphens or underscores.

* `Settings.ofProject`: the settings of a project's table.
-/

namespace RegistryScript
set_option autoImplicit false

namespace Settings

def entryOf (key : Text) (value : Value) : Except SettingsError Value :=
  match value with
  | .table entries => .ok ((Value.lookup? key entries).getD (.table []))
  | _ => .error (.noEntries value.typeName)

def underscored (key : Text) : Text := key.map fun c : CodePoint => if c = '-' then '_' else c

/-- Sets a key: a key that is there keeps its place and changes its value. -/
def setKey (key : Text) (value : Value) : List (Text × Value) → List (Text × Value)
  | [] => [(key, value)]
  | e :: entries =>
    if e.1 = key then (key, value) :: entries else e :: setKey key value entries

/-- Entries under the keys of settings. The first key that names none is refused; of two spellings
of a key the later one counts. -/
def knownEntries (entries : List (Text × Value)) : Except SettingsError (List (Text × Value)) :=
  entries.foldlM
    (fun known e =>
      if keys.contains (underscored e.1) then .ok (setKey (underscored e.1) e.2 known)
      else .error (.unknownEntry e.1))
    []

def ofProject (project : Value) : Except SettingsError Settings := do
  match ← entryOf "esm-registry" (← entryOf "tool" project) with
  | .table entries => ofEntries (← knownEntries entries)
  | _ => throw .notATable

end Settings

end RegistryScript
