import RegistryScript.Settings.Project
import RegistryScript.Toml.Document

/-! # Settings in a project file

* `Settings.ofFile`: the settings that a project file of the given text holds.
-/

namespace RegistryScript
set_option autoImplicit false

def Settings.ofFile (text : Text) : Except SettingsError Settings :=
  match Toml.parse? text.toChars with
  | some project => ofProject project
  | none => .error .malformed

end RegistryScript
