import RegistryScript.Text.Name
import RegistryScript.Value.Display

/-! # Settings: the names generated code uses

* `Settings`: the expression of the object that holds the registry, and the names of everything
  the generated code declares. Every field has a default.
* `Settings.ofEntries`: settings from keys and values. Names are checked, since they are spliced
  into code as they stand.
* `Settings.recordId`: the name of the `n`-th imported module record.
-/

namespace RegistryScript
set_option autoImplicit false

structure Settings where
  /-- Expression of the object that holds the registry and the stylesheet. -/
  host : Text := "globalThis"
  /-- Property of the host that holds the registry. -/
  registryProperty : Text := "__modules__"
  /-- Property of the host that collects stylesheet text. -/
  stylesheetProperty : Text := "__css__"
  moduleBinding : Text := "__module__"
  exportHelper : Text := "__export__"
  requireHelper : Text := "__require__"
  dynamicImportHelper : Text := "__dynamic_import__"
  importPrefix : Text := "__import_"
  emitDefaultExport : Bool := true
deriving DecidableEq, Repr

instance : Inhabited Settings := ⟨{}⟩

inductive NameSetting
  | registryProperty | stylesheetProperty | moduleBinding | exportHelper | requireHelper
  | dynamicImportHelper | importPrefix
deriving DecidableEq, Repr

def NameSetting.key : NameSetting → Text
  | .registryProperty => "registry_property"
  | .stylesheetProperty => "stylesheet_property"
  | .moduleBinding => "module_binding"
  | .exportHelper => "export_helper"
  | .requireHelper => "require_helper"
  | .dynamicImportHelper => "dynamic_import_helper"
  | .importPrefix => "import_prefix"

inductive SettingsError
  | notAPath (value : Value)
  | notAName (setting : NameSetting) (value : Value)
  | notABool
  /-- A value is refused that has an integer with too many digits to be shown. -/
  | tooManyDigits
  | unknownKey (key : Text)
  | unknownEntry (key : Text)
  | notATable
  /-- The settings are looked for in a value that is not a table. -/
  | noEntries (typeName : Text)
  | malformed

namespace SettingsError

def message : SettingsError → Text
  | .notAPath value => "host must be an identifier path, got " ++ value.display
  | .notAName setting value =>
    setting.key ++ " must be a JavaScript identifier, got " ++ value.display
  | .notABool => "emit_default_export must be a boolean"
  | .tooManyDigits =>
    "Exceeds the limit (4300 digits) for integer string conversion; " ++
      "use sys.set_int_max_str_digits() to increase the limit"
  | .unknownKey key =>
    "RewriteOptions.__init__() got an unexpected keyword argument '" ++ key ++ "'"
  | .unknownEntry key => "Unknown option in [tool.esm-registry]: " ++ key
  | .notATable => "[tool.esm-registry] must be a table"
  | .noEntries typeName => "'" ++ typeName ++ "' object has no attribute 'get'"
  | .malformed => "Invalid TOML syntax"

end SettingsError

namespace Settings

def keys : List Text :=
  [ "host", NameSetting.registryProperty.key, NameSetting.stylesheetProperty.key,
    NameSetting.moduleBinding.key, NameSetting.exportHelper.key, NameSetting.requireHelper.key,
    NameSetting.dynamicImportHelper.key, NameSetting.importPrefix.key, "emit_default_export"]

/-! ## Checked values -/

/-- Why a value is refused. It is shown in the message, which has to be possible. -/
def refusal (value : Value) (e : SettingsError) : SettingsError :=
  if value.isShowable then e else .tooManyDigits

def checkedText (test : Text → Bool) (e : SettingsError) (value : Value) :
    Except SettingsError Text :=
  match value with
  | .text t => if test t then .ok t else .error (refusal value e)
  | _ => .error (refusal value e)

def pathOf (value : Value) : Except SettingsError Text :=
  checkedText Text.isPathLine (.notAPath value) value

def nameOf (setting : NameSetting) (value : Value) : Except SettingsError Text :=
  checkedText Text.isNameLine (.notAName setting value) value

def boolOf (value : Value) : Except SettingsError Bool :=
  match value with
  | .bool b => .ok b
  | _ => .error .notABool

/-! ## Settings from entries -/

/-- The settings of the given entries, defaults for the rest. An unknown key is found before any
bad value, and values are checked in the order of the fields. -/
def ofEntries (entries : List (Text × Value)) : Except SettingsError Settings := do
  if let some e := entries.find? fun e => !keys.contains e.1 then throw (.unknownKey e.1)
  let defaults : Settings := {}
  let value (key preset : Text) : Value := (Value.lookup? key entries).getD (.text preset)
  let name (setting : NameSetting) (preset : Text) : Except SettingsError Text :=
    nameOf setting (value setting.key preset)
  let host ← pathOf (value "host" defaults.host)
  let registryProperty ← name .registryProperty defaults.registryProperty
  let stylesheetProperty ← name .stylesheetProperty defaults.stylesheetProperty
  let moduleBinding ← name .moduleBinding defaults.moduleBinding
  let exportHelper ← name .exportHelper defaults.exportHelper
  let requireHelper ← name .requireHelper defaults.requireHelper
  let dynamicImportHelper ← name .dynamicImportHelper defaults.dynamicImportHelper
  let importPrefix ← name .importPrefix defaults.importPrefix
  let emitDefaultExport ←
    boolOf ((Value.lookup? "emit_default_export" entries).getD (.bool defaults.emitDefaultExport))
  return { host, registryProperty, stylesheetProperty, moduleBinding, exportHelper, requireHelper,
           dynamicImportHelper, importPrefix, emitDefaultExport }

def recordId (s : Settings) (index : Nat) : Text := s.importPrefix ++ Text.ofNat index ++ "__"

end Settings

end RegistryScript
