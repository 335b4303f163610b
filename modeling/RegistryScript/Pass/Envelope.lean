import RegistryScript.Pass.Basic
import RegistryScript.Value.Literal

/-! # The envelope of a registry script

* `renderHeader`: the statements in front of the body: they set the registry up, declare the
  helpers and the module's record, and look the imported modules up.
* `renderTrailer`: the statements behind the body: the registrations of the exports, the
  stylesheet, and the default export.
* `emitEnvelope`: places both around the body.
-/

namespace RegistryScript
set_option autoImplicit false

def renderLookup (names : Settings) (record : Text × Text) : Text :=
  "const " ++ record.2 ++ " = " ++ names.requireHelper ++ "(" ++ (registryKey record.1).quote ++ ")"

def setupLines (names : Settings) (moduleId : Text) : List Text :=
  let registry := names.registryProperty
  let inHost := names.host ++ "." ++ registry
  let stylesheet := names.host ++ "." ++ names.stylesheetProperty
  [ "const " ++ registry ++ " = " ++ inHost ++ " || (" ++ inHost ++ " = \x7b\x7d)",
    stylesheet ++ " = " ++ stylesheet ++ " || \"\"",
    "const " ++ names.exportHelper ++ " = (record, name, get) => " ++
      "Object.defineProperty(record, name, \x7b enumerable: true, configurable: true, get \x7d)",
    "const " ++ names.requireHelper ++ " = (id) => \x7b",
    "  if (!(id in " ++ registry ++ ")) throw new Error(\"Module not registered: \" + id)",
    "  return " ++ registry ++ "[id]",
    "\x7d",
    "const " ++ names.dynamicImportHelper ++ " = (id) => new Promise((resolve) => resolve(" ++
      names.requireHelper ++ "(id)))",
    "const " ++ names.moduleBinding ++ " = " ++ registry ++ "[" ++ moduleId.quote ++
      "] = \x7b [Symbol.toStringTag]: \"Module\" \x7d"]

def renderHeader (names : Settings) (moduleId : Text) (imports : ImportTable) : Text :=
  Text.join "\n" (setupLines names moduleId ++ imports.records.map (renderLookup names)) ++ "\n\n"

/-- The statements behind the body: the stylesheet is left out if it counts as nothing. -/
def trailerParts (names : Settings) (exports : List Export) (css : Value) : List Text :=
  exports.map (Export.render names) ++
    (if css.isTruthy then
      [names.host ++ "." ++ names.stylesheetProperty ++ " += " ++ css.literal] else []) ++
    (if names.emitDefaultExport then ["export default " ++ names.moduleBinding] else [])

def renderTrailer (names : Settings) (exports : List Export) (css : Value) : Text :=
  match trailerParts names exports css with
  | [] => []
  | parts => "\n" ++ Text.join "\n" parts ++ "\n"

def emitEnvelope (names : Settings) (moduleId : Text) (css : Value) : Pass Unit := do
  Pass.edit (Overlay.prepend (renderHeader names moduleId (← get).imports))
  let trailer := renderTrailer names (← get).exports css
  if trailer ≠ [] then Pass.edit (Overlay.append trailer)

end RegistryScript
