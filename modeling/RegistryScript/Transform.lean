import RegistryScript.Pass.DynamicImports
import RegistryScript.Pass.Envelope
import RegistryScript.Pass.Exports
import RegistryScript.Pass.Imports
import RegistryScript.Pass.References
import RegistryScript.Script.Diagnostic

/-! # From module to registry script

* `transform`: the registry script of a module: its imports become lookups, its exports
  registrations, its references to imports reads of the looked-up records.
* `TransformError`: why there is none.
-/

namespace RegistryScript
set_option autoImplicit false

inductive TransformError
  | noModuleId
  | noText (typeName : Text)
  | parse (e : ParseError)
  | conflict (moduleId : Text) (e : EditError)
  | fault (f : Fault)

def TransformError.message : TransformError → Text
  | .noModuleId => "module_id must be a non-empty string"
  | .noText typeName => "'" ++ typeName ++ "' object has no attribute 'encode'"
  | .parse e => e.message
  | .conflict moduleId e => "Failed to rewrite " ++ moduleId ++ ": " ++ e.message
  | .fault f => f.message

structure RegistryModule where
  code : Text
  moduleId : Text
  exports : List Text
  imports : List Text
  dynamicImports : Nat
  references : Nat
deriving DecidableEq, Repr

/-- How a script is read: from a text to its syntax tree, if it has one. -/
abbrev Reader := Text → Option Node

/-- The script of a text, or what is wrong with it. A text that the reader finds no tree for has no
diagnostics. -/
def readScript (read : Reader) (moduleId text : Text) : Except TransformError Script := do
  match read text with
  | none => throw (.parse ⟨moduleId, []⟩)
  | some root =>
    let script := Script.ofTree text root
    match ← script.diagnostics.mapError .fault with
    | [] => return script
    | diagnostics => throw (.parse ⟨moduleId, diagnostics⟩)

def convertBody (s : Script) (names : Settings) : Pass Nat := do
  -- imports come first: exports and references look names up in the table that this pass fills
  collectImports s names
  registerExports s names
  let references ← rebindReferences s
  let _ ← redirectImports s names
  return references

/-- The error of a fault: overlapping edits are a conflict. -/
def TransformError.ofFault (moduleId : Text) : Fault → TransformError
  | .edit e@(.overlap _ _ _) => .conflict moduleId e
  | f => .fault f

def convert (names : Settings) (moduleId : Text) (css : Value) (s : Script) :
    Except TransformError (Nat × Draft) :=
  match (convertBody s names).run (Draft.ofText s.text) with
  | (.error f, _) => .error (.ofFault moduleId f)
  | (.ok references, draft) =>
    match (emitEnvelope names moduleId css).run draft with
    | (.error f, _) => .error (.fault f)
    | (.ok _, draft) => .ok (references, draft)

def RegistryModule.ofDraft (moduleId : Text) (references : Nat) (draft : Draft) : RegistryModule :=
  { code := draft.overlay.serialize
    moduleId
    exports := draft.exportNames
    imports := draft.imports.records.map Prod.fst
    dynamicImports := draft.dynamicImports
    references }

/-- The registry script of a module. The id is checked before the script is looked at. -/
def transform (read : Reader) (names : Settings) (script moduleId css : Value) :
    Except TransformError RegistryModule := do
  match moduleId with
  | .text id@(_ :: _) =>
    match script with
    | .text text =>
      let (references, draft) ← convert names id css (← readScript read id text)
      return RegistryModule.ofDraft id references draft
    | _ => throw (.noText script.typeName)
  | _ => throw .noModuleId

end RegistryScript
