import RegistryScript.Export
import RegistryScript.Import
import RegistryScript.Script.Basic

/-! # Drafts and passes

* `Draft`: a script on its way to a registry script: the edits made so far, the imports found, the
  exports to be registered.
* `Pass`: an action on a draft that may meet a fault. The draft it has made by then is kept.
-/

namespace RegistryScript
set_option autoImplicit false

structure Draft where
  overlay : Overlay
  imports : ImportTable := {}
  exports : List Export := []
  exportNames : List Text := []
  helperConstants : List Text := []
  dynamicImports : Nat := 0
deriving DecidableEq, Repr

def Draft.ofText (text : Text) : Draft := { overlay := Overlay.ofText text }

abbrev Pass := ExceptT Fault (StateM Draft)

namespace Pass

def edit {α : Type} (e : Editing α) : Pass α :=
  ExceptT.mk fun draft =>
    let (result, overlay) := e.run draft.overlay
    (result.mapError .edit, { draft with overlay })

def recordFor (names : Settings) (specifier : Text) : Pass Text :=
  modifyGet fun draft =>
    let (id, imports) := draft.imports.recordFor names specifier
    (id, { draft with imports })

def bind (names : Settings) (localName specifier : Text) (importedName : Option Text) :
    Pass Unit :=
  modify fun draft =>
    { draft with imports := (draft.imports.add names localName specifier importedName).2 }

def queue (exportedName expression : Text) : Pass Unit :=
  modify fun draft =>
    { draft with
      exports := draft.exports ++ [.live exportedName expression]
      exportNames := draft.exportNames ++ [exportedName] }

def deleteNode (s : Script) (n : Node) : Pass Unit := do
  edit (Overlay.delete (← s.startOf n) (← s.stopOf n))

def replaceNode (s : Script) (n : Node) (text : Text) : Pass Unit := do
  edit (Overlay.replace (← s.startOf n) (← s.stopOf n) text)

/-- A child that has to be there for its kind to be read. -/
def demand (n : Option Node) : Except Fault Node := n.elim (.error (.missing .kind)) .ok

end Pass

end RegistryScript
