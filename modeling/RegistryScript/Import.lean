import RegistryScript.Settings.Basic
import RegistryScript.Specifier

/-! # Imports: bindings and records

Each module that a script imports gets one record, and each local name that stands for one of its
exports is bound to the expression that reads it.

* `ImportBinding`: a local name, and the export of a record it stands for.
* `ImportTable`: the records by specifier and the bindings by local name, both in the order of
  first appearance. A name that is bound again keeps its place.
* `ImportTable.recordFor`: the record of a specifier, a new one if there is none.
* `ImportTable.add`: binds a name.
-/

namespace RegistryScript
set_option autoImplicit false

structure ImportBinding where
  localName : Text
  recordId : Text
  specifier : Text
  /-- The export that is read from the record; none if the name stands for the record itself. -/
  importedName : Option Text := none
deriving DecidableEq, Repr

namespace ImportBinding

def isNamespace (b : ImportBinding) : Bool := b.importedName.isNone

def expression (b : ImportBinding) : Text :=
  match b.importedName with
  | none => b.recordId
  | some name => memberAccess b.recordId name

end ImportBinding

structure ImportTable where
  records : List (Text × Text) := []
  bindings : List ImportBinding := []
deriving DecidableEq, Repr, Inhabited

namespace ImportTable

def record? (t : ImportTable) (specifier : Text) : Option Text :=
  (t.records.find? fun r => r.1 = specifier).map Prod.snd

def get? (t : ImportTable) (name : Text) : Option ImportBinding :=
  t.bindings.find? fun b => b.localName = name

def expression? (t : ImportTable) (name : Text) : Option Text :=
  (t.get? name).map ImportBinding.expression

/-- The name of a specifier's record, and the table with that record in it. Records are numbered
in the order of their first appearance. -/
def recordFor (names : Settings) (specifier : Text) (t : ImportTable) : Text × ImportTable :=
  match t.record? specifier with
  | some id => (id, t)
  | none =>
    let id := names.recordId t.records.length
    (id, { t with records := t.records ++ [(specifier, id)] })

/-- Puts a binding in the place of the one of the same name, or behind all others. -/
def setBinding (b : ImportBinding) : List ImportBinding → List ImportBinding
  | [] => [b]
  | c :: bs => if c.localName = b.localName then b :: bs else c :: setBinding b bs

def add (names : Settings) (localName specifier : Text) (importedName : Option Text)
    (t : ImportTable) : ImportBinding × ImportTable :=
  let (recordId, t) := t.recordFor names specifier
  let binding := { localName, recordId, specifier, importedName }
  (binding, { t with bindings := setBinding binding t.bindings })

end ImportTable

end RegistryScript
