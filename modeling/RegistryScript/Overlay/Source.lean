import RegistryScript.Overlay.Basic
import RegistryScript.Value.Basic

/-! # Overlays over dynamic values

* `Overlay.ofValue`: the overlay of a value that is a text.
-/

namespace RegistryScript
set_option autoImplicit false

structure SourceError where
  typeName : Text
deriving DecidableEq, Repr

def SourceError.message (e : SourceError) : Text := "PatchBuffer expects str, got " ++ e.typeName

def Overlay.ofValue : Value → Except SourceError Overlay
  | .text t => .ok (Overlay.ofText t)
  | v => .error ⟨v.typeName⟩

end RegistryScript
