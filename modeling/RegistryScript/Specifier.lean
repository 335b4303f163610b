import RegistryScript.Text.Name
import RegistryScript.Text.Quoted

/-! # Module specifiers and properties of module records

* `isRelative`: a specifier that names a module of the same registry.
* `registryKey`: the key a specifier is looked up under: a relative one without its marker.
* `memberAccess`: the expression that reads a property of an object.
-/

namespace RegistryScript
set_option autoImplicit false

def isRelative (specifier : Text) : Bool := List.isPrefixOf ("./" : Text) specifier

/-- The key a specifier is looked up under: a leading dot goes together with all slashes behind it
if there is one; other specifiers are keys as they stand. -/
def registryKey (specifier : Text) : Text :=
  if isRelative specifier then (specifier.drop 1).dropWhile fun c : CodePoint => c = '/'
  else specifier

/-- The expression that reads a property: behind a dot if the property passes as a name, in
brackets otherwise. -/
def memberAccess (object property : Text) : Text :=
  if property.isNameLine then object ++ "." ++ property
  else object ++ "[" ++ property.quote ++ "]"

end RegistryScript
