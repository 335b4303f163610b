import RegistryScript.Settings.Basic
import RegistryScript.Text.Quoted

/-! # Exports: registrations behind the body of a script

* `Export`: what is registered once the body has run: a name with the expression its value is read
  from, or all names of another module's record but `default`.
* `Export.render`: the statement that registers it.
-/

namespace RegistryScript
set_option autoImplicit false

inductive Export
  /-- A name whose value is read from an expression whenever it is asked for. -/
  | live (exportedName expression : Text)
  /-- All names of a record but `default` that are not registered already. -/
  | star (recordId specifier : Text)
deriving DecidableEq, Repr

def Export.render (names : Settings) : Export → Text
  | .live exportedName expression =>
    names.exportHelper ++ "(" ++ names.moduleBinding ++ ", " ++ exportedName.quote ++
      ", () => " ++ expression ++ ")"
  | .star recordId _ =>
    "for (const key of Object.keys(" ++ recordId ++ ")) \x7b\n" ++
      "  if (key !== \"default\" && !Object.prototype.hasOwnProperty.call(" ++
        names.moduleBinding ++ ", key)) \x7b\n" ++
      "    " ++ names.exportHelper ++ "(" ++ names.moduleBinding ++ ", key, () => " ++ recordId ++
        "[key])\n" ++
      "  \x7d\n" ++
      "\x7d"

end RegistryScript
