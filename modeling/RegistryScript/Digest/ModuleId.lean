import RegistryScript.Digest.Sha256
import RegistryScript.Text.Quoted
import RegistryScript.Text.Utf8

/-! # Module ids from contents

* `moduleIdFor`: a module's id, made from its script and its stylesheet: the first sixteen
  hexadecimal digits of the digest of both, a zero byte between them.
-/

namespace RegistryScript
set_option autoImplicit false

def idMessage (script css : Text) : List UInt8 := script.utf8 ++ 0 :: css.utf8

def hex8 (word : UInt32) : Text := hex4 (word.toNat / 0x10000) ++ hex4 (word.toNat % 0x10000)

def moduleIdFor (script css : Text) : Text :=
  let digest := Sha256.digest (idMessage script css)
  hex8 digest.a ++ hex8 digest.b

end RegistryScript
