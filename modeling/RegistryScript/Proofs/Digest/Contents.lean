import Mathlib
import RegistryScript.Digest.ModuleId

/-! # The contents behind a module id

A module id is made from the bytes of a script and a stylesheet with a zero byte between them. UTF-8
tells texts apart, but a zero byte may also stand for a code point of either text.

* `CodePoint.utf8_append_inj`: no code point's bytes are the beginning of another one's.
* `Text.utf8_injective`: different texts have different bytes, surrogates included.
* `Shifted`: a script goes on, behind a zero, where another one ends, and the stylesheets make up
  for it.
* `idMessage_eq_iff`: the bytes of two contents agree exactly if the contents do or one is the other
  one shifted; all other contents share an id only by a collision of the digest.
* `idMessage_zeroAtBorder`: a script and a stylesheet with a zero between them.
-/

namespace RegistryScript
set_option autoImplicit false

/-! ## UTF-8 tells texts apart -/

namespace CodePoint

def sizeOfLead (lead : UInt8) : Nat :=
  if lead.toNat < 0x80 then 1 else if lead.toNat < 0xE0 then 2 else if lead.toNat < 0xF0 then 3 else 4

theorem exists_lead (c : CodePoint) :
    ∃ lead trail, c.utf8 = lead :: trail ∧ sizeOfLead lead = c.utf8Size := by
  have hc := c.isLt
  simp only [utf8, utf8Size]
  split_ifs
  all_goals
    refine ⟨_, _, rfl, ?_⟩
    simp only [sizeOfLead, UInt8.toNat_ofNat']
    split_ifs <;> omega

def valueOfBytes : List UInt8 → Nat
  | [a] => a.toNat
  | [a, b] => (a.toNat - 0xC0) * 0x40 + (b.toNat - 0x80)
  | [a, b, c] => (a.toNat - 0xE0) * 0x1000 + (b.toNat - 0x80) * 0x40 + (c.toNat - 0x80)
  | [a, b, c, d] =>
    (a.toNat - 0xF0) * 0x40000 + (b.toNat - 0x80) * 0x1000 + (c.toNat - 0x80) * 0x40 +
      (d.toNat - 0x80)
  | _ => 0

theorem valueOfBytes_utf8 (c : CodePoint) : valueOfBytes c.utf8 = c.val := by
  have hc := c.isLt
  simp only [utf8]
  -- the byte patterns of the definition overlap, so its equations are read off with `change`
  split_ifs
  · change (UInt8.ofNat c.val).toNat = c.val
    rw [UInt8.toNat_ofNat']
    omega
  · change ((UInt8.ofNat (0xC0 + c.val / 0x40)).toNat - 0xC0) * 0x40 +
      ((trailByte c.val 1).toNat - 0x80) = c.val
    simp only [trailByte, UInt8.toNat_ofNat', Nat.reducePow]
    omega
  · change ((UInt8.ofNat (0xE0 + c.val / 0x1000)).toNat - 0xE0) * 0x1000 +
      ((trailByte c.val 0x40).toNat - 0x80) * 0x40 + ((trailByte c.val 1).toNat - 0x80) = c.val
    simp only [trailByte, UInt8.toNat_ofNat', Nat.reducePow]
    omega
  · change ((UInt8.ofNat (0xF0 + c.val / 0x40000)).toNat - 0xF0) * 0x40000 +
      ((trailByte c.val 0x1000).toNat - 0x80) * 0x1000 +
      ((trailByte c.val 0x40).toNat - 0x80) * 0x40 + ((trailByte c.val 1).toNat - 0x80) = c.val
    simp only [trailByte, UInt8.toNat_ofNat', Nat.reducePow]
    omega

theorem utf8_injective : Function.Injective utf8 := fun c d h => by
  rw [Fin.ext_iff, ← valueOfBytes_utf8 c, ← valueOfBytes_utf8 d, h]

theorem utf8_append_inj {c d : CodePoint} {a b : List UInt8} (h : c.utf8 ++ a = d.utf8 ++ b) :
    c = d ∧ a = b := by
  obtain ⟨lead, trail, hc, hsize⟩ := exists_lead c
  obtain ⟨lead', trail', hd, hsize'⟩ := exists_lead d
  have hlead : lead = lead' := by
    rw [hc, hd] at h
    exact (List.cons.inj h).1
  have hlength : c.utf8.length = d.utf8.length := by
    rw [length_utf8, length_utf8, ← hsize, ← hsize', hlead]
  obtain ⟨hcd, hab⟩ := List.append_inj h hlength
  exact ⟨utf8_injective hcd, hab⟩

end CodePoint

namespace Text

theorem utf8_injective : Function.Injective utf8 := by
  intro t
  induction t with
  | nil =>
    intro u h
    have hlength := congrArg List.length h
    cases u with
    | nil => rfl
    | cons d u =>
      obtain ⟨lead, trail, hd, -⟩ := CodePoint.exists_lead d
      simp [utf8, hd] at hlength
  | cons c t ih =>
    intro u h
    cases u with
    | nil =>
      obtain ⟨lead, trail, hc, -⟩ := CodePoint.exists_lead c
      simp [utf8, hc] at h
    | cons d u =>
      have happend : c.utf8 ++ utf8 t = d.utf8 ++ utf8 u := h
      obtain ⟨rfl, htail⟩ := CodePoint.utf8_append_inj happend
      rw [ih htail]

end Text

/-! ## Messages -/

theorem idMessage_eq_utf8 (script css : Text) :
    idMessage script css = Text.utf8 (script ++ 0 :: css) := by
  simp only [idMessage, Text.utf8, List.flatMap_append, List.flatMap_cons]
  rfl

/-- One script goes on, behind a zero, where the other ends; the stylesheet of the other starts with
what it goes on with. -/
def Shifted (script css script' css' : Text) : Prop :=
  ∃ t : Text, script' = script ++ 0 :: t ∧ css = t ++ 0 :: css'

def idOfMessage (message : List UInt8) : Text :=
  hex8 (Sha256.digest message).a ++ hex8 (Sha256.digest message).b

/-- Different messages make the same id. -/
def Collide (message message' : List UInt8) : Prop :=
  message ≠ message' ∧ idOfMessage message = idOfMessage message'

theorem append_zero_eq_iff {script css script' css' : Text} :
    script ++ 0 :: css = script' ++ 0 :: css' ↔
      (script, css) = (script', css') ∨ Shifted script css script' css' ∨
        Shifted script' css' script css := by
  rw [List.append_eq_append_iff]
  constructor
  · rintro (⟨t, ht, hcss⟩ | ⟨t, ht, hcss⟩)
    · cases t with
      | nil =>
        obtain ⟨-, rfl⟩ := List.cons.inj hcss
        exact .inl (by rw [ht, List.append_nil])
      | cons c t =>
        obtain ⟨rfl, htail⟩ := List.cons.inj hcss
        exact .inr (.inl ⟨t, ht, htail⟩)
    · cases t with
      | nil =>
        obtain ⟨-, rfl⟩ := List.cons.inj hcss
        exact .inl (by rw [ht, List.append_nil])
      | cons c t =>
        obtain ⟨rfl, htail⟩ := List.cons.inj hcss
        exact .inr (.inr ⟨t, ht, htail⟩)
  · rintro (h | ⟨t, rfl, rfl⟩ | ⟨t, rfl, rfl⟩)
    · obtain ⟨rfl, rfl⟩ := Prod.mk.inj h
      exact .inl ⟨[], by simp, by simp⟩
    · exact .inl ⟨0 :: t, rfl, rfl⟩
    · exact .inr ⟨0 :: t, rfl, rfl⟩

/-- The bytes that an id is made from are the same for two contents exactly if the contents are the
same or one of the scripts goes on, behind a zero, with what the stylesheet of the other starts
with. The ids are the same in these cases and if the digest of different bytes collides. -/
theorem idMessage_eq_iff (script css script' css' : Text) :
    (idMessage script css = idMessage script' css' ↔
      (script, css) = (script', css') ∨ Shifted script css script' css' ∨
        Shifted script' css' script css) ∧
    (moduleIdFor script css = moduleIdFor script' css' ↔
      ((script, css) = (script', css') ∨ Shifted script css script' css' ∨
        Shifted script' css' script css) ∨
      Collide (idMessage script css) (idMessage script' css')) := by
  have hiff : idMessage script css = idMessage script' css' ↔
      (script, css) = (script', css') ∨ Shifted script css script' css' ∨
        Shifted script' css' script css := by
    rw [idMessage_eq_utf8, idMessage_eq_utf8, Text.utf8_injective.eq_iff, append_zero_eq_iff]
  refine ⟨hiff, ?_⟩
  rw [← hiff]
  constructor
  · intro hid
    by_cases heq : idMessage script css = idMessage script' css'
    · exact .inl heq
    · exact .inr ⟨heq, hid⟩
  · rintro (heq | ⟨-, hid⟩)
    · exact congrArg idOfMessage heq
    · exact hid

/-- A script that ends in a zero and no stylesheet, and the same script without the zero and a
stylesheet of one zero, have the same bytes. -/
theorem idMessage_zeroAtBorder :
    let contents : Text × Text := (['a', '\x00'], [])
    let contents' : Text × Text := (['a'], ['\x00'])
    contents ≠ contents' ∧
      idMessage contents.1 contents.2 = idMessage contents'.1 contents'.2 := by
  decide

end RegistryScript
