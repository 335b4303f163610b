import Mathlib
import RegistryScript.Proofs.Registration.Table
import RegistryScript.Proofs.Text.Name

/-! # The numbering of records

A table that has been asked for the records of some specifiers has one record for each of them,
numbered in the order in which they were first asked for.

* `numbered`: specifiers with the names of their records.
* `Settings.IsRecord`: the name of a record belongs to one of several specifiers.
* `ImportTable.Lists`: a table has the records of given specifiers.
* `Lists.recordFor`: looking a record up adds its specifier to them.
* `Settings.recordId_injective`: records of different numbers have different names.
* `Settings.isName_recordId`: records that are called by a name have names.
-/

namespace RegistryScript
set_option autoImplicit false

/-! ## First appearances -/

section FirstAppearances

variable {α : Type} [BEq α] [LawfulBEq α] {xs : List α} {x : α}

theorem eraseDups_concat_of_mem (h : x ∈ xs) : (xs ++ [x]).eraseDups = xs.eraseDups := by
  have hnone : List.removeAll [x] xs = [] := by simp [List.removeAll, h]
  rw [List.eraseDups_append, hnone, List.eraseDups_nil, List.append_nil]

theorem eraseDups_concat_of_not_mem (h : x ∉ xs) :
    (xs ++ [x]).eraseDups = xs.eraseDups ++ [x] := by
  have hone : List.removeAll [x] xs = [x] := by simp [List.removeAll, h]
  rw [List.eraseDups_append, hone]
  rfl

theorem nodup_eraseDups (xs : List α) : xs.eraseDups.Nodup := by
  induction xs using List.reverseRecOn with
  | nil => exact List.nodup_nil
  | append_singleton xs x ih =>
    by_cases h : x ∈ xs
    · rwa [eraseDups_concat_of_mem h]
    · rw [eraseDups_concat_of_not_mem h, List.nodup_append]
      refine ⟨ih, List.nodup_singleton x, fun a ha b hb hab => h ?_⟩
      rw [← List.mem_singleton.1 hb, ← hab]
      exact List.mem_eraseDups.1 ha

end FirstAppearances

/-! ## Names of records -/

theorem CodePoint.ofChar_injective : Function.Injective CodePoint.ofChar := by
  intro a b h
  have hval : (ofChar a).val = (ofChar b).val := by rw [h]
  exact Char.toNat_inj.1 hval

namespace Settings

variable (names : Settings)

theorem recordId_injective {i j : Nat} (h : names.recordId i = names.recordId j) : i = j := by
  have hdigits : Text.ofNat i = Text.ofNat j :=
    List.append_cancel_left (List.append_cancel_right h)
  have hchars : Nat.toDigits 10 i = Nat.toDigits 10 j :=
    List.map_injective_iff.2 CodePoint.ofChar_injective hdigits
  rw [← Nat.ofDigitChars_ten_toDigits (n := i), hchars, Nat.ofDigitChars_ten_toDigits]

theorem isNamePart_of_mem_number {c : CodePoint} {n : Nat} (h : c ∈ Text.ofNat n ++ "__") :
    c.isNamePart = true := by
  rcases List.mem_append.1 h with h | h
  · exact Text.isNamePart_of_mem_ofNat h
  · have hline : c = '_' ∨ c = '_' := by simpa [Text.ofString] using h
    rcases hline with rfl | rfl <;> decide

theorem isName_recordId {names : Settings} (h : names.importPrefix.isName = true) (n : Nat) :
    (names.recordId n).isName = true := by
  rw [recordId, List.append_assoc]
  exact Text.isName_append h fun _ => isNamePart_of_mem_number

/-- A name is that of the record of one of several specifiers, numbered by its place. -/
def IsRecord (specifiers : List Text) (specifier id : Text) : Prop :=
  ∃ k : Nat, specifiers[k]? = some specifier ∧ id = names.recordId k

def numbered (specifiers : List Text) : List (Text × Text) :=
  specifiers.zipIdx.map fun p => (p.1, names.recordId p.2)

variable {names} {specifiers : List Text} {specifier id : Text}

theorem numbered_concat :
    names.numbered (specifiers ++ [specifier]) =
      names.numbered specifiers ++ [(specifier, names.recordId specifiers.length)] := by
  simp [numbered, List.zipIdx_append]

theorem length_numbered : (names.numbered specifiers).length = specifiers.length := by
  simp [numbered]

theorem map_fst_numbered : (names.numbered specifiers).map Prod.fst = specifiers := by
  simp [numbered, Function.comp_def]

theorem nodup_map_snd_numbered (names : Settings) (specifiers : List Text) :
    ((names.numbered specifiers).map Prod.snd).Nodup := by
  have hids : (names.numbered specifiers).map Prod.snd =
      (List.range' 0 specifiers.length).map names.recordId := by
    rw [← List.zipIdx_map_snd, List.map_map, numbered, List.map_map]
    rfl
  rw [hids]
  exact List.Nodup.map (fun _ _ => names.recordId_injective) (List.nodup_range' 1)

theorem isRecord_of_mem (h : (specifier, id) ∈ names.numbered specifiers) :
    names.IsRecord specifiers specifier id := by
  obtain ⟨⟨sp, k⟩, hmem, heq⟩ := List.mem_map.1 h
  obtain ⟨rfl, rfl⟩ := Prod.mk.inj heq
  exact ⟨k, List.mem_zipIdx_iff_getElem?.1 hmem, rfl⟩

end Settings

/-! ## Tables -/

namespace ImportTable

variable {names : Settings} {t t' : ImportTable} {specifiers : List Text} {specifier id : Text}

/-- A table has a record for each of the specifiers that it was asked for, and no other. -/
def Lists (names : Settings) (t : ImportTable) (specifiers : List Text) : Prop :=
  t.records = names.numbered specifiers.eraseDups

theorem lists_nil : ({} : ImportTable).Lists names [] := rfl

theorem Lists.of_records_eq (h : t.Lists names specifiers) (heq : t'.records = t.records) :
    t'.Lists names specifiers := heq.trans h

theorem Lists.isRecord (h : t.Lists names specifiers) (hr : t.record? specifier = some id) :
    names.IsRecord specifiers.eraseDups specifier id := by
  obtain ⟨r, hfind, rfl⟩ := Option.map_eq_some_iff.1 hr
  obtain rfl : r.1 = specifier := by simpa using List.find?_some hfind
  have hmem := List.mem_of_find?_eq_some hfind
  rw [h] at hmem
  exact Settings.isRecord_of_mem hmem

theorem Lists.mem_of_record? (h : t.Lists names specifiers) (hr : t.record? specifier = some id) :
    specifier ∈ specifiers := by
  obtain ⟨k, hk, -⟩ := h.isRecord hr
  exact List.mem_eraseDups.1 (List.mem_of_getElem? hk)

theorem Lists.not_mem_of_record? (h : t.Lists names specifiers)
    (hr : t.record? specifier = none) : specifier ∉ specifiers := by
  intro hmem
  rw [record?, Option.map_eq_none_iff, List.find?_eq_none] at hr
  have hin : specifier ∈ (names.numbered specifiers.eraseDups).map Prod.fst := by
    rw [Settings.map_fst_numbered]
    exact List.mem_eraseDups.2 hmem
  rw [← h] at hin
  obtain ⟨r, hr', rfl⟩ := List.mem_map.1 hin
  exact hr r hr' (decide_eq_true rfl)

theorem Lists.of_record? (h : t.Lists names specifiers) (hr : t.record? specifier = some id) :
    t.Lists names (specifiers ++ [specifier]) := by
  rw [Lists, eraseDups_concat_of_mem (h.mem_of_record? hr)]
  exact h

theorem Lists.recordFor (h : t.Lists names specifiers) :
    (t.recordFor names specifier).2.Lists names (specifiers ++ [specifier]) := by
  rw [ImportTable.recordFor]
  cases hr : t.record? specifier with
  | some id => exact h.of_record? hr
  | none =>
    have hlength : t.records.length = specifiers.eraseDups.length := by
      rw [h, Settings.length_numbered]
    simp only [Lists, hlength]
    rw [eraseDups_concat_of_not_mem (h.not_mem_of_record? hr), Settings.numbered_concat, h]

end ImportTable

end RegistryScript
