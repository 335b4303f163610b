import Mathlib
import RegistryScript.Import

/-! # Entering imports into a table

* `ImportEntry`: a local name and the export of a module that an import gives it to.
* `ImportTable.Extends`: a table keeps the records of another.
* `ImportTable.Binds`: a table holds nothing but given entries, the last one for each local name.
* `ImportTable.Binds.recordFor`, `ImportTable.Binds.enter`: looking up a record keeps the entries,
  and entering one adds it.
* `ImportTable.Grows`, `ImportTable.Binds.grows`: so it is for any run of these two.
-/

namespace RegistryScript
set_option autoImplicit false

/-- A local name and the export that it is given to; without one it is given to the whole module. -/
structure ImportEntry where
  localName : Text
  specifier : Text
  importedName : Option Text
deriving DecidableEq, Repr

namespace ImportTable

variable {names : Settings} {t t' t'' : ImportTable} {specifier id a : Text} {e : ImportEntry}
  {es : List ImportEntry}

/-! ## Records -/

def Extends (t t' : ImportTable) : Prop :=
  ∀ specifier id, t.record? specifier = some id → t'.record? specifier = some id

theorem Extends.refl : t.Extends t := fun _ _ h => h

theorem Extends.trans (h : t.Extends t') (h' : t'.Extends t'') : t.Extends t'' :=
  fun specifier id hr => h' specifier id (h specifier id hr)

theorem record?_recordFor :
    (t.recordFor names specifier).2.record? specifier = some (t.recordFor names specifier).1 := by
  rw [recordFor]
  cases hr : t.record? specifier with
  | some id => exact hr
  | none =>
    rw [record?, Option.map_eq_none_iff] at hr
    rw [record?, List.find?_append, hr]
    simp

theorem extends_recordFor : t.Extends (t.recordFor names specifier).2 := by
  intro specifier' id h
  rw [recordFor]
  cases hr : t.record? specifier with
  | some id' => exact h
  | none =>
    obtain ⟨r, hr', rfl⟩ := Option.map_eq_some_iff.1 h
    rw [record?, List.find?_append, hr']
    rfl

theorem bindings_recordFor : (t.recordFor names specifier).2.bindings = t.bindings := by
  rw [recordFor]
  split <;> rfl

theorem get?_recordFor : (t.recordFor names specifier).2.get? a = t.get? a := by
  rw [get?, bindings_recordFor, get?]

/-! ## Bindings -/

theorem find?_setBinding (b : ImportBinding) (bs : List ImportBinding) :
    (setBinding b bs).find? (fun c => c.localName = a) =
      if b.localName = a then some b else bs.find? fun c => c.localName = a := by
  induction bs with
  | nil => by_cases h : b.localName = a <;> simp [setBinding, h]
  | cons c bs ih =>
    rw [setBinding]
    by_cases hc : c.localName = b.localName
    · rw [if_pos hc, List.find?_cons, List.find?_cons, hc]
      by_cases h : b.localName = a <;> simp [h]
    · rw [if_neg hc, List.find?_cons, List.find?_cons, ih]
      by_cases h : b.localName = a
      · have hne : c.localName ≠ a := h ▸ hc
        simp [h, hne]
      · simp [h]

def enter (names : Settings) (t : ImportTable) (e : ImportEntry) : ImportTable :=
  (t.add names e.localName e.specifier e.importedName).2

def bindingOf (t : ImportTable) (e : ImportEntry) : ImportBinding :=
  ⟨e.localName, (t.record? e.specifier).getD [], e.specifier, e.importedName⟩

theorem record?_enter :
    (t.enter names e).record? specifier = (t.recordFor names e.specifier).2.record? specifier := rfl

theorem get?_enter :
    (t.enter names e).get? a =
      if e.localName = a then some ((t.enter names e).bindingOf e) else t.get? a := by
  have hbinding : (t.enter names e).bindingOf e =
      ⟨e.localName, (t.recordFor names e.specifier).1, e.specifier, e.importedName⟩ := by
    rw [bindingOf, record?_enter, record?_recordFor]
    rfl
  have hget : (t.enter names e).get? a = (setBinding
      ⟨e.localName, (t.recordFor names e.specifier).1, e.specifier, e.importedName⟩
        (t.recordFor names e.specifier).2.bindings).find? fun c => c.localName = a := rfl
  rw [hget, find?_setBinding, bindings_recordFor, hbinding, get?]

/-! ## Entries -/

/-- A table holds nothing but given entries, the last one for each local name. -/
structure Binds (t : ImportTable) (es : List ImportEntry) : Prop where
  recorded : ∀ e ∈ es, ∃ id, t.record? e.specifier = some id
  get?_eq : ∀ a, t.get? a = (es.filter fun e => e.localName = a).getLast?.map t.bindingOf

theorem binds_nil : ({} : ImportTable).Binds [] :=
  ⟨fun _ he => absurd he List.not_mem_nil, fun _ => rfl⟩

theorem bindingOf_of_extends (h : t.Extends t') (he : ∃ id, t.record? e.specifier = some id) :
    t'.bindingOf e = t.bindingOf e := by
  obtain ⟨id, hid⟩ := he
  rw [bindingOf, bindingOf, h _ _ hid, hid]

theorem Binds.map_bindingOf (h : t.Binds es) (hext : t.Extends t') :
    (es.filter fun e => e.localName = a).getLast?.map t'.bindingOf =
      (es.filter fun e => e.localName = a).getLast?.map t.bindingOf := by
  cases hlast : (es.filter fun e => e.localName = a).getLast? with
  | none => rfl
  | some e =>
    have hmem := (List.mem_filter.1 (List.mem_of_getLast? hlast)).1
    rw [Option.map_some, Option.map_some, bindingOf_of_extends hext (h.recorded e hmem)]

theorem Binds.of_extends (h : t.Binds es) (hext : t.Extends t')
    (hget : ∀ a, t'.get? a = t.get? a) : t'.Binds es where
  recorded e he := (h.recorded e he).imp fun id hid => hext _ _ hid
  get?_eq a := by rw [hget, h.get?_eq, h.map_bindingOf hext]

theorem Binds.recordFor (h : t.Binds es) : (t.recordFor names specifier).2.Binds es :=
  h.of_extends extends_recordFor fun _ => get?_recordFor

theorem extends_enter : t.Extends (t.enter names e) := extends_recordFor

theorem Binds.enter (h : t.Binds es) : (t.enter names e).Binds (es ++ [e]) where
  recorded e' he' := by
    rcases List.mem_append.1 he' with he' | he'
    · exact (h.recorded e' he').imp fun id hid => extends_enter _ _ hid
    · rw [List.mem_singleton.1 he']
      exact ⟨_, record?_recordFor⟩
  get?_eq a := by
    rw [get?_enter, List.filter_append, List.filter_singleton]
    by_cases ha : e.localName = a
    · simp [ha]
    · simp only [ha, if_false, decide_false, cond_false, List.append_nil]
      rw [h.get?_eq, h.map_bindingOf extends_enter]

/-! ## Runs -/

/-- A table becomes another by looking records up and entering entries, one after another. -/
inductive Grows (names : Settings) (t : ImportTable) : List ImportEntry → ImportTable → Prop
  | refl : Grows names t [] t
  | recordFor {es : List ImportEntry} {t' : ImportTable} (specifier : Text) :
    Grows names t es t' → Grows names t es (t'.recordFor names specifier).2
  | enter {es : List ImportEntry} {t' : ImportTable} (e : ImportEntry) :
    Grows names t es t' → Grows names t (es ++ [e]) (t'.enter names e)

theorem Grows.trans {es' : List ImportEntry} (h : t.Grows names es t')
    (h' : t'.Grows names es' t'') : t.Grows names (es ++ es') t'' := by
  induction h' with
  | refl => rwa [List.append_nil]
  | recordFor specifier _ ih => exact ih.recordFor specifier
  | enter e _ ih =>
    rw [← List.append_assoc]
    exact ih.enter e

theorem Binds.grows {before : List ImportEntry} (h : t.Binds before) (hg : t.Grows names es t') :
    t'.Binds (before ++ es) := by
  induction hg with
  | refl => rwa [List.append_nil]
  | recordFor _ _ ih => exact ih.recordFor
  | enter _ _ ih =>
    rw [← List.append_assoc]
    exact ih.enter

end ImportTable

end RegistryScript
