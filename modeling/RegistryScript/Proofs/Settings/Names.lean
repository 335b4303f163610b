import Mathlib
import RegistryScript.Pass.Envelope
import RegistryScript.Proofs.Literal.Quoted
import RegistryScript.Proofs.Registration.Numbering
import RegistryScript.Proofs.Settings.Entries
import RegistryScript.Proofs.Text.Name

/-! # The names of accepted settings

Settings are spliced into code as they stand. The test they pass takes names, and the host may be
a path of names; it also lets a line feed behind them pass, which is the only way in which code can
get something else than names.

* `Settings.IsOneLine`: no setting has a line feed in it.
* `lineFeed_not_mem_headerLine`: such settings put no line break into the header.
* `names_of_ofEntries`: what the names of accepted settings are.
-/

namespace RegistryScript
set_option autoImplicit false

namespace Settings

variable {entries : List (Text × Value)} {s : Settings}

/-! ## Line breaks -/

structure IsOneLine (s : Settings) : Prop where
  host : ('\n' : CodePoint) ∉ s.host
  name : ∀ setting, ('\n' : CodePoint) ∉ s.nameAt setting

theorem lineFeed_not_mem_quote (t : Text) : ('\n' : CodePoint) ∉ t.quote := fun h =>
  absurd (Text.printable_of_mem_quote h).1 (by decide)

theorem lineFeed_not_mem_setupLine (h : s.IsOneLine) {id line : Text}
    (hline : line ∈ setupLines s id) : ('\n' : CodePoint) ∉ line := by
  have hhost := h.host
  have hregistry := h.name .registryProperty
  have hstylesheet := h.name .stylesheetProperty
  have hmodule := h.name .moduleBinding
  have hexport := h.name .exportHelper
  have hrequire := h.name .requireHelper
  have hdynamic := h.name .dynamicImportHelper
  have hid := lineFeed_not_mem_quote id
  simp only [nameAt] at hregistry hstylesheet hmodule hexport hrequire hdynamic
  simp only [setupLines, List.mem_cons, List.not_mem_nil, or_false] at hline
  rcases hline with rfl | rfl | rfl | rfl | rfl | rfl | rfl | rfl | rfl
  -- The line that closes the function that looks modules up has no setting in it.
  case inr.inr.inr.inr.inr.inr.inl => decide
  all_goals
    simp only [List.mem_append, hhost, hregistry, hstylesheet, hmodule, hexport, hrequire, hdynamic,
      hid, or_false]
    decide

theorem lineFeed_not_mem_lookup (h : s.IsOneLine) {record : Text × Text}
    (hrecord : ('\n' : CodePoint) ∉ record.2) : ('\n' : CodePoint) ∉ renderLookup s record := by
  have hrequire := h.name .requireHelper
  have hkey := lineFeed_not_mem_quote (registryKey record.1)
  simp only [nameAt] at hrequire
  simp only [renderLookup, List.mem_append, hrecord, hrequire, hkey, or_false]
  decide

theorem lineFeed_not_mem_headerLine (h : s.IsOneLine) {id line : Text} {imports : ImportTable}
    (hrecords : ∀ record ∈ imports.records, ∃ n, record.2 = s.recordId n)
    (hname : s.importPrefix.isName = true)
    (hline : line ∈ setupLines s id ++ imports.records.map (renderLookup s)) :
    ('\n' : CodePoint) ∉ line := by
  rcases List.mem_append.1 hline with hline | hline
  · exact lineFeed_not_mem_setupLine h hline
  · obtain ⟨record, hmem, rfl⟩ := List.mem_map.1 hline
    obtain ⟨n, hn⟩ := hrecords record hmem
    refine lineFeed_not_mem_lookup h ?_
    rw [hn]
    exact Text.lineFeed_not_mem_of_isName (isName_recordId hname n)

/-! ## Accepted settings -/

/-- The names of accepted settings are names, and the host is a path of names, except for a line
feed that may stand behind each of them. The names of records are all different. If no setting has a
line feed in it, then all of them are names, the records have names, and no line of the header has a
line break in it. -/
theorem names_of_ofEntries (h : ofEntries entries = .ok s) :
    (s.host.IsPath ∨ ∃ path : Text, path.IsPath ∧ s.host = path ++ [('\n' : CodePoint)]) ∧
    (∀ setting, (s.nameAt setting).isName = true ∨
      ∃ name : Text, name.isName = true ∧ s.nameAt setting = name ++ [('\n' : CodePoint)]) ∧
    (∀ m n, s.recordId m = s.recordId n → m = n) ∧
    (s.IsOneLine →
      s.host.IsPath ∧
      (∀ setting, (s.nameAt setting).isName = true) ∧
      (∀ n, (s.recordId n).isName = true) ∧
      ∀ (id : Text) (imports : ImportTable) (specifiers : List Text), imports.Lists s specifiers →
        ∀ line ∈ setupLines s id ++ imports.records.map (renderLookup s),
          ('\n' : CodePoint) ∉ line) := by
  have htakes := ofEntries_eq_ok_iff.1 h
  have hhost := Text.isPathLine_iff.1 htakes.isPathLine
  have hname := fun setting => Text.isNameLine_iff.1 (htakes.isNameLine setting)
  refine ⟨hhost, hname, fun m n => s.recordId_injective, fun hline => ?_⟩
  have hpath := Text.of_lineFeed_not_mem hhost hline.host
  have hnames := fun setting =>
    @Text.of_lineFeed_not_mem _ (fun t => t.isName = true) (hname setting) (hline.name setting)
  refine ⟨hpath, hnames, isName_recordId (hnames .importPrefix), ?_⟩
  intro id imports specifiers hlists line
  refine lineFeed_not_mem_headerLine hline (fun record hrecord => ?_) (hnames .importPrefix)
  rw [hlists] at hrecord
  obtain ⟨n, -, hn⟩ := isRecord_of_mem hrecord
  exact ⟨n, hn⟩

theorem names_of_ofEntries_sandbox :
    ∃ s, ofEntries [("import_prefix", .text "$m"), ("host", .text "globalThis.sandbox")] = .ok s ∧
      s.IsOneLine ∧ s.host.IsPath ∧ (∀ n, (s.recordId n).isName = true) ∧
      s.recordId 12 = "$m12__" ∧ s.recordId 12 ≠ s.recordId 1 ∧
      renderLookup s ("b", s.recordId 0) = "const $m0__ = __require__(\"b\")" ∧
      ('\n' : CodePoint) ∉ renderLookup s ("b", s.recordId 0) := by
  let s : Settings := { host := "globalThis.sandbox", importPrefix := "$m" }
  have h : ofEntries [("import_prefix", .text "$m"), ("host", .text "globalThis.sandbox")] =
      .ok s := rfl
  have hline : s.IsOneLine := ⟨by decide, fun setting => by cases setting <;> decide⟩
  obtain ⟨-, -, hinj, hnames⟩ := names_of_ofEntries h
  obtain ⟨hpath, -, hrecords, hlines⟩ := hnames hline
  have hlists : ((({} : ImportTable).recordFor s "b").2).Lists s ["b"] :=
    ImportTable.Lists.recordFor ImportTable.lists_nil
  refine ⟨s, h, hline, hpath, hrecords, by decide, fun heq => absurd (hinj 12 1 heq) (by decide),
    by decide, ?_⟩
  exact hlines "a\nb" _ _ hlists _ (List.mem_append_right _ (List.mem_singleton_self _))

/-- A line feed behind a name is let pass, and breaks a line of the header. -/
theorem ofEntries_lineFeed :
    ∃ s, ofEntries [("registry_property", .text "a\n")] = .ok s ∧
      (s.nameAt .registryProperty).isName = false ∧
      ∃ line ∈ setupLines s "m", ('\n' : CodePoint) ∈ line := by
  refine ⟨{ registryProperty := "a\n" }, by rfl, by decide, _, List.mem_cons_self, ?_⟩
  decide

end Settings

end RegistryScript
