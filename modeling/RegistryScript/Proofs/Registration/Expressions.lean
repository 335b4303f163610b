import Mathlib
import RegistryScript.Proofs.Literal.Quoted
import RegistryScript.Proofs.Registration.Records
import RegistryScript.Proofs.Text.Name

/-! # Expressions of imports

An imported name stands for the record of a module or for a property of it. A blank stands in such
an expression only inside a quoted property, which is why the constant that declares a name tells
the name and the expression.

* `Settings.IsExpression`: the expressions that imports are read from.
* `isExpression_of_get?`: the expressions of collected imports.
* `IsExpression.isName_of_isNameLine`: the guard of generated code takes no such expression for a
  name that is none.
* `Text.isChain_quoted`: inside a quoted text each double quote stands behind a backslash.
* `constantText_inj`: different constants have different texts.
-/

namespace RegistryScript
set_option autoImplicit false

/-! ## Quoted texts -/

def GuardsQuote (a b : CodePoint) : Prop := b = '"' → a = '\\'

namespace Text

theorem isChain_of_not_mem {t : Text} (h : ('"' : CodePoint) ∉ t) : t.IsChain GuardsQuote := by
  refine (List.pairwise_of_forall_mem_list fun a _ b hb hquote => ?_).isChain
  rw [hquote] at hb
  exact absurd hb h

theorem not_mem_hex4 (n : Nat) : ('"' : CodePoint) ∉ hex4 n := by
  intro h
  have hdigit := (hex4_spec h).1
  exact absurd hdigit (by decide)

theorem quoted_cases (c : CodePoint) :
    (∃ letter : CodePoint, c.quoted = "\\" ++ [letter]) ∨ ('"' : CodePoint) ∉ c.quoted := by
  unfold CodePoint.quoted
  split_ifs with h₁ h₂ h₃ h₄ h₅ h₆ h₇ h₈
  · exact .inl ⟨_, rfl⟩
  · exact .inl ⟨_, rfl⟩
  · exact .inl ⟨_, rfl⟩
  · exact .inl ⟨_, rfl⟩
  · exact .inl ⟨_, rfl⟩
  · exact .inl ⟨_, rfl⟩
  · exact .inl ⟨_, rfl⟩
  · refine .inr fun h => h₁ ?_
    exact (List.mem_singleton.1 h).symm
  · refine .inr fun h => ?_
    obtain ⟨unit, -, h⟩ := List.mem_flatMap.1 h
    rcases List.mem_append.1 h with h | h
    · exact absurd h (by decide)
    · exact not_mem_hex4 unit h

theorem isChain_quoted (t : Text) :
    (t.flatMap CodePoint.quoted).IsChain GuardsQuote ∧
      ∀ c ∈ (t.flatMap CodePoint.quoted).head?, c ≠ '"' := by
  induction t with
  | nil => exact ⟨.nil, fun c hc => nomatch hc⟩
  | cons a t ih =>
    obtain ⟨hchain, hhead⟩ := ih
    have hquoted : a.quoted.IsChain GuardsQuote ∧ ∀ c ∈ a.quoted.head?, c ≠ '"' := by
      rcases quoted_cases a with ⟨letter, heq⟩ | hnone
      · rw [heq]
        refine ⟨.cons_cons (fun _ => rfl) (.singleton _), fun c hc => ?_⟩
        rw [← Option.some.inj hc]
        decide
      · exact ⟨isChain_of_not_mem hnone, fun c hc heq =>
          hnone (heq ▸ List.mem_of_mem_head? hc)⟩
    rw [List.flatMap_cons]
    refine ⟨List.isChain_append.2 ⟨hquoted.1, hchain, fun _ _ b hb hquote =>
      absurd hquote (hhead b hb)⟩, fun c hc => ?_⟩
    rw [List.head?_append, Option.mem_def, Option.or_eq_some_iff] at hc
    rcases hc with hc | ⟨-, hc⟩
    · exact hquoted.2 c hc
    · exact hhead c hc

theorem not_bare_quote {body a b : Text} (h : body.IsChain GuardsQuote) :
    body ≠ a ++ ("[\"" ++ b) := by
  rintro rfl
  have hpair := (List.isChain_cons_cons.1 (List.isChain_append.1 h).2.1).1 rfl
  exact absurd hpair (by decide)

end Text

/-! ## Expressions -/

/-- An expression that imports are read from: the record of a module or a property of it. -/
inductive Settings.IsExpression (names : Settings) : Text → Prop
  | record (k : Nat) : IsExpression names (names.recordId k)
  | property (k : Nat) (name : Text) :
    IsExpression names (memberAccess (names.recordId k) name)

theorem isExpression_of_get? {names : Settings} {t : ImportTable}
    {entries : List ImportEntry} {specifiers : List Text} {name : Text} {binding : ImportBinding}
    (hb : t.Binds entries) (hl : t.Lists names specifiers) (h : t.get? name = some binding) :
    names.IsExpression binding.expression := by
  rw [hb.get?_eq, Option.map_eq_some_iff] at h
  obtain ⟨e, he, rfl⟩ := h
  obtain ⟨id, hid⟩ := hb.recorded e (List.mem_filter.1 (List.mem_of_getLast? he)).1
  obtain ⟨k, -, rfl⟩ := hl.isRecord hid
  rw [ImportTable.bindingOf, hid, ImportBinding.expression]
  cases e.importedName with
  | none => exact .record k
  | some property => exact .property k property

section Expressions

variable {names : Settings} {e e' x x' z : Text} {c : CodePoint} {k : Nat}

theorem mem_recordId (hnames : names.importPrefix.isNameLine = true)
    (hc : c ∈ names.recordId k) : c.isNamePart = true ∨ c = '\n' := by
  rw [Settings.recordId, List.append_assoc] at hc
  rcases List.mem_append.1 hc with hc | hc
  · exact Text.mem_of_isNameLine hnames hc
  · exact .inl (Settings.isNamePart_of_mem_number hc)

theorem Settings.IsExpression.cases (hnames : names.importPrefix.isNameLine = true)
    (he : names.IsExpression e) :
    (∀ c ∈ e, c.isNamePart = true ∨ c = '\n' ∨ c = '.') ∨
      ∃ id body : Text, e = id ++ ("[\"" ++ (body ++ "\"]")) ∧
        (∀ c ∈ id, c.isNamePart = true ∨ c = '\n') ∧ body.IsChain GuardsQuote := by
  cases he with
  | record k => exact .inl fun c hc => (mem_recordId hnames hc).imp_right .inl
  | property k name =>
    rw [memberAccess]
    split
    · next hname =>
      refine .inl fun c hc => ?_
      rcases List.mem_append.1 hc with hc | hc
      · rcases List.mem_append.1 hc with hc | hc
        · exact (mem_recordId hnames hc).imp_right .inl
        · exact .inr (.inr (List.mem_singleton.1 hc))
      · exact (Text.mem_of_isNameLine hname hc).imp_right .inl
    · refine .inr ⟨names.recordId k, name.flatMap CodePoint.quoted, ?_,
        fun c hc => mem_recordId hnames hc, (Text.isChain_quoted name).1⟩
      rw [Text.quote]
      simp only [List.append_assoc]
      rfl

theorem Settings.IsExpression.ne_nil (he : names.IsExpression e) : e ≠ [] := by
  have hid : ∀ k, names.recordId k ≠ [] := fun k h => by
    rw [Settings.recordId, List.append_eq_nil_iff] at h
    cases h.2
  cases he with
  | record k => exact hid k
  | property k name =>
    have hmember : ∀ rest, names.recordId k ++ rest ≠ [] := fun rest h =>
      hid k (List.append_eq_nil_iff.1 h).1
    rw [memberAccess]
    split
    · rw [List.append_assoc]
      exact hmember _
    · rw [List.append_assoc, List.append_assoc]
      exact hmember _

/-- The guard of generated code takes no expression of an import for a name that is none. -/
theorem Settings.IsExpression.isName_of_isNameLine (he : names.IsExpression e)
    (h : e.isNameLine = true) : e.isName = true := by
  cases he with
  | record k =>
    have hlast : names.recordId k =
        names.importPrefix ++ Text.ofNat k ++ ("_" : Text) ++ [('_' : CodePoint)] := by
      rw [Settings.recordId, List.append_assoc _ ("_" : Text)]
      rfl
    rw [Text.isNameLine, hlast, Text.dropFinalLineFeed_concat (by decide)] at h
    rw [hlast]
    exact h
  | property k name =>
    -- A dot or a bracket is no part of a name.
    rw [memberAccess] at h ⊢
    split at h
    · have hdot := Text.mem_of_isNameLine (c := '.') h (by simp [Text.ofString])
      exact absurd hdot (by decide)
    · have hbracket := Text.mem_of_isNameLine (c := '[') h (by simp [Text.ofString])
      exact absurd hbracket (by decide)

theorem ne_append_blank (hnames : names.importPrefix.isNameLine = true)
    (he : names.IsExpression e) (he' : names.IsExpression e') : e ≠ z ++ (" " ++ e') := by
  intro h
  have hblank : (' ' : CodePoint) ∈ e := by
    rw [h]
    exact List.mem_append_right _ List.mem_cons_self
  rcases he.cases hnames with hplain | ⟨id, body, rfl, hid, hbody⟩
  · exact absurd (hplain _ hblank) (by decide)
  have hbracket : (']' : CodePoint) ∈ e' := by
    have hlast := congrArg List.getLast? h
    rw [← List.append_assoc, ← List.append_assoc, List.getLast?_append_of_ne_nil _ (by decide),
      ← List.append_assoc z, List.getLast?_append_of_ne_nil _ he'.ne_nil] at hlast
    exact List.mem_of_getLast? hlast.symm
  rcases he'.cases hnames with hplain | ⟨id', body', rfl, -, -⟩
  · exact absurd (hplain _ hbracket) (by decide)
  have hinner : id ++ "[\"" ++ body = z ++ (" " ++ (id' ++ ("[\"" ++ body'))) := by
    have hfull : (id ++ "[\"" ++ body) ++ "\"]" =
        z ++ (" " ++ (id' ++ ("[\"" ++ body'))) ++ "\"]" := by
      simp only [List.append_assoc]
      exact h
    exact List.append_cancel_right hfull
  -- The blank stands between the quotes, and so does the bracket with the quote behind it.
  rcases List.append_eq_append_iff.1 hinner with ⟨inside, hz, hbody'⟩ | ⟨outside, hz, hbody'⟩
  · refine Text.not_bare_quote (a := inside ++ (" " ++ id')) (b := body') hbody ?_
    rw [hbody']
    simp only [List.append_assoc]
  · cases outside with
    | nil =>
      refine Text.not_bare_quote (a := " " ++ id') (b := body') hbody ?_
      rw [List.append_assoc]
      exact hbody'.symm
    | cons c outside =>
      obtain rfl : (' ' : CodePoint) = c := (List.cons.inj hbody').1
      have hin : (' ' : CodePoint) ∈ id ++ "[\"" := by
        rw [hz]
        exact List.mem_append_right _ List.mem_cons_self
      rcases List.mem_append.1 hin with hin | hin
      · exact absurd (hid _ hin) (by decide)
      · exact absurd hin (by decide)

theorem constantText_inj (hnames : names.importPrefix.isNameLine = true)
    (he : names.IsExpression e) (he' : names.IsExpression e')
    (h : Script.constantText x e = Script.constantText x' e') : x = x' ∧ e = e' := by
  have hinner : x ++ " = " ++ e = x' ++ " = " ++ e' := by
    have hfull : "const " ++ ((x ++ " = " ++ e) ++ ";\n") =
        "const " ++ ((x' ++ " = " ++ e') ++ ";\n") := by
      simpa only [Script.constantText, List.append_assoc] using h
    exact List.append_cancel_right (List.append_cancel_left hfull)
  -- If one name is longer, what it is longer by ends in a blank in front of its expression.
  have hlonger : ∀ {y y' f f' rest : Text}, names.IsExpression f → names.IsExpression f' →
      y' ++ " = " = y ++ " = " ++ rest → f = rest ++ f' → y = y' ∧ f = f' := by
    intro y y' f f' rest hf hf' hy hrest
    rcases List.eq_nil_or_concat rest with rfl | ⟨rest, c, rfl⟩
    · rw [List.append_nil] at hy
      exact ⟨(List.append_cancel_right hy).symm, hrest⟩
    · have hlast := congrArg List.getLast? hy
      rw [List.getLast?_append_of_ne_nil _ (by decide), List.concat_eq_append, ← List.append_assoc,
        List.getLast?_concat] at hlast
      obtain rfl : (' ' : CodePoint) = c := Option.some.inj hlast
      rw [List.concat_eq_append, List.append_assoc] at hrest
      exact absurd hrest (ne_append_blank hnames hf hf')
  rcases List.append_eq_append_iff.1 hinner with ⟨rest, hx, hrest⟩ | ⟨rest, hx, hrest⟩
  · exact hlonger he he' hx hrest
  · obtain ⟨hname, hexpression⟩ := hlonger he' he hx hrest
    exact ⟨hname.symm, hexpression.symm⟩

end Expressions

end RegistryScript
