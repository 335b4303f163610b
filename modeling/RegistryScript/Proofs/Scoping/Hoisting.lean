import Mathlib
import RegistryScript.Proofs.Scoping.Binding

/-! # Where variables are declared

The pass takes the statement that stands directly around a `var` for its scope, and the whole of a
function for the scope of its parameters and variables. The language knows neither: a variable
belongs to the body of a function or class block around it, or to the module.

* `exists_scope_of_mem_varsOf`: such a scope is found further out.
* `Node.strays`, `isNoticed_iff_isStray`: what the pass takes to be declared where it is not.
* `Script.overlooked`, `mem_noticed_or_overlooked`: what it does not take to be declared where it is.
-/

namespace RegistryScript
set_option autoImplicit false

variable {s : Script} {n p c m : Node} {t trail : Trail} {i : Nat}

theorem mem_getD_map {α β : Type} {o : Option α} {f : α → List β} {x : β} :
    x ∈ (o.map f).getD [] ↔ ∃ a, o = some a ∧ x ∈ f a := by
  cases o with
  | none => simp
  | some a => simp

/-! ## Regions -/

theorem not_opens_of_isStatementPart {k : Kind} (h : k.isStatementPart = true) :
    (k.isFunction || k.isClass) = false := by
  unfold Kind.isStatementPart at h
  split at h <;> first | rfl | exact absurd h Bool.false_ne_true

theorem Node.region_eq (h : (n.kind.isFunction || n.kind.isClass) = false) :
    n.region = n :: Node.regionAmong n.children := by
  obtain ⟨kind, start, stop, r, isNamed, isMissing, children⟩ := n
  rw [region, if_neg (by rw [h]; exact Bool.false_ne_true)]

theorem Node.mem_regionAmong {ns : List Node} (hc : c ∈ ns) (hn : c.isNamed = true)
    (hm : m ∈ c.region) : m ∈ Node.regionAmong ns := by
  induction ns with
  | nil => exact absurd hc List.not_mem_nil
  | cons n ns ih =>
    rw [regionAmong]
    rcases List.mem_cons.1 hc with rfl | hc
    · rw [if_pos hn]
      exact List.mem_append_left _ hm
    · split
      · exact List.mem_append_right _ (ih hc)
      · exact ih hc

namespace Script

theorem mem_varsOf_of_child (h : (n.kind.isFunction || n.kind.isClass) = false)
    (hc : c ∈ n.children) (hn : c.isNamed = true) (hm : m ∈ s.varsOf c) : m ∈ s.varsOf n := by
  obtain ⟨d, hd, hm⟩ := List.mem_flatMap.1 hm
  rw [varsOf, Node.region_eq h]
  exact List.mem_flatMap.2 ⟨d, List.mem_cons_of_mem n (Node.mem_regionAmong hc hn hd), hm⟩

theorem mem_varsOf_self (h : (n.kind.isFunction || n.kind.isClass) = false)
    (hm : m ∈ n.statementVariables ∨ m ∈ s.headVariables n) : m ∈ s.varsOf n := by
  rw [varsOf, Node.region_eq h]
  exact List.mem_flatMap.2 ⟨n, List.mem_cons_self, List.mem_append.2 hm⟩

/-! ## Scopes of variables -/

def carriesStatements (k : Kind) : Prop :=
  k.isStatementPart = true ∨ k = .exportStatement ∨ k = .program

theorem not_opens_of_carriesStatements {k : Kind} (h : carriesStatements k) :
    (k.isFunction || k.isClass) = false := by
  rcases h with h | rfl | rfl
  · exact not_opens_of_isStatementPart h
  · rfl
  · rfl

theorem takesItem_cases (hp : carriesStatements p.kind) (h : n.takesItem i p = true) :
    (n.kind.isFunction = true ∧ n.isChildAt .body i = true ∧ p.kind = .statementBlock) ∨
      n.kind = .classStaticBlock ∨ carriesStatements n.kind := by
  unfold Node.takesItem at h
  rcases hp with hp | hp | hp
  · have htakes : n.takesStatement i p.kind = true := by
      split at h
      · next hk =>
        rw [hk] at hp
        exact nomatch hp
      · next hk =>
        rw [hk] at hp
        exact nomatch hp
      · simpa [hp] using h
    unfold Node.takesStatement at htakes
    by_cases hfunction : n.kind.isFunction = true
    · rw [if_pos hfunction, Bool.and_eq_true, decide_eq_true_eq] at htakes
      exact .inl ⟨hfunction, htakes⟩
    · rw [if_neg hfunction] at htakes
      simp only [Bool.or_eq_true, decide_eq_true_eq] at htakes
      rcases htakes with ((h | h) | h) | h
      · exact .inr (.inr (.inl h))
      · exact .inr (.inr (.inr (.inr h)))
      · exact .inr (.inr (.inr (.inl h)))
      · exact .inr (.inl h)
  · rw [hp] at h
    exact .inr (.inr (.inr (.inr (of_decide_eq_true h))))
  · rw [hp] at h
    exact nomatch h

theorem mem_declaredAt_of_body (hn : n.kind.isFunction = true) (hi : n.isChildAt .body i = true)
    (hp : n.children[i]? = some p) (hk : p.kind = .statementBlock) (hm : m ∈ s.varsOf p) :
    m ∈ s.declaredAt n i := by
  obtain ⟨c, hc, hat⟩ := Node.child?_of_childIndex? (Node.isChildAt_iff.1 hi)
  obtain rfl : p = c := Option.some.inj (hp.symm.trans hat)
  have hbody : n.bodyBlock? = some p := by
    rw [Node.bodyBlock?, hc, Option.filter_some, if_pos (decide_eq_true hk)]
  rw [declaredAt, if_pos hn, declaredInFunction, if_pos hi, hbody]
  exact List.mem_append_right _ hm

/-- A variable of a node that carries statements is declared further out: by a function or a block
of a class around the node, or by the module. -/
theorem exists_scope_of_mem_varsOf (hmodule : s.IsModule) (h : Trail.Leads s.root t p)
    (hp : carriesStatements p.kind) (halive : p.IsAlive) (hm : m ∈ s.varsOf p) :
    (∃ e ∈ t, m ∈ s.declaredAt e.1 e.2) ∨ m ∈ s.moduleVariables := by
  induction t generalizing p with
  | nil =>
    rw [Trail.Leads] at h
    rw [h] at hm
    exact .inr hm
  | cons e t ih =>
    obtain ⟨q, j⟩ := e
    have htakes := takes_of_leads hmodule h
    simp only [Node.takes, Bool.and_eq_true] at htakes
    have hmem := List.mem_of_getElem? h.1
    have hnamed := halive.isNamed (Node.all_iff.1 (Trail.Leads.all h hmodule.shaped)).1
    rcases takesItem_cases hp htakes.2 with ⟨hq, hj, hk⟩ | hq | hq
    · exact .inl ⟨(q, j), List.mem_cons_self, mem_declaredAt_of_body hq hj h.1 hk hm⟩
    · have hout := mem_varsOf_of_child (by rw [hq]; rfl) hmem hnamed hm
      refine .inl ⟨(q, j), List.mem_cons_self, ?_⟩
      simp only [declaredAt, hq, Kind.isFunction, Bool.false_eq_true, if_false]
      exact List.mem_append_right _ hout
    · have hout := mem_varsOf_of_child (not_opens_of_carriesStatements hq) hmem hnamed hm
      rcases ih h.2 hq (Node.isAlive_of_mem hmem) hout with ⟨e, he, hin⟩ | hin
      · exact .inl ⟨e, List.mem_cons_of_mem _ he, hin⟩
      · exact .inr hin

/-! ## Names that are taken too far -/

end Script

/-- The identifiers that a function is taken to declare for what stands at one of its places, but
does not: its parameters are not seen in its name, and its variables are seen in its body alone. -/
def Node.strays (n : Node) (i : Nat) : List Node :=
  if n.kind.isFunction then
    (if n.isChildAt .name i then n.parameters else []) ++
      (if n.isChildAt .body i then [] else n.bodyStatementVars)
  else []

namespace Script

/-- A function around a reference is taken to declare its name, but does not for the place where the
reference stands. -/
def isStray (s : Script) (trail : Trail) (n : Node) : Prop :=
  ∃ e ∈ trail, ∃ m ∈ e.1.strays e.2, s.textAt m = s.textAt n

theorem mem_varsOf_of_statementVars (hm : m ∈ n.statementVars) : m ∈ s.varsOf n := by
  obtain ⟨c, hc, hm⟩ := List.mem_flatMap.1 hm
  exact List.mem_flatMap.2 ⟨c, hc, List.mem_append_left _ hm⟩

theorem isNamed_of_mem_statementVariables (hc : c.all Node.isShaped = true)
    (hm : m ∈ c.statementVariables) : c.isNamed = true := by
  rw [Node.statementVariables] at hm
  split at hm
  · obtain ⟨d, hd, -⟩ := List.mem_flatMap.1 hm
    have halive := Node.isAlive_of_mem (Node.mem_of_mem_namedChildren (List.mem_filter.1 hd).1)
    exact halive.isNamed (Node.all_iff.1 hc).1
  · exact absurd hm List.not_mem_nil

theorem not_opens_of_mem_statementVariables (hm : m ∈ c.statementVariables) :
    (c.kind.isFunction || c.kind.isClass) = false := by
  rw [Node.statementVariables] at hm
  split at hm
  · next hk =>
    rw [hk]
    rfl
  · exact absurd hm List.not_mem_nil

theorem not_opens_of_item (hn : n.all Node.isShaped = true) (hc : c ∈ n.children)
    (hm : m ∈ c.statementVariables) : (n.kind.isFunction || n.kind.isClass) = false := by
  have hk : c.kind = .variableDeclaration := by
    rw [Node.statementVariables] at hm
    split at hm
    · assumption
    · exact absurd hm List.not_mem_nil
  obtain ⟨j, hj⟩ := Node.takes_of_mem (Node.all_iff.1 hn).1 hc
  simp only [Node.takes, Bool.and_eq_true] at hj
  rcases takesItem_cases (.inl (by rw [hk]; rfl)) hj.2 with ⟨-, -, hblock⟩ | h | h
  · rw [hk] at hblock
    exact absurd hblock (by decide)
  · rw [h]
    rfl
  · exact not_opens_of_carriesStatements h

theorem mem_varsOf_of_item (hn : n.all Node.isShaped = true) (hc : c ∈ n.children)
    (hm : m ∈ c.statementVariables) : m ∈ s.varsOf n := by
  have hnamed := isNamed_of_mem_statementVariables ((Node.all_iff.1 hn).2 c hc) hm
  have hown := mem_varsOf_self (s := s) (not_opens_of_mem_statementVariables hm) (.inl hm)
  exact mem_varsOf_of_child (not_opens_of_item hn hc hm) hc hnamed hown

theorem noticed_cases_of_function (hk : n.kind.isFunction = true) (hm : m ∈ n.noticed) :
    m ∈ s.declaredAt n i ∨ m ∈ n.strays i := by
  rw [Node.noticed, if_pos hk, List.mem_append, List.mem_append] at hm
  rw [declaredAt, if_pos hk, declaredInFunction, Node.strays, if_pos hk]
  rcases hm with (hm | hm) | hm
  · by_cases hi : n.isChildAt .name i = true
    · exact .inr (List.mem_append_left _ (by rwa [if_pos hi]))
    · rw [if_neg hi]
      exact .inl (List.mem_append_left _ (List.mem_append_right _ hm))
  · exact .inl (List.mem_append_left _ (List.mem_append_left _ hm))
  · by_cases hi : n.isChildAt .body i = true
    · rw [if_pos hi]
      obtain ⟨body, hb, hm⟩ := mem_getD_map.1 hm
      exact .inl (List.mem_append_right _
        (mem_getD_map.2 ⟨body, hb, mem_varsOf_of_statementVars hm⟩))
    · exact .inr (List.mem_append_right _ (by rwa [if_neg hi]))

theorem noticed_cases_of_block (hn : n.all Node.isShaped = true)
    (hk : n.kind = .statementBlock ∨ n.kind = .classStaticBlock) (hm : m ∈ n.noticed) :
    m ∈ s.declaredAt n i ∨ carriesStatements n.kind ∧ m ∈ s.varsOf n := by
  rw [Node.noticed_of_block hk] at hm
  obtain ⟨c, hc, hm⟩ := List.mem_flatMap.1 hm
  rcases List.mem_append.1 hm with hm | hm
  · have hlexical := List.mem_flatMap.2 ⟨c, hc, hm⟩
    rcases hk with hk | hk
    · rw [declaredAt, hk]
      exact .inl hlexical
    · rw [declaredAt, hk]
      exact .inl (List.mem_append_left _ hlexical)
  · have hvar := mem_varsOf_of_item (s := s) hn (Node.mem_of_mem_namedChildren hc) hm
    rcases hk with hk | hk
    · rw [hk]
      exact .inr ⟨.inl rfl, hvar⟩
    · rw [declaredAt, hk]
      exact .inl (List.mem_append_right _ hvar)

theorem noticed_cases_of_switchBody (hn : n.all Node.isShaped = true) (hk : n.kind = .switchBody)
    (hm : m ∈ n.noticed) :
    m ∈ s.declaredAt n i ∨ carriesStatements n.kind ∧ m ∈ s.varsOf n := by
  rw [Node.noticed_of_switchBody hk] at hm
  obtain ⟨c, hc, hm⟩ := List.mem_flatMap.1 hm
  obtain ⟨d, hd, hm⟩ := List.mem_flatMap.1 hm
  rcases List.mem_append.1 hm with hm | hm
  · rw [declaredAt, hk]
    exact .inl (List.mem_flatMap.2 ⟨c, hc, List.mem_flatMap.2 ⟨d, hd, hm⟩⟩)
  · have hitem := mem_varsOf_of_item (s := s) (Node.all_of_mem_namedChildren hn hc)
      (Node.mem_of_mem_namedChildren hd) hm
    have hvar := mem_varsOf_of_child (by rw [hk]; rfl) (Node.mem_of_mem_namedChildren hc)
      (List.mem_filter.1 hc).2 hitem
    rw [hk]
    exact .inr ⟨.inl rfl, hvar⟩

theorem noticed_cases_of_forStatement (hn : n.all Node.isShaped = true)
    (hk : n.kind = .forStatement) (hm : m ∈ n.noticed) :
    m ∈ s.declaredAt n i ∨ carriesStatements n.kind ∧ m ∈ s.varsOf n := by
  rw [Node.noticed_of_forStatement hk] at hm
  obtain ⟨c, hc, hm⟩ := mem_getD_map.1 hm
  rw [declaredAt, hk]
  rcases List.mem_append.1 hm with hm | hm
  · exact .inl (mem_getD_map.2 ⟨c, hc, hm⟩)
  · exact .inr ⟨.inl rfl, mem_varsOf_of_item hn (Node.mem_of_child? hc) hm⟩

theorem noticed_cases_of_forInStatement (hk : n.kind = .forInStatement) (hm : m ∈ n.noticed) :
    m ∈ s.declaredAt n i ∨ carriesStatements n.kind ∧ m ∈ s.varsOf n := by
  have hopens : (n.kind.isFunction || n.kind.isClass) = false := by rw [hk]; rfl
  rw [Node.noticed_of_forInStatement hk] at hm
  rw [declaredAt, hk, if_neg (by decide)]
  cases hc : n.child? .kind with
  | none =>
    rw [hc] at hm
    exact absurd hm List.not_mem_nil
  | some c =>
    rw [hc] at hm
    by_cases hvar : s.textAt c = "var"
    · refine .inr ⟨.inl rfl, mem_varsOf_self hopens (.inr ?_)⟩
      rw [headVariables, hk, hc]
      simpa [hvar] using hm
    · exact .inl (by simpa [hvar] using hm)

theorem noticed_cases (hn : n.all Node.isShaped = true) (hm : m ∈ n.noticed) :
    m ∈ s.declaredAt n i ∨ m ∈ n.strays i ∨
      carriesStatements n.kind ∧ m ∈ s.varsOf n := by
  rcases Node.kind_of_mem_noticed hm with hk | hk | hk | hk | hk | hk | hk
  · exact (noticed_cases_of_function hk hm).imp_right .inl
  · rw [Node.noticed_of_classExpression hk] at hm
    rw [declaredAt, hk]
    exact .inl hm
  · exact (noticed_cases_of_block hn hk hm).imp_right .inr
  · exact (noticed_cases_of_switchBody hn hk hm).imp_right .inr
  · exact (noticed_cases_of_forStatement hn hk hm).imp_right .inr
  · exact (noticed_cases_of_forInStatement hk hm).imp_right .inr
  · rw [Node.noticed_of_catchClause hk] at hm
    rw [declaredAt, hk]
    exact .inl hm

theorem mem_noticed_of_mem_strays (hm : m ∈ n.strays i) : m ∈ n.noticed := by
  rw [Node.strays] at hm
  split at hm
  · next hk =>
    rw [Node.noticed, if_pos hk, List.mem_append, List.mem_append]
    rcases List.mem_append.1 hm with hm | hm
    · split at hm
      · exact .inl (.inl hm)
      · exact absurd hm List.not_mem_nil
    · split at hm
      · exact absurd hm List.not_mem_nil
      · exact .inr hm
  · exact absurd hm List.not_mem_nil

/-- Of the names of references that no declaration in scope and no variable of the module has, the
pass takes the stray ones to be declared. -/
theorem isNoticed_iff_isStray (hmodule : s.IsModule) (h : Trail.Leads s.root trail n)
    (hinside : ¬ s.resolvesInside trail n)
    (hvariables : ∀ m ∈ s.moduleVariables, s.nameAt m ≠ s.nameAt n) :
    s.isNoticed trail n ↔ s.isStray trail n := by
  constructor
  · rintro ⟨e, he, m, hm, htext⟩
    have hname : s.nameAt m = s.nameAt n := congrArg Text.unescaped htext
    obtain ⟨outer, hleads, houter, hne⟩ := h.exists_outer he
    rcases noticed_cases (s := s) (i := e.2) (hleads.all hmodule.shaped) hm with
      hdeclared | hstray | ⟨hcarries, hvar⟩
    · exact absurd ⟨e, he, m, hdeclared, hname⟩ hinside
    · exact ⟨e, he, m, hstray, htext⟩
    · rcases exists_scope_of_mem_varsOf hmodule hleads hcarries (.inr hne) hvar with
        ⟨e', he', hdeclared⟩ | hmem
      · exact absurd ⟨e', houter e' he', m, hdeclared, hname⟩ hinside
      · exact absurd hname (hvariables m hmem)
  · rintro ⟨e, he, m, hm, htext⟩
    exact ⟨e, he, m, mem_noticed_of_mem_strays hm, htext⟩

/-! ## Names that are overlooked -/

/-- The variables that a node declares but is not taken to declare: those in the heads of loops, and
those of the blocks of classes. -/
def overlooked (s : Script) (n : Node) : List Node :=
  if n.kind.isFunction then
    (n.bodyBlock?.map fun body => body.region.flatMap s.headVariables).getD []
  else if n.kind = .classStaticBlock then s.varsOf n else []

theorem mem_noticed_or_overlooked_of_function (hk : n.kind.isFunction = true)
    (hm : m ∈ s.declaredAt n i) : m ∈ n.noticed ∨ m ∈ s.overlooked n := by
  rw [declaredAt, if_pos hk, declaredInFunction, List.mem_append, List.mem_append] at hm
  rw [Node.noticed, overlooked, if_pos hk, if_pos hk, List.mem_append, List.mem_append]
  rcases hm with (hm | hm) | hm
  · exact .inl (.inl (.inr hm))
  · split at hm
    · exact absurd hm List.not_mem_nil
    · exact .inl (.inl (.inl hm))
  · split at hm
    · obtain ⟨body, hb, hm⟩ := mem_getD_map.1 hm
      obtain ⟨c, hc, hm⟩ := List.mem_flatMap.1 hm
      rcases List.mem_append.1 hm with hm | hm
      · exact .inl (.inr (mem_getD_map.2 ⟨body, hb, List.mem_flatMap.2 ⟨c, hc, hm⟩⟩))
      · exact .inr (mem_getD_map.2 ⟨body, hb, List.mem_flatMap.2 ⟨c, hc, hm⟩⟩)
    · exact absurd hm List.not_mem_nil

theorem mem_itemNames_of_mem_lexicals (hm : m ∈ c.lexicals) : m ∈ c.itemNames :=
  List.mem_append_left _ hm

theorem mem_noticed_of_block (hk : n.kind = .statementBlock ∨ n.kind = .classStaticBlock)
    (hm : m ∈ n.namedChildren.flatMap Node.lexicals) : m ∈ n.noticed := by
  rw [Node.noticed_of_block hk]
  obtain ⟨c, hc, hm⟩ := List.mem_flatMap.1 hm
  exact List.mem_flatMap.2 ⟨c, hc, mem_itemNames_of_mem_lexicals hm⟩

/-- What a node declares at a place it is taken to declare, unless it is overlooked. -/
theorem mem_noticed_or_overlooked (hm : m ∈ s.declaredAt n i) :
    m ∈ n.noticed ∨ m ∈ s.overlooked n := by
  by_cases hfunction : n.kind.isFunction = true
  · exact mem_noticed_or_overlooked_of_function hfunction hm
  rw [declaredAt, if_neg hfunction] at hm
  split at hm
  · next hk => exact .inl (by rwa [Node.noticed_of_classExpression hk])
  · next hk => exact .inl (mem_noticed_of_block (.inl hk) hm)
  · next hk =>
    rcases List.mem_append.1 hm with hm | hm
    · exact .inl (mem_noticed_of_block (.inr hk) hm)
    · rw [overlooked, if_neg hfunction, if_pos hk]
      exact .inr hm
  · next hk =>
    obtain ⟨c, hc, hm⟩ := List.mem_flatMap.1 hm
    obtain ⟨d, hd, hm⟩ := List.mem_flatMap.1 hm
    rw [Node.noticed_of_switchBody hk]
    exact .inl (List.mem_flatMap.2
      ⟨c, hc, List.mem_flatMap.2 ⟨d, hd, mem_itemNames_of_mem_lexicals hm⟩⟩)
  · next hk =>
    obtain ⟨c, hc, hm⟩ := mem_getD_map.1 hm
    rw [Node.noticed_of_forStatement hk]
    exact .inl (mem_getD_map.2 ⟨c, hc, mem_itemNames_of_mem_lexicals hm⟩)
  · next hk =>
    rw [Node.noticed_of_forInStatement hk]
    cases hc : n.child? .kind with
    | none =>
      rw [hc] at hm
      exact absurd hm List.not_mem_nil
    | some c =>
      split at hm
      · exact .inl hm
      · exact absurd hm List.not_mem_nil
  · next hk => exact .inl (by rwa [Node.noticed_of_catchClause hk])
  · exact absurd hm List.not_mem_nil

end Script

end RegistryScript
