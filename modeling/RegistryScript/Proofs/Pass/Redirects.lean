import Mathlib
import RegistryScript.Proofs.Literal.Quoted
import RegistryScript.Proofs.Printing.Node
import RegistryScript.Proofs.References.Preorder

/-! # Which dynamic imports are redirected

Calls of `import` are looked for among all named nodes of a statement. A call is redirected if its
only argument is a string that stands for a relative specifier, which determines the key of the
module.

* `IsKeyOf`, `isKeyOf_registryKey`, `IsKeyOf.eq_registryKey`: relative specifiers are those that
  have a key, and they have one key.
* `Node.Reaches`, `Node.reached`, `mem_reached_iff`, `pairwise_reached`: the nodes that are reached
  through named nodes, in pre-order, each with the places on the way.
* `Script.IsRedirected`, `redirection?_eq_some_iff`: which calls are redirected.
* `redirectImports_exact`: these calls alone, wherever they stand, are redirected and counted, under
  the key that the header looks a module up by.
-/

namespace RegistryScript
set_option autoImplicit false

/-! ## Keys -/

/-- A relative specifier is a dot, one or more slashes, and the key, which starts with no slash. -/
def IsKeyOf (key specifier : Text) : Prop :=
  key.head? ≠ some ('/' : CodePoint) ∧
    ∃ n, specifier = ('.' : CodePoint) :: List.replicate (n + 1) ('/' : CodePoint) ++ key

section Keys

variable {specifier key : Text}

theorem dropWhile_slashes (n : Nat) (h : key.head? ≠ some ('/' : CodePoint)) :
    (List.replicate n ('/' : CodePoint) ++ key).dropWhile (fun c : CodePoint => c = '/') = key := by
  rw [List.dropWhile_append_of_pos fun c hc => decide_eq_true (List.mem_replicate.1 hc).2]
  cases key with
  | nil => rfl
  | cons c key =>
    have hc : c ≠ '/' := fun hc => h (congrArg some hc)
    rw [List.dropWhile_cons_of_neg (by simpa using hc)]

theorem IsKeyOf.isRelative (h : IsKeyOf key specifier) : isRelative specifier = true := by
  obtain ⟨-, n, rfl⟩ := h
  rfl

theorem IsKeyOf.eq_registryKey (h : IsKeyOf key specifier) : key = registryKey specifier := by
  rw [registryKey, if_pos h.isRelative]
  obtain ⟨hhead, n, rfl⟩ := h
  exact (dropWhile_slashes (n + 1) hhead).symm

theorem isKeyOf_registryKey (h : isRelative specifier = true) :
    IsKeyOf (registryKey specifier) specifier := by
  obtain ⟨rest, rfl⟩ := List.isPrefixOf_iff_prefix.1 h
  have hkey : registryKey (("./" : Text) ++ rest) =
      rest.dropWhile fun c : CodePoint => c = '/' := by
    rw [registryKey, if_pos h]
    exact List.dropWhile_cons_of_pos rfl
  rw [hkey]
  refine ⟨fun hhead => ?_, (rest.takeWhile fun c : CodePoint => c = '/').length, ?_⟩
  · have hslash := List.head?_dropWhile_not (fun c : CodePoint => decide (c = '/')) rest
    rw [hhead] at hslash
    exact absurd hslash (by decide)
  · have hslashes : rest.takeWhile (fun c : CodePoint => c = '/') =
        List.replicate (rest.takeWhile fun c : CodePoint => c = '/').length ('/' : CodePoint) := by
      refine List.eq_replicate_iff.2 ⟨rfl, fun c hc => ?_⟩
      simpa using List.mem_takeWhile_imp hc
    rw [List.replicate_succ, ← hslashes]
    conv_lhs => rw [← List.takeWhile_append_dropWhile (p := fun c : CodePoint => c = '/') (l := rest)]
    rfl

end Keys

/-! ## Nodes that are reached -/

namespace Node

def Reaches : Node → List Nat → Node → Prop
  | n, [], m => m = n
  | n, i :: places, m => ∃ c, n.children[i]? = some c ∧ c.isNamed = true ∧ c.Reaches places m

mutual

def reached : Node → List (List Nat × Node)
  | n@⟨_, _, _, _, _, _, children⟩ => ([], n) :: reachedAmong 0 children

def reachedAmong (first : Nat) : List Node → List (List Nat × Node)
  | [] => []
  | n :: ns =>
    (if n.isNamed then n.reached else []).map (fun a => (first :: a.1, a.2)) ++
      reachedAmong (first + 1) ns

end

variable {n m : Node} {places : List Nat}

theorem reachedAmong_eq (first : Nat) (ns : List Node) :
    reachedAmong first ns = placed (fun c => if c.isNamed then c.reached else []) first ns := by
  induction ns generalizing first with
  | nil => rfl
  | cons n ns ih => rw [reachedAmong, ih]; rfl

theorem reached_eq (n : Node) :
    n.reached = ([], n) :: placed (fun c => if c.isNamed then c.reached else []) 0 n.children := by
  cases n
  rw [reached, reachedAmong_eq]

theorem mem_reached_iff : (places, m) ∈ n.reached ↔ n.Reaches places m := by
  induction places generalizing n with
  | nil =>
    have hnot : (([] : List Nat), m) ∉
        placed (fun c => if c.isNamed then c.reached else []) 0 n.children := by
      intro h
      obtain ⟨i, rest, c, hnil, -⟩ := mem_placed_iff.1 h
      exact absurd hnil (List.cons_ne_nil i rest).symm
    rw [reached_eq, List.mem_cons, Prod.mk.injEq, or_iff_left hnot, Reaches]
    exact and_iff_right rfl
  | cons i places ih =>
    rw [reached_eq, List.mem_cons, or_iff_right (by simp), mem_placed_iff, Reaches]
    constructor
    · rintro ⟨j, rest, c, heq, hc, hmem⟩
      obtain ⟨rfl, rfl⟩ := List.cons.inj heq
      by_cases hnamed : c.isNamed = true
      · rw [if_pos hnamed] at hmem
        exact ⟨c, hc, hnamed, ih.1 hmem⟩
      · rw [if_neg hnamed] at hmem
        exact absurd hmem List.not_mem_nil
    · rintro ⟨c, hc, hnamed, hreaches⟩
      exact ⟨i, places, c, rfl, hc, by rw [if_pos hnamed]; exact ih.2 hreaches⟩

/-- The nodes are reached in pre-order, and each place is reached once. -/
theorem pairwise_reached : n.reached.Pairwise fun a b => a.1 < b.1 := by
  induction n using Node.induct with
  | step n ih =>
    rw [reached_eq]
    refine .cons (fun b hb => ?_) (pairwise_placed fun c hc => ?_)
    · obtain ⟨i, rest, c, heq, -⟩ := mem_placed_iff.1 (show (b.1, b.2) ∈ _ from hb)
      rw [heq]
      exact List.nil_lt_cons i rest
    · split
      · exact ih c hc
      · exact .nil

theorem map_snd_reached : n.reached.map Prod.snd = n.descendants := by
  induction n using Node.induct with
  | step n ih =>
    rw [reached_eq, List.map_cons, map_snd_placed, descendants_eq, namedDescendants_eq_flatMap 0,
      Script.flatMap_numbered fun c => if c.isNamed then c.descendants else []]
    refine congrArg (n :: ·) (List.flatMap_congr fun c hc => ?_)
    split
    · exact ih c hc
    · rfl

end Node

namespace Script

variable {s : Script}

def reached (s : Script) : List (List Nat × Node) :=
  placed (fun c => if isStatement c && c.kind ≠ .importStatement then c.reached else []) 0
    s.root.children

/-- Places lead from the root of a script to a node, by way of a statement other than an import, and
from there by way of named nodes. -/
def Reaches (s : Script) (places : List Nat) (m : Node) : Prop :=
  ∃ i rest statement, places = i :: rest ∧ s.root.children[i]? = some statement ∧
    statement ∈ s.statements ∧ statement.kind ≠ .importStatement ∧ statement.Reaches rest m

theorem mem_reached_iff {places : List Nat} {m : Node} :
    (places, m) ∈ s.reached ↔ s.Reaches places m := by
  rw [reached, mem_placed_iff, Reaches]
  refine exists_congr fun i => exists_congr fun rest => exists_congr fun c =>
    and_congr_right fun _ => and_congr_right fun hc => ?_
  rw [statements_eq, List.mem_filter, and_iff_right (List.mem_of_getElem? hc)]
  by_cases hst : isStatement c = true
  · by_cases hk : c.kind = .importStatement
    · simp [hst, hk]
    · simp [hst, hk, Node.mem_reached_iff]
  · simp [hst]

theorem pairwise_reached : s.reached.Pairwise fun a b => a.1 < b.1 := by
  refine pairwise_placed fun c _ => ?_
  split
  · exact Node.pairwise_reached
  · exact .nil

theorem dynamicImports_eq_filter :
    s.dynamicImports = (s.reached.map Prod.snd).filter Node.isDynamicImport := by
  rw [reached, map_snd_placed, dynamicImports, statements_eq, List.filter_filter, flatMap_filter_eq,
    List.filter_flatMap]
  refine List.flatMap_congr fun c _ => ?_
  by_cases h : (isStatement c && decide (c.kind ≠ .importStatement)) = true
  · rw [if_pos h, if_pos (by rwa [Bool.and_comm] at h), Node.map_snd_reached]
  · rw [if_neg h, if_neg (by rwa [Bool.and_comm] at h)]
    rfl

/-! ## Calls that are redirected -/

/-- A call of `import` is redirected: its only argument, comments left out, is a string that stands
for a relative specifier. -/
structure IsRedirected (s : Script) (call : Node) (r : Redirection) : Prop where
  isCall : call.kind = .callExpression
  callee : call.child? .function = some r.callee
  isImport : r.callee.kind = .importCallee
  argument : ∃ arguments, call.child? .arguments = some arguments ∧
    (arguments.namedChildren.filter fun n => n.kind ≠ .comment) = [r.argument]
  isString : r.argument.kind = .string
  value : s.stringValue r.argument = .ok r.specifier
  isRelative : ("./" : Text) <+: r.specifier

theorem isRelative_stringAt {n : Node} :
    RegistryScript.isRelative (s.stringAt n) = true ↔
      s.stringValue n = .ok (s.stringAt n) ∧ ("./" : Text) <+: s.stringAt n := by
  rw [RegistryScript.isRelative, List.isPrefixOf_iff_prefix, stringAt]
  cases hv : s.stringValue n with
  | ok v => exact (and_iff_right rfl).symm
  | error f =>
    refine iff_of_false (fun h => ?_) fun h => by cases h.1
    exact absurd (List.prefix_nil.1 h) (List.cons_ne_nil _ _)

theorem redirection?_eq_some_iff {call : Node} {r : Redirection} :
    call.isDynamicImport = true ∧ s.redirection? call = some r ↔ s.IsRedirected call r := by
  constructor
  · rintro ⟨hd, h⟩
    obtain ⟨hcall, callee, hcallee, himport⟩ := isDynamicImport_iff.1 hd
    rw [redirection?, hcallee] at h
    split at h
    · next callee' argument hsome harguments =>
      obtain rfl := Option.some.inj hsome
      split at h
      · next hk =>
        obtain rfl := Option.some.inj h
        rw [Bool.and_eq_true, decide_eq_true_eq] at hk
        obtain ⟨hvalue, hrelative⟩ := isRelative_stringAt.1 hk.2
        exact ⟨hcall, hcallee, himport, callArguments_eq_singleton_iff.1 harguments, hk.1, hvalue,
          hrelative⟩
      · exact nomatch h
    · exact nomatch h
  · intro h
    have hat : s.stringAt r.argument = r.specifier := by
      rw [stringAt, h.value]
      rfl
    have hk : (decide (r.argument.kind = .string) &&
        RegistryScript.isRelative (s.stringAt r.argument)) = true := by
      rw [Bool.and_eq_true, decide_eq_true_eq, isRelative_stringAt, hat]
      exact ⟨h.isString, h.value, h.isRelative⟩
    refine ⟨isDynamicImport_iff.2 ⟨h.isCall, r.callee, h.callee, h.isImport⟩, ?_⟩
    rw [redirection?, h.callee, callArguments_eq_singleton_iff.2 h.argument]
    simp only [hat] at hk ⊢
    rw [if_pos hk]

def redirections (s : Script) : List (List Nat × Redirection) :=
  s.reached.filterMap fun a =>
    if a.2.isDynamicImport then (s.redirection? a.2).map fun r => (a.1, r) else none

theorem mem_redirections_iff {places : List Nat} {r : Redirection} :
    (places, r) ∈ s.redirections ↔ ∃ call, s.Reaches places call ∧ s.IsRedirected call r := by
  rw [redirections, List.mem_filterMap]
  constructor
  · rintro ⟨⟨places', call⟩, hmem, hr⟩
    split at hr
    · next hd =>
      obtain ⟨r', hr', heq⟩ := Option.map_eq_some_iff.1 hr
      obtain ⟨rfl, rfl⟩ := Prod.mk.inj heq
      exact ⟨call, mem_reached_iff.1 hmem, redirection?_eq_some_iff.1 ⟨hd, hr'⟩⟩
    · exact nomatch hr
  · rintro ⟨call, hreaches, hr⟩
    obtain ⟨hd, hr⟩ := redirection?_eq_some_iff.2 hr
    refine ⟨(places, call), mem_reached_iff.2 hreaches, ?_⟩
    rw [if_pos hd, hr]
    rfl

theorem pairwise_redirections : s.redirections.Pairwise fun a b => a.1 < b.1 := by
  refine List.Pairwise.filterMap _ (fun a b hlt a' ha b' hb => ?_) s.pairwise_reached
  have hplaces : ∀ {a : List Nat × Node} {a' : List Nat × Redirection},
      (if a.2.isDynamicImport then (s.redirection? a.2).map fun r => (a.1, r) else none) = some a' →
        a'.1 = a.1 := by
    intro a a' h
    split at h
    · obtain ⟨r, -, rfl⟩ := Option.map_eq_some_iff.1 h
      rfl
    · exact nomatch h
  rw [hplaces ha, hplaces hb]
  exact hlt

theorem map_snd_redirections :
    s.redirections.map Prod.snd = s.dynamicImports.filterMap s.redirection? := by
  rw [redirections, dynamicImports_eq_filter, List.map_filterMap, List.filterMap_filter,
    List.filterMap_map]
  refine List.filterMap_congr fun a _ => ?_
  rw [Function.comp_apply]
  by_cases hd : a.2.isDynamicImport = true
  · rw [if_pos hd, if_pos hd, Option.map_map]
    exact Option.map_id'
  · rw [if_neg hd, if_neg hd]
    rfl

end Script

/-! ## The pass -/

section Pass

variable {s : Script} {names : Settings} {d d' : Draft}

theorem lookup_isInfix_renderHeader {imports : ImportTable} {specifier recordId : Text} (id : Text)
    (h : (specifier, recordId) ∈ imports.records) :
    ("const " ++ recordId ++ " = " ++ names.requireHelper ++ "(" ++ (registryKey specifier).quote ++
      ")" : Text) <:+: renderHeader names id imports :=
  isInfix_renderHeader (List.mem_append_right _ (List.mem_map_of_mem (f := renderLookup names) h))

/-- When dynamic imports are redirected, the calls that are redirected, in the order of their places,
are those calls of `import` in statements other than imports, at any depth, whose only argument is a
string that stands for a relative specifier. Callee and argument of each of them are replaced, by the
loader and by the quoted key of the specifier, and there is no other edit; the number of redirections
is added to the count, and nothing else of the draft is changed. The key is the only one that the
specifier has, and the header looks a module of the same specifier up by the same quoted key. -/
theorem redirectImports_exact {k : Nat} (h : Succeeds (redirectImports s names) d k d') :
    ∃ rs : List (List Nat × Redirection),
      (∀ places r, (places, r) ∈ rs ↔ ∃ call, s.Reaches places call ∧ s.IsRedirected call r) ∧
      (rs.Pairwise fun a b => a.1 < b.1) ∧
      d.overlay.Takes (rs.flatMap fun a =>
        [.replace (s.startAt a.2.callee) (s.stopAt a.2.callee) names.dynamicImportHelper,
          .replace (s.startAt a.2.argument) (s.stopAt a.2.argument)
            (registryKey a.2.specifier).quote]) d'.overlay ∧
      d' = { d with overlay := d'.overlay, dynamicImports := d.dynamicImports + rs.length } ∧
      k = d.dynamicImports + rs.length ∧
      ∀ a ∈ rs, s.HasSpan a.2.callee ∧ s.HasSpan a.2.argument ∧
        (∀ key, IsKeyOf key a.2.specifier ↔ key = registryKey a.2.specifier) ∧
        ∀ id recordId imports, (a.2.specifier, recordId) ∈ ImportTable.records imports →
          ("const " ++ recordId ++ " = " ++ names.requireHelper ++ "(" ++
            (registryKey a.2.specifier).quote ++ ")" : Text) <:+: renderHeader names id imports := by
  obtain ⟨hredirects, rfl⟩ := redirectImports_redirects h
  rw [← s.map_snd_redirections] at hredirects
  have hframe := hredirects.frame
  rw [List.length_map] at hframe
  refine ⟨s.redirections, fun _ _ => Script.mem_redirections_iff, s.pairwise_redirections, ?_,
    hframe, by rw [hframe], fun a ha => ?_⟩
  · have htakes := hredirects.takes
    rwa [List.flatMap_map] at htakes
  · obtain ⟨hcallee, hargument⟩ := hredirects.spans a.2 (List.mem_map_of_mem ha)
    obtain ⟨call, -, hcall⟩ := Script.mem_redirections_iff.1 (show (a.1, a.2) ∈ _ from ha)
    have hrelative := List.isPrefixOf_iff_prefix.2 hcall.isRelative
    refine ⟨hcallee, hargument, fun key => ⟨IsKeyOf.eq_registryKey, ?_⟩, fun id recordId imports =>
      lookup_isInfix_renderHeader id⟩
    rintro rfl
    exact isKeyOf_registryKey hrelative

def dynamicModule : String :=
  "import('.//a/b' /* c */);\nf(import(g(import('./\\x63'))), import('vue'));\n"

theorem redirectImports_exact_dynamicModule :
    let s := Script.ofModule dynamicModule
    ∃ d' rs, Succeeds (redirectImports s {}) (Draft.ofText s.text) 2 d' ∧
      List.length rs = 2 ∧
      (∀ places r, (places, r) ∈ rs ↔ ∃ call, s.Reaches places call ∧ s.IsRedirected call r) ∧
      d' = { Draft.ofText s.text with overlay := d'.overlay, dynamicImports := 2 } ∧
      d'.overlay.serialize = ("__dynamic_import__(\"a/b\" /* c */);\n" ++
        "f(import(g(__dynamic_import__(\"c\"))), import('vue'));\n" : String) := by
  intro s
  let d' := (outcome (redirectImports s {}) (Draft.ofText s.text)).2
  have hruns : (outcome (redirectImports s {}) (Draft.ofText s.text)).1.toOption = some 2 ∧
      d'.overlay.serialize = ("__dynamic_import__(\"a/b\" /* c */);\n" ++
        "f(import(g(__dynamic_import__(\"c\"))), import('vue'));\n" : String) := by
    decide +kernel
  have hrun : Succeeds (redirectImports s {}) (Draft.ofText s.text) 2 d' :=
    outcome_eq_of_toOption hruns.1
  obtain ⟨rs, hmem, -, -, hframe, hcount, -⟩ := redirectImports_exact hrun
  have hlength : rs.length = 2 := (hcount.trans (Nat.zero_add _)).symm
  rw [hlength] at hframe
  exact ⟨d', rs, hrun, hlength, hmem, hframe, hruns.2⟩

end Pass

end RegistryScript
