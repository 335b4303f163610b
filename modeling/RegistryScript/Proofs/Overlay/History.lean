import Mathlib
import RegistryScript.Proofs.Overlay.Effect

/-! # The text of an overlay, told from the edits made on it

* `Edit`: an edit with its arguments.
* `Overlay.performAll`: edits made one after another; refused ones are passed over.
* `Overlay.accepted`: those of the edits that are not refused.
* `Edit.rendering`: the text that edits make of a base text, told offset by offset from the edits
  themselves, without segments.
* `Overlay.serialize_performAll`: what an overlay prints after any edits is the rendering of those
  that were accepted.
-/

namespace RegistryScript
set_option autoImplicit false

inductive Edit
  | prepend (text : Text)
  | append (text : Text)
  | insertBefore (offset : Int) (text : Text)
  | insertAfter (offset : Int) (text : Text)
  | replace (start stop : Int) (text : Text)
  | delete (start stop : Int)
deriving DecidableEq, Repr

namespace Edit

def run : Edit → Editing Unit
  | .prepend text => Overlay.prepend text
  | .append text => Overlay.append text
  | .insertBefore offset text => Overlay.insertBefore offset text
  | .insertAfter offset text => Overlay.insertAfter offset text
  | .replace start stop text => Overlay.replace start stop text
  | .delete start stop => Overlay.delete start stop

/-- The offsets that an edit leaves as boundaries. -/
def offsets : Edit → List Int
  | .prepend _ | .append _ => []
  | .insertBefore offset _ | .insertAfter offset _ => [offset]
  | .replace start stop _ | .delete start stop => if start < stop then [start, stop] else []

/-! ## The rendering of edits -/

def prepended (es : List Edit) : List Text :=
  (es.filterMap fun | .prepend text => some text | _ => none).reverse

def appended (es : List Edit) : List Text :=
  es.filterMap fun | .append text => some text | _ => none

def textsBefore (p : Int) (es : List Edit) : List Text :=
  es.filterMap fun | .insertBefore q text => if q = p then some text else none | _ => none

def textsAfter (p : Int) (es : List Edit) : List Text :=
  es.filterMap fun | .insertAfter q text => if q = p then some text else none | _ => none

/-- The text in the place of a range that starts at an offset. -/
def textInPlace (p : Int) (es : List Edit) : Text :=
  es.flatMap fun | .replace start _ text => if start = p then text else [] | _ => []

def isCovered (p : Int) (es : List Edit) : Bool :=
  es.any fun
    | .replace start stop _ | .delete start stop => decide (start ≤ p ∧ p < stop)
    | _ => false

/-- What edits make of a base text at an offset: the texts inserted after it, those inserted before
it, the text in place of a range that starts there, and the code point itself unless it lies in
such a range. -/
def renderingAt (base : Text) (es : List Edit) (p : Nat) : Text :=
  (textsAfter p es).flatten ++ (textsBefore p es).flatten ++ textInPlace p es ++
    if isCovered p es then [] else base[p]?.toList

/-- What edits make of a base text, one offset after the other, both ends included. -/
def rendering (base : Text) (es : List Edit) : Text :=
  (prepended es).flatten ++ (List.range (base.length + 1)).flatMap (renderingAt base es) ++
    (appended es).flatten

end Edit

/-! ## Edits of a view -/

namespace View

def ofText (base : Text) : View where
  base := base
  prologue := []
  epilogue := []
  before := fun _ => []
  after := fun _ => []
  inPlace := fun _ => []
  covered := fun _ => false

def apply (v : View) : Edit → View
  | .prepend text => { v with prologue := text :: v.prologue }
  | .append text => { v with epilogue := v.epilogue ++ [text] }
  | .insertBefore p text => v.insertBefore p text
  | .insertAfter p text => v.insertAfter p text
  | .replace start stop text => v.cover start stop text
  | .delete start stop => v.cover start stop []

theorem cover_empty (v : View) (p : Int) : v.cover p p [] = v := by
  refine View.ext rfl rfl rfl rfl rfl ?_ ?_
  · funext q
    simp [cover]
  · funext q
    simp only [cover]
    rw [decide_eq_false (by omega), Bool.or_false]

section Fold

variable (es : List Edit) (v : View)

theorem foldl_apply_base : (es.foldl apply v).base = v.base := by
  induction es generalizing v with
  | nil => rfl
  | cons e es ih =>
    rw [List.foldl_cons, ih]
    cases e <;> rfl

theorem foldl_apply_prologue :
    (es.foldl apply v).prologue = Edit.prepended es ++ v.prologue := by
  induction es generalizing v with
  | nil => rfl
  | cons e es ih =>
    rw [List.foldl_cons, ih]
    cases e <;> simp [apply, Edit.prepended, insertBefore, insertAfter, cover]

theorem foldl_apply_epilogue :
    (es.foldl apply v).epilogue = v.epilogue ++ Edit.appended es := by
  induction es generalizing v with
  | nil => simp [Edit.appended]
  | cons e es ih =>
    rw [List.foldl_cons, ih]
    cases e <;> simp [apply, Edit.appended, insertBefore, insertAfter, cover]

theorem foldl_apply_before (p : Int) :
    (es.foldl apply v).before p = v.before p ++ Edit.textsBefore p es := by
  induction es generalizing v with
  | nil => simp [Edit.textsBefore]
  | cons e es ih =>
    rw [List.foldl_cons, ih]
    cases e with
    | insertBefore q text =>
      by_cases h : q = p
      · simp [apply, Edit.textsBefore, insertBefore, h]
      · simp [apply, Edit.textsBefore, insertBefore, h, Ne.symm h]
    | _ => simp [apply, Edit.textsBefore, insertAfter, cover]

theorem foldl_apply_after (p : Int) :
    (es.foldl apply v).after p = v.after p ++ Edit.textsAfter p es := by
  induction es generalizing v with
  | nil => simp [Edit.textsAfter]
  | cons e es ih =>
    rw [List.foldl_cons, ih]
    cases e with
    | insertAfter q text =>
      by_cases h : q = p
      · simp [apply, Edit.textsAfter, insertAfter, h]
      · simp [apply, Edit.textsAfter, insertAfter, h, Ne.symm h]
    | _ => simp [apply, Edit.textsAfter, insertBefore, cover]

theorem foldl_apply_inPlace (p : Int) :
    (es.foldl apply v).inPlace p = v.inPlace p ++ Edit.textInPlace p es := by
  induction es generalizing v with
  | nil => simp [Edit.textInPlace]
  | cons e es ih =>
    rw [List.foldl_cons, ih]
    cases e with
    | replace start stop text =>
      by_cases h : start = p
      · simp [apply, Edit.textInPlace, cover, h]
      · simp [apply, Edit.textInPlace, cover, h, Ne.symm h]
    | _ => simp [apply, Edit.textInPlace, insertBefore, insertAfter, cover]

theorem foldl_apply_covered (p : Int) :
    (es.foldl apply v).covered p = (v.covered p || Edit.isCovered p es) := by
  induction es generalizing v with
  | nil => simp [Edit.isCovered]
  | cons e es ih =>
    rw [List.foldl_cons, ih]
    cases e <;> simp [apply, Edit.isCovered, insertBefore, insertAfter, cover, Bool.or_assoc]

theorem print_foldl_apply (base : Text) :
    (es.foldl apply (ofText base)).print = Edit.rendering base es := by
  have hbase : (es.foldl apply (ofText base)).base = base := foldl_apply_base es _
  have hat : ∀ p, (es.foldl apply (ofText base)).printAt p = Edit.renderingAt base es p := by
    intro p
    rw [printAt, remainder, foldl_apply_after, foldl_apply_before, foldl_apply_inPlace,
      foldl_apply_covered, hbase]
    simp [ofText, Edit.renderingAt]
  rw [print, foldl_apply_prologue, foldl_apply_epilogue, hbase, Edit.rendering]
  simp only [funext hat]
  simp [ofText]

end Fold

end View

/-! ## Runs of edits -/

namespace Overlay

def perform (o : Overlay) (e : Edit) : Overlay := (outcome e.run o).2

def accepts (o : Overlay) (e : Edit) : Bool := (outcome e.run o).1.isOk

def performAll (o : Overlay) (es : List Edit) : Overlay := es.foldl perform o

/-- Those of several edits that are not refused when they are made one after another. -/
def accepted (o : Overlay) : List Edit → List Edit
  | [] => []
  | e :: es => if o.accepts e then e :: (o.perform e).accepted es else (o.perform e).accepted es

/-- An edit is refused and the overlay is left as it was, or it is made: the overlay shows what is
told from its arguments, and the offsets in them are boundaries. -/
def Settles (e : Edit) (o : Overlay) : Prop :=
  (∃ err, outcome e.run o = (.error err, o)) ∨ ∃ o', Made e.run o (o.view.apply e) e.offsets o'

section Settles

variable {o : Overlay}

theorem settles_insertion {e : Edit} {p : Int}
    (h : RefusedInside e.run o p ∨ ∃ o', Made e.run o (o.view.apply e) e.offsets o') :
    Settles e o := by
  rcases h with ⟨key, -, -, -, -, h⟩ | h
  · exact .inl ⟨_, h⟩
  · exact .inr h

theorem settles_insertBefore (hc : o.Consistent) (p : Int) (text : Text) :
    Settles (.insertBefore p text) o := by
  by_cases h : 0 ≤ p ∧ p ≤ o.base.length
  · exact settles_insertion (hc.outcome_insertBefore text h.1 h.2)
  · refine .inl ⟨.outOfRange p o.base.length, ?_⟩
    rw [Edit.run, insertBefore, outcome_bind_of_error (by rw [outcome_checkOffset, if_neg h])]

theorem settles_insertAfter (hc : o.Consistent) (p : Int) (text : Text) :
    Settles (.insertAfter p text) o := by
  by_cases h : 0 ≤ p ∧ p ≤ o.base.length
  · exact settles_insertion (hc.outcome_insertAfter text h.1 h.2)
  · refine .inl ⟨.outOfRange p o.base.length, ?_⟩
    rw [Edit.run, insertAfter, outcome_bind_of_error (by rw [outcome_checkOffset, if_neg h])]

theorem settles_range (hc : o.Consistent) {e : Edit} {start stop : Int} {text : Text}
    (h : o.InRange start stop) (hlt : start < stop)
    (hrun : outcome e.run o = outcome (edit start stop text) o)
    (happly : o.view.apply e = o.view.cover start stop text)
    (hoffsets : e.offsets = [start, stop]) : Settles e o := by
  rcases hc.outcome_edit text h.1 hlt h.2.2 with ⟨key, -, -, -, -, h⟩ | ⟨-, o', h⟩
  · exact .inl ⟨_, hrun.trans h⟩
  · exact .inr ⟨o', hrun.trans h.outcome_eq, h.consistent, h.view_eq.trans happly.symm,
      hoffsets ▸ h.isBoundary_iff⟩

theorem settles_replace (hc : o.Consistent) (start stop : Int) (text : Text) :
    Settles (.replace start stop text) o := by
  by_cases h : o.InRange start stop
  · rcases h.2.1.eq_or_lt with rfl | hlt
    · exact .inl ⟨_, outcome_replace_empty text h⟩
    · exact settles_range hc h hlt (outcome_replace_of_lt text h hlt) rfl (if_pos hlt)
  · obtain ⟨err, herr⟩ := outcome_checkRange_of_not_inRange h
    exact .inl ⟨err, by rw [Edit.run, replace, outcome_bind_of_error herr]⟩

theorem settles_delete (hc : o.Consistent) (start stop : Int) :
    Settles (.delete start stop) o := by
  by_cases h : o.InRange start stop
  · rcases h.2.1.eq_or_lt with rfl | hlt
    · exact .inr ⟨o, outcome_delete_empty h, hc, (View.cover_empty o.view start).symm, fun q => by
        rw [Edit.offsets, if_neg (lt_irrefl start)]
        simp⟩
    · exact settles_range hc h hlt (outcome_delete_of_lt h hlt) rfl (if_pos hlt)
  · obtain ⟨err, herr⟩ := outcome_checkRange_of_not_inRange h
    exact .inl ⟨err, by rw [Edit.run, delete, outcome_bind_of_error herr]⟩

theorem Consistent.settles (hc : o.Consistent) (e : Edit) : Settles e o := by
  cases e with
  | prepend text => exact .inr ⟨_, rfl,
      ⟨hc.known, hc.distinct, hc.partition, hc.starts_eq, hc.starting, hc.ending⟩, rfl,
      fun q => (or_iff_right List.not_mem_nil).symm⟩
  | append text => exact .inr ⟨_, rfl,
      ⟨hc.known, hc.distinct, hc.partition, hc.starts_eq, hc.starting, hc.ending⟩, rfl,
      fun q => (or_iff_right List.not_mem_nil).symm⟩
  | insertBefore p text => exact settles_insertBefore hc p text
  | insertAfter p text => exact settles_insertAfter hc p text
  | replace start stop text => exact settles_replace hc start stop text
  | delete start stop => exact settles_delete hc start stop

end Settles

theorem Consistent.performAll {o : Overlay} (hc : o.Consistent) (es : List Edit) :
    (o.performAll es).Consistent ∧
      (o.performAll es).view = (o.accepted es).foldl View.apply o.view := by
  induction es generalizing o with
  | nil => exact ⟨hc, rfl⟩
  | cons e es ih =>
    rw [Overlay.performAll, List.foldl_cons, accepted]
    rcases hc.settles e with ⟨err, h⟩ | ⟨o', h, hc', hv, -⟩
    · have hp : o.perform e = o := congrArg Prod.snd h
      have ha : o.accepts e = false := by rw [accepts, h]; rfl
      rw [hp, ha]
      exact ih hc
    · have hp : o.perform e = o' := congrArg Prod.snd h
      have ha : o.accepts e = true := by rw [accepts, h]; rfl
      rw [hp, ha, if_pos rfl, List.foldl_cons, ← hv]
      exact ih hc'

theorem view_ofText (base : Text) : (ofText base).view = View.ofText base := by
  have hc := consistent_ofText base
  have hkey : ∀ key ∈ (ofText base).order,
      (ofText base).segment key = { start := 0, stop := base.length, base } := by
    intro key hk
    obtain rfl : key = 0 := List.mem_singleton.1 hk
    rfl
  refine View.ext rfl rfl rfl ?_ ?_ ?_ ?_
  · funext p
    change textsBefore _ p = []
    rw [textsBefore]
    split
    · rfl
    · cases hl : (ofText base).startingAt.lookup p with
      | none => rfl
      | some key => simp only [hkey key ((hc.starting p key).1 hl).1]
  · funext p
    change textsAfter _ p = []
    rw [textsAfter]
    split
    · rfl
    · cases hl : (ofText base).endingAt.lookup p with
      | none => rfl
      | some key => simp only [hkey key ((hc.ending p key).1 hl).1]
  · funext p
    change textInPlace _ p = []
    rw [textInPlace]
    cases hl : (ofText base).startingAt.lookup p with
    | none => rfl
    | some key => simp [hkey key ((hc.starting p key).1 hl).1]
  · funext p
    rfl

/-- Whatever edits are made on a text, in whatever order and with whatever arguments, what is
printed in the end is the rendering of the edits that were accepted. -/
theorem serialize_performAll (base : Text) (es : List Edit) :
    ((ofText base).performAll es).serialize =
      Edit.rendering base ((ofText base).accepted es) := by
  obtain ⟨hc, hv⟩ := (consistent_ofText base).performAll es
  rw [hc.serialize_eq_print, hv, view_ofText, View.print_foldl_apply]

end Overlay

end RegistryScript
