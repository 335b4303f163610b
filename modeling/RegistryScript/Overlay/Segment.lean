import RegistryScript.Text.Decimal

/-! # Segments of a base text

A segment is a stretch of a base text together with what edits have attached to it: texts placed
in front of it and behind it, and a text that stands in its place.

* `Segment.content`: what the segment prints, the attached texts included.
* `Segment.split`: cuts a segment in two; the front part keeps the texts in front, the back part
  those behind. A segment whose body was replaced cannot be cut.
-/

namespace RegistryScript
set_option autoImplicit false

structure Segment where
  start : Int
  stop : Int
  base : Text
  /-- The text that stands in its place: empty after a deletion, absent before any edit. -/
  replacement : Option Text := none
  /-- Texts inserted in front of the stretch, in the order of insertion. -/
  left : List Text := []
  right : List Text := []
deriving DecidableEq, Repr, Inhabited

namespace Segment

def isEdited (s : Segment) : Bool := s.replacement.isSome

def body (s : Segment) : Text := s.replacement.getD s.base

def content (s : Segment) : Text := s.left.flatten ++ s.body ++ s.right.flatten

def range (start stop : Int) : Text := "[" ++ Text.ofInt start ++ ", " ++ Text.ofInt stop ++ ")"

/-! ## Cutting -/

def front (s : Segment) (cut : Int) : Segment :=
  { s with
    stop := cut
    base := s.base.take (Text.offset s.base.length (cut - s.start))
    right := [] }

def back (s : Segment) (cut : Int) : Segment :=
  -- only segments without a replacement are cut, so there is none to pass on
  { start := cut
    stop := s.stop
    base := s.base.drop (Text.offset s.base.length (cut - s.start))
    right := s.right }

structure SplitError where
  segment : Segment
  cut : Int
deriving DecidableEq, Repr

def SplitError.message (e : SplitError) : Text :=
  "Cannot split edited chunk " ++ range e.segment.start e.segment.stop ++ " at " ++
    Text.ofInt e.cut

def split (s : Segment) (cut : Int) : Except SplitError (Segment × Segment) :=
  if s.isEdited then .error ⟨s, cut⟩ else .ok (s.front cut, s.back cut)

end Segment

end RegistryScript
