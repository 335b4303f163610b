import RegistryScript.Overlay.Segment

/-! # Overlays: edits laid over a base text

An overlay holds a base text and the edits made on it. All edits are addressed by offsets into the
base text, whatever was edited before. The base text is kept as segments that lie side by side; an
edit cuts segments at its ends and attaches its text to them. Segments are found by bisection of
the offsets where they start, and by two tables of the offsets where they start and end.

* `Overlay.serialize`: the edited text.
* `Overlay.prepend`, `Overlay.append`: texts around everything.
* `Overlay.insertBefore`, `Overlay.insertAfter`: a text that clings to the code point after, or
  before, an offset.
* `Overlay.replace`, `Overlay.delete`: another text, or none, in place of a range. A range of
  which a part was edited before is refused.
* `Editing`: an action on an overlay. A refused action too ends in an overlay, the one it left
  behind, so that "a refused edit changes nothing" can be said of it.
-/

namespace RegistryScript
set_option autoImplicit false

structure Overlay where
  base : Text
  /-- Texts before everything, the latest first. -/
  prologue : List Text := []
  epilogue : List Text := []
  /-- Texts inserted after offset `0`, where no segment ends. -/
  head : List Text := []
  /-- Texts inserted before the final offset, where no segment starts. -/
  tail : List Text := []
  /-- The segments in the order in which they were made. The place of a segment here is its key;
  all else refers to segments by their keys. -/
  pool : List Segment
  order : List Nat
  starts : List Int
  /-- The key of the segment that starts at an offset, the latest entry first. -/
  startingAt : List (Int × Nat)
  endingAt : List (Int × Nat)
deriving DecidableEq, Repr

inductive EditError
  | outOfRange (offset : Int) (length : Nat)
  | inverted (start stop : Int)
  | emptyRange (offset : Int)
  | overlap (start stop : Int) (existing : Segment)
deriving DecidableEq, Repr

def EditError.message : EditError → Text
  | .outOfRange offset length =>
    "Offset " ++ Text.ofInt offset ++ " out of range [0, " ++ Text.ofNat length ++ "]"
  | .inverted start stop =>
    "Range start " ++ Text.ofInt start ++ " is after end " ++ Text.ofInt stop
  | .emptyRange offset =>
    "Cannot replace an empty range at " ++ Text.ofInt offset ++
      "; use insert_before or insert_after"
  | .overlap start stop existing =>
    "Edit " ++ Segment.range start stop ++ " overlaps an edited range " ++
      Segment.range existing.start existing.stop

abbrev Editing := ExceptT EditError (StateM Overlay)

namespace Overlay

def ofText (base : Text) : Overlay :=
  { base
    pool := [{ start := 0, stop := base.length, base }]
    order := [0]
    starts := [0]
    startingAt := [(0, 0)]
    endingAt := [(base.length, 0)] }

/-! ## Segments -/

def segment (o : Overlay) (key : Nat) : Segment := o.pool.getD key default

def segments (o : Overlay) : List Segment := o.order.map o.segment

def update (o : Overlay) (key : Nat) (change : Segment → Segment) : Overlay :=
  { o with pool := o.pool.modify key change }

/-- The place, from the left, of the last segment that starts no later than an offset. -/
def locate (o : Overlay) (offset : Int) : Nat :=
  (o.starts.takeWhile fun start => start ≤ offset).length - 1

/-- The keys of the segments from the one an offset lies in up to a final offset. -/
def keysWithin (o : Overlay) (start stop : Int) : List Nat :=
  (o.order.drop (o.locate start)).takeWhile fun key => (o.segment key).start < stop

/-! ## Reading -/

def serialize (o : Overlay) : Text :=
  o.prologue.flatten ++ o.head.flatten ++ o.segments.flatMap Segment.content ++
    o.tail.flatten ++ o.epilogue.flatten

def hasChanged (o : Overlay) : Bool := o.serialize != o.base

def summary (o : Overlay) : Text :=
  "PatchBuffer(chunks=" ++ Text.ofNat o.segments.length ++ ", length=" ++
    Text.ofNat o.base.length ++ ")"

/-! ## Checks -/

def checkOffset (offset : Int) : Editing Unit := do
  let length := (← get).base.length
  if 0 ≤ offset ∧ offset ≤ length then pure () else throw (.outOfRange offset length)

def checkRange (start stop : Int) : Editing Unit := do
  checkOffset start
  checkOffset stop
  if stop < start then throw (.inverted start stop)

def editedWithin? (o : Overlay) (start stop : Int) : Option Segment :=
  ((o.keysWithin start stop).map o.segment).find? Segment.isEdited

def slice (start stop : Int) : Editing Text := do
  checkRange start stop
  return (← get).base.cut start.toNat stop.toNat

/-! ## Boundaries -/

def isBoundary (o : Overlay) (offset : Int) : Bool :=
  (o.startingAt.lookup offset).isSome || (o.endingAt.lookup offset).isSome

def enter (offset : Int) (offsets : List Int) : List Int :=
  offsets.takeWhile (fun o => o ≤ offset) ++ offset :: offsets.dropWhile fun o => o ≤ offset

/-- Cuts the segment at a place from the left, which has the given key. The front part keeps the
key, the back part is a new segment. -/
def cutAt (o : Overlay) (place key : Nat) (offset : Int) : Overlay :=
  let s := o.segment key
  let new := o.pool.length
  { o with
    pool := o.pool.set key (s.front offset) ++ [s.back offset]
    order := o.order.insertIdx (place + 1) new
    starts := enter offset o.starts
    startingAt := (offset, new) :: o.startingAt
    -- the new entry for the end of the segment hides the one that leads to its front part
    endingAt := (s.stop, new) :: (offset, key) :: o.endingAt }

def split (offset : Int) : Editing Unit := do
  let o ← get
  -- a boundary needs no cut, so an edited segment is refused only when the offset is inside it
  if o.isBoundary offset then return
  let place := o.locate offset
  match o.order[place]? with
  | none => pure ()
  | some key =>
    if (o.segment key).isEdited then throw (.overlap offset offset (o.segment key))
    else set (o.cutAt place key offset)

/-! ## Edits -/

def prepend (text : Text) : Editing Unit :=
  modify fun o => { o with prologue := text :: o.prologue }

def append (text : Text) : Editing Unit :=
  modify fun o => { o with epilogue := o.epilogue ++ [text] }

def attachLeft (offset : Int) (text : Text) (o : Overlay) : Overlay :=
  match o.startingAt.lookup offset with
  | some key => o.update key fun s => { s with left := s.left ++ [text] }
  | none => o

def attachRight (offset : Int) (text : Text) (o : Overlay) : Overlay :=
  match o.endingAt.lookup offset with
  | some key => o.update key fun s => { s with right := s.right ++ [text] }
  | none => o

/-- Inserts a text in front of the code point at an offset. -/
def insertBefore (offset : Int) (text : Text) : Editing Unit := do
  checkOffset offset
  if offset = (← get).base.length then
    modify fun o => { o with tail := o.tail ++ [text] }
  else
    split offset
    modify (attachLeft offset text)

/-- Inserts a text behind the code point that ends at an offset. -/
def insertAfter (offset : Int) (text : Text) : Editing Unit := do
  checkOffset offset
  if offset = 0 then
    modify fun o => { o with head := o.head ++ [text] }
  else
    split offset
    modify (attachRight offset text)

def overwrite (text : Text) (o : Overlay) (key : Nat) : Overlay :=
  o.update key fun s => { s with replacement := some text }

/-- Puts a text in the place of several segments: the first one prints the text, the others print
nothing. -/
def overwriteAll (text : Text) (o : Overlay) : List Nat → Overlay
  | [] => o
  | key :: keys => keys.foldl (overwrite []) (o.overwrite text key)

def edit (start stop : Int) (text : Text) : Editing Unit := do
  if let some s := (← get).editedWithin? start stop then throw (.overlap start stop s)
  split start
  split stop
  -- looked up again, since the cuts may have made new segments
  modify fun o => o.overwriteAll text (o.keysWithin start stop)

def replace (start stop : Int) (text : Text) : Editing Unit := do
  checkRange start stop
  if start = stop then throw (.emptyRange start) else edit start stop text

/-- Deletes a range; an empty one has nothing to delete. -/
def delete (start stop : Int) : Editing Unit := do
  checkRange start stop
  if start = stop then pure () else edit start stop []

end Overlay

end RegistryScript
