import StridedViews.Layout.Offset

/-!
The byte extent of a layout: the smallest interval that holds all of its items, for a layout that
follows no pointers. Each axis stretches the interval by its last index times its stride, downwards
if the stride is negative.
-/

namespace StridedViews

/-- A half-open interval of byte offsets. -/
structure ByteRange where
  lo : Int
  hi : Int
  deriving DecidableEq, Repr

/-- Stretches the interval of item starts by one axis. -/
def ByteRange.stretch (r : ByteRange) (a : Axis) : Option ByteRange := do
  let span ← Word.mul? ((← Word.distance? a.length) - 1) a.stride
  if span < 0 then
    return { r with lo := ← Word.add? r.lo span }
  else
    return { r with hi := ← Word.add? r.hi span }

/-- The interval of item starts along all axes. -/
def ByteRange.stretchAll (r : ByteRange) : List Axis → Option ByteRange
  | [] => some r
  | a :: axes => do (← r.stretch a).stretchAll axes

/-- The bytes that a layout's items touch; `none` if that depends on stored pointers. A layout
without items touches the empty interval at its byte offset. -/
def Layout.extent (l : Layout) : Except LayoutError (Option ByteRange) :=
  if l.isIndirect then
    .ok none
  else do
    let start ← l.start
    if l.itemCount = 0 then
      return some ⟨start, start⟩
    else
      let range ← orOverflow do
        let starts ← ByteRange.stretchAll ⟨start, start⟩ l.axes
        return { starts with hi := ← Word.add? starts.hi (← Word.distance? l.itemSize) }
      return some range

end StridedViews
