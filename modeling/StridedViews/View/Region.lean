import StridedViews.Layout.Extent
import StridedViews.Layout.Strides
import StridedViews.View.Error

/-!
Items of a region: reading and writing the items that a layout describes in a list of bytes. A
pointer stored in the region is a signed 64-bit offset into it, lowest byte first. Every access is
checked against the bounds of the region.
-/

namespace StridedViews

namespace Region

/-- The start of a range of bytes that lies inside a region. -/
def span (region : List UInt8) (offset : Int) (length : Nat) : Except ViewError Nat :=
  if 0 ≤ offset ∧ offset + length ≤ region.length then .ok offset.toNat
  else .error (.outOfBounds offset length region.length)

/-- The bytes of a range. -/
def bytesAt (region : List UInt8) (offset : Int) (length : Nat) :
    Except ViewError (List UInt8) := do
  let start ← span region offset length
  return (region.drop start).take length

/-- The target of the pointer stored at an offset. -/
def deref (region : List UInt8) (offset : Int) : Except ViewError Int := do
  return Word.wrapSigned (Word.ofLittleEndian (← bytesAt region offset 8))

/-- Follows the pointers stored in a region. -/
def resolver (region : List UInt8) : Resolver ViewError where
  ofLayout := .layout
  deref := deref region

/-- Where the item at an index starts. -/
def itemStart (l : Layout) (region : List UInt8) (index : List Nat) : Except ViewError Nat := do
  span region (← l.itemOffset (resolver region) index) l.itemSize

/-- The item at an index. -/
def readItem (l : Layout) (region : List UInt8) (index : List Nat) :
    Except ViewError (List UInt8) := do
  bytesAt region (← l.itemOffset (resolver region) index) l.itemSize

/-- The region with the item at an index replaced. -/
def writeItem (l : Layout) (region : List UInt8) (index : List Nat) (item : List UInt8) :
    Except ViewError (List UInt8) :=
  if item.length ≠ l.itemSize then
    .error (.itemLength l.itemSize item.length)
  else do
    return splice region (← itemStart l region index) item

/-- Adds the item at an offset to the items read before, newest first. -/
def collect (l : Layout) (region : List UInt8) (offset : Int) :
    Visit ViewError (List (List UInt8)) Unit := do
  let item ← Visit.ofExcept (bytesAt region offset l.itemSize)
  modify (item :: ·)

/-- All items in row-major order, found one by one. -/
def walk (l : Layout) (region : List UInt8) : Except ViewError (List UInt8) :=
  let (result, items) := (l.visitItems (resolver region) (collect l region)).run.run []
  result.map fun _ => items.reverse.flatten

/-- All items in row-major order; a contiguous run of them is taken at once. -/
def gather (l : Layout) (region : List UInt8) : Except ViewError (List UInt8) :=
  if l.isRowContiguous then do
    bytesAt region (← l.start.mapError .layout) l.length
  else
    walk l region

/-- A layout that follows no pointers stays inside a region of `regionLength` bytes. The end of its
extent is read as an unsigned word. The length reported of a layout that does not stay inside is a
difference of signed words, which wraps, and is then read as an unsigned one. -/
def checkExtent (l : Layout) (regionLength : Nat) : Except ViewError Unit := do
  match ← l.extent.mapError .layout with
  | none => return
  | some r =>
    if r.lo < 0 ∨ Word.wrapUnsigned r.hi > regionLength then
      throw (.outOfBounds r.lo (Word.wrapUnsigned (Word.wrapSigned (r.hi - r.lo))) regionLength)

theorem length_bytesAt {region bs : List UInt8} {offset : Int} {length : Nat}
    (h : bytesAt region offset length = .ok bs) : bs.length = length := by
  simp only [bytesAt, span, bind, Except.bind] at h
  split at h
  · cases h
  · next start hs =>
    split at hs
    · next hb =>
      cases hs
      cases h
      simp only [List.length_take, List.length_drop]
      omega
    · cases hs

end Region
end StridedViews
