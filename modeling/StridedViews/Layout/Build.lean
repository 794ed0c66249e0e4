import StridedViews.Layout.Extent
import StridedViews.Layout.Strides

/-!
Building layouts. `Layout.ofParts` checks what its caller declares, in a fixed order: rank, item
size, the item size of the format, the length, the per-axis lists, and at last that every offset of
a direct layout is representable. `Layout.rowMajor` and `Layout.scalar` derive all that can be
derived from a format of known item size. A `LayoutRecipe` is a request for any of them.
-/

namespace StridedViews

/-- What an exporter declares about its memory. -/
structure LayoutParts where
  length : Nat
  readOnly : Bool
  itemSize : Nat
  formatText : String
  shape : List Nat
  /-- Without them, the strides are row-major. -/
  strides : Option (List Int)
  suboffsets : List Int
  byteOffset : Nat
  deriving DecidableEq, Repr

/-- The product of `unit` and the lengths of a shape, each product checked as an unsigned word in turn. -/
def checkedSize (unit : Nat) : List Nat → Option Nat
  | [] => some unit
  | n :: shape => do checkedSize (← Word.unsigned? (unit * n)) shape

/-- A per-axis list has one entry for each of `rank` axes. -/
def checkEntries (list : AxisList) (rank actual : Nat) : Except LayoutError Unit :=
  if rank = actual then .ok () else .error (.arrayLengthMismatch list rank actual)

namespace LayoutParts

/-- There are not too many axes. -/
def checkRank (p : LayoutParts) : Except LayoutError Unit :=
  if p.shape.length > maxDimensions then
    .error (.tooManyDimensions p.shape.length maxDimensions)
  else
    .ok ()

/-- The declared item size is positive and agrees with the format. -/
def checkItemSize (p : LayoutParts) : Except LayoutError Unit :=
  if p.itemSize = 0 then
    .error .zeroItemSize
  else
    match (ItemFormat.parse p.formatText).itemSize with
    | none => .ok ()
    | some expected =>
      if expected = p.itemSize then .ok ()
      else .error (.itemSizeMismatch p.formatText expected p.itemSize)

/-- The declared length is that of all items, and is a signed word. -/
def checkLength (p : LayoutParts) : Except LayoutError Unit := do
  let expected ← orOverflow do
    let size ← checkedSize p.itemSize p.shape
    guard ((size : Int) ≤ Word.maxSigned)
    return size
  if expected = p.length then .ok () else .error (.lengthMismatch expected p.length)

/-- The declared strides, or the row-major ones. -/
def effectiveStrides (p : LayoutParts) : Except LayoutError (List Int) :=
  match p.strides with
  | some strides => .ok strides
  | none => orOverflow (rowMajorStrides p.itemSize p.shape)

/-- The strides have an entry for each axis, and so have the suboffsets if there are any. -/
def checkLists (p : LayoutParts) (strides : List Int) : Except LayoutError Unit := do
  checkEntries .strides p.shape.length strides.length
  if p.suboffsets.isEmpty then .ok ()
  else checkEntries .suboffsets p.shape.length p.suboffsets.length

/-- The layout that the parts declare, with their effective strides. -/
def layout (p : LayoutParts) (strides : List Int) : Layout :=
  { length := p.length
    itemSize := p.itemSize
    format := ItemFormat.parse p.formatText
    formatText := p.formatText
    shape := p.shape
    strides
    suboffsets := p.suboffsets
    readOnly := p.readOnly
    byteOffset := p.byteOffset }

end LayoutParts

namespace Layout

/-- The layout that an exporter declares, if its parts agree. -/
def ofParts (p : LayoutParts) : Except LayoutError Layout := do
  p.checkRank
  p.checkItemSize
  p.checkLength
  let strides ← p.effectiveStrides
  p.checkLists strides
  let _ ← (p.layout strides).extent
  return p.layout strides

/-- The row-major layout of a shape of items whose format fixes their size. -/
def rowMajor (formatText : String) (shape : List Nat) (readOnly : Bool) :
    Except LayoutError Layout :=
  match (ItemFormat.parse formatText).itemSize with
  | none => .error (.unknownItemSize formatText)
  | some itemSize => do
    let length ← orOverflow (checkedSize itemSize shape)
    ofParts
      { length, readOnly, itemSize, formatText, shape, strides := none, suboffsets := [],
        byteOffset := 0 }

/-- The layout of a single item. -/
def scalar (formatText : String) (readOnly : Bool) : Except LayoutError Layout :=
  rowMajor formatText [] readOnly

end Layout

/-- The ways of building a layout. -/
inductive LayoutRecipe where
  | parts (p : LayoutParts)
  | rowMajor (formatText : String) (shape : List Nat) (readOnly : Bool)
  | bytes (length : Nat) (readOnly : Bool)
  | scalar (formatText : String) (readOnly : Bool)
  /-- The layout of another recipe, started at a byte offset. -/
  | moved (r : LayoutRecipe) (offset : Nat)
  deriving DecidableEq, Repr

/-- The layout that a recipe makes. -/
def LayoutRecipe.build : LayoutRecipe → Except LayoutError Layout
  | parts p => Layout.ofParts p
  | rowMajor formatText shape readOnly => Layout.rowMajor formatText shape readOnly
  | bytes length readOnly => .ok (Layout.bytes length readOnly)
  | scalar formatText readOnly => Layout.scalar formatText readOnly
  | moved r offset => r.build.map (·.withByteOffset offset)

end StridedViews
