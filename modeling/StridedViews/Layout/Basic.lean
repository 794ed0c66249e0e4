import StridedViews.ItemFormat
import StridedViews.Raise
import StridedViews.Word

/-!
Layouts: how the items of a buffer lie in memory.

A layout gives each axis a length and a signed byte stride, and optionally a suboffset: a
non-negative suboffset says that a pointer is stored where the axis leads, and that the items lie
that many bytes after its target. This module holds the data, its errors and its `Axis` view, along
which every computation on layouts recurses.
-/

namespace StridedViews

/-- The per-axis lists of a layout that must have one entry for each axis. -/
inductive AxisList where
  | strides | suboffsets
  deriving DecidableEq, Repr

/-- The name under which an error reports a per-axis list. -/
def AxisList.name : AxisList → String
  | strides => "strides"
  | suboffsets => "suboffsets"

/-- Why a layout cannot be built, or an index has no offset in it. -/
inductive LayoutError where
  | tooManyDimensions (dimensions max : Nat)
  | arrayLengthMismatch (list : AxisList) (expected actual : Nat)
  | zeroItemSize
  | itemSizeMismatch (format : String) (expected actual : Nat)
  | unknownItemSize (format : String)
  | lengthMismatch (expected actual : Nat)
  | lengthOverflow
  | indexRankMismatch (expected actual : Nat)
  | indexOutOfRange (dimension index length : Nat)
  deriving DecidableEq, Repr

/-- The text of a layout error. -/
def LayoutError.message : LayoutError → String
  | tooManyDimensions dimensions max => s!"too many dimensions: {dimensions} (maximum is {max})"
  | arrayLengthMismatch list expected actual =>
      s!"{list.name} has {actual} entries, expected {expected}"
  | zeroItemSize => "item size must be positive"
  | itemSizeMismatch format expected actual =>
      s!"item size {actual} does not match format '{format}' (expected {expected})"
  | unknownItemSize format => s!"cannot derive the item size of format '{format}'"
  | lengthMismatch expected actual => s!"length mismatch: expected {expected} bytes, got {actual}"
  | lengthOverflow => "layout size overflows"
  | indexRankMismatch expected actual =>
      s!"index has {actual} components, view has {expected} dimensions"
  | indexOutOfRange dimension index length =>
      s!"index {index} out of range for dimension {dimension} of length {length}"

/-- Every layout error is an error of value. -/
def LayoutError.kind (_ : LayoutError) : ErrorKind := .valueError

/-- A checked result whose failure means that a size or an offset does not fit in a word. -/
def orOverflow {α : Type} (x : Option α) : Except LayoutError α :=
  match x with
  | some a => .ok a
  | none => .error .lengthOverflow

/-- One axis of a layout. A negative or absent suboffset means that no pointer is followed. -/
structure Axis where
  length : Nat
  stride : Int
  suboffset : Option Int
  deriving DecidableEq, Repr

/-- The suboffset to add behind the axis's stored pointer, if the axis is indirect. -/
def Axis.indirect? (a : Axis) : Option Int := a.suboffset.filter (0 ≤ ·)

/-- How items lie in memory, relative to the start of a byte region. -/
structure Layout where
  /-- Bytes of all items together. -/
  length : Nat
  /-- Bytes of one item. -/
  itemSize : Nat
  format : ItemFormat
  /-- The text that `format` was read from. -/
  formatText : String
  shape : List Nat
  strides : List Int
  /-- Empty, or one entry for each axis. -/
  suboffsets : List Int
  readOnly : Bool
  /-- Where the item at index 0 of every axis lies. -/
  byteOffset : Nat
  deriving DecidableEq, Repr

/-- At most this many axes. -/
def maxDimensions : Nat := 64

/-- The exact number of items of a shape. -/
def shapeSize (shape : List Nat) : Nat := shape.foldr (· * ·) 1

/-- Whether any suboffset asks for a stored pointer to be followed. -/
def hasIndirection (suboffsets : List Int) : Bool := suboffsets.any (0 ≤ ·)

/-- Lines up the per-axis lists; an axis beyond the suboffsets has none. -/
def axesOf : List Nat → List Int → List Int → List Axis
  | n :: shape, s :: strides, suboffsets =>
      { length := n, stride := s, suboffset := suboffsets.head? } ::
        axesOf shape strides suboffsets.tail
  | _, _, _ => []

namespace Layout

/-- The axes, outermost first. -/
def axes (l : Layout) : List Axis := axesOf l.shape l.strides l.suboffsets

/-- The number of axes. -/
def rank (l : Layout) : Nat := l.shape.length

/-- The number of items, counted in an unsigned word. -/
def itemCount (l : Layout) : Nat := shapeSize l.shape % Word.modulus

/-- A layout without axes holds one item. -/
def isScalar (l : Layout) : Bool := l.shape.isEmpty

/-- Whether any axis follows stored pointers. -/
def isIndirect (l : Layout) : Bool := hasIndirection l.suboffsets

/-- The same layout, started `offset` bytes into the region. Nothing is checked. -/
def withByteOffset (l : Layout) (offset : Nat) : Layout := { l with byteOffset := offset }

/-- A flat run of `n` unsigned bytes. Nothing is checked. -/
def bytes (n : Nat) (readOnly : Bool) : Layout :=
  { length := n
    itemSize := 1
    format := .uint8
    formatText := "B"
    shape := [n]
    strides := [1]
    suboffsets := []
    readOnly
    byteOffset := 0 }

end Layout

/-- The axes keep the lengths of the shape. -/
theorem map_length_axesOf {shape : List Nat} {strides : List Int} (suboffsets : List Int)
    (h : strides.length = shape.length) :
    (axesOf shape strides suboffsets).map Axis.length = shape := by
  induction shape generalizing strides suboffsets with
  | nil => cases strides <;> rfl
  | cons n shape ih =>
    cases strides with
    | nil => simp at h
    | cons s strides => simp [axesOf, ih suboffsets.tail (by simpa using h)]

end StridedViews
