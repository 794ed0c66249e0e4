import StridedViews.Layout.Basic

/-!
Packed strides: deriving them from a shape, and recognising them.

In row-major order the last axis is packed tightest: its stride is the item size, and each axis
before it steps over the whole of what follows. Column-major order packs the first axis tightest.
An axis of length 1 is never stepped along, so recognition lets it carry any stride; a shape with a
zero-length axis holds no items and counts as packed.
-/

namespace StridedViews

/-- Row-major byte strides of a shape; each stride is the next one times the next length. -/
def rowMajorStrides (itemSize : Nat) : List Nat → Option (List Int)
  | [] => some []
  | [_] => (Word.distance? itemSize).map ([·])
  | _ :: n :: shape => do
      let inner ← rowMajorStrides itemSize (n :: shape)
      let step ← inner.head?
      let outer ← Word.mul? step (← Word.distance? n)
      return outer :: inner

/-- Column-major strides from an axis on that is to step by `step`. -/
def columnMajorFrom (step : Int) : List Nat → Option (List Int)
  | [] => some []
  | [_] => some [step]
  | n :: shape => do
      let outer ← columnMajorFrom (← Word.mul? step (← Word.distance? n)) shape
      return step :: outer

/-- Column-major byte strides of a shape. The item size must be representable whatever the rank. -/
def columnMajorStrides (itemSize : Nat) (shape : List Nat) : Option (List Int) := do
  columnMajorFrom (← Word.distance? itemSize) shape

/-- The stride that packs an axis outside one of `length` items with stride `expected`. Once a
stride is not representable, neither is any further out. -/
def nextStride (expected : Option Int) (length : Nat) : Option Int := do
  Word.mul? (← expected) (← Word.distance? length)

/-- Whether an axis has the stride that packs it, or never steps. -/
def Axis.fits (a : Axis) (expected : Option Int) : Bool := a.length ≤ 1 || some a.stride == expected

/-- The stride that an axis outside `axes` needs in row-major order. -/
def rowStride (itemSize : Nat) (axes : List Axis) : Option Int :=
  axes.foldr (fun a expected => nextStride expected a.length) (Word.distance? itemSize)

/-- Every axis has the stride that row-major order gives it. -/
def rowPacked (itemSize : Nat) : List Axis → Bool
  | [] => true
  | a :: axes => a.fits (rowStride itemSize axes) && rowPacked itemSize axes

/-- Every axis has the stride that column-major order gives it, the first one `expected`. -/
def columnPackedFrom (expected : Option Int) : List Axis → Bool
  | [] => true
  | a :: axes => a.fits expected && columnPackedFrom (nextStride expected a.length) axes

/-- Whether the lists describe a row-major layout without gaps. -/
def isRowContiguous (itemSize : Nat) (shape : List Nat) (strides suboffsets : List Int) : Bool :=
  !hasIndirection suboffsets &&
    (shape.contains 0 || rowPacked itemSize (axesOf shape strides suboffsets))

/-- Whether the lists describe a column-major layout without gaps. -/
def isColumnContiguous (itemSize : Nat) (shape : List Nat) (strides suboffsets : List Int) : Bool :=
  !hasIndirection suboffsets &&
    (shape.contains 0 ||
      columnPackedFrom (Word.distance? itemSize) (axesOf shape strides suboffsets))

namespace Layout

/-- Row-major without gaps. -/
def isRowContiguous (l : Layout) : Bool :=
  StridedViews.isRowContiguous l.itemSize l.shape l.strides l.suboffsets

/-- Column-major without gaps. -/
def isColumnContiguous (l : Layout) : Bool :=
  StridedViews.isColumnContiguous l.itemSize l.shape l.strides l.suboffsets

end Layout

theorem length_rowMajorStrides {itemSize : Nat} {shape : List Nat} {strides : List Int}
    (h : rowMajorStrides itemSize shape = some strides) : strides.length = shape.length := by
  induction shape generalizing strides with
  | nil => cases h; rfl
  | cons a shape ih =>
    cases shape with
    | nil =>
      simp only [rowMajorStrides, Option.map_eq_some_iff] at h
      obtain ⟨_, _, rfl⟩ := h
      rfl
    | cons n shape =>
      simp only [rowMajorStrides, Option.bind_eq_bind, Option.bind_eq_some_iff, Option.pure_def,
        Option.some.injEq] at h
      obtain ⟨inner, hi, _, _, _, _, _, _, rfl⟩ := h
      simp [ih hi]

end StridedViews
