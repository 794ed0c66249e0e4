import StridedViews.Proofs.Layout.Mirror

/-!
Layouts whose items do not overlap. The row-major rank tells indexes apart, and so does the
column-major one, which is the row-major rank of the reversed index. A contiguous layout of either
order puts each item at its rank (`Layout.place_of_isRowContiguous`, and from the other end
`Layout.place_of_isColumnContiguous`), so its items have no byte in common
(`Layout.itemsApart_of_isRowContiguous`, `Layout.itemsApart_of_isColumnContiguous`).
-/

namespace StridedViews

variable {shape i j : List Nat}

/-! ### Ranks -/

/-- How many indexes of a shape come before one of them in column-major order. -/
def columnRank (shape index : List Nat) : Nat := rowRank shape.reverse index.reverse

theorem InShape.reverse (h : InShape i shape) : InShape i.reverse shape.reverse :=
  List.forall₂_reverse_iff.mpr h

theorem columnRank_inj (hi : InShape i shape) (hj : InShape j shape)
    (h : columnRank shape i = columnRank shape j) : i = j :=
  List.reverse_injective (rowRank_inj hi.reverse hj.reverse h)

theorem shapeSize_concat (shape : List Nat) (n : Nat) :
    shapeSize (shape ++ [n]) = shapeSize shape * n := by
  simp [shapeSize_append]

theorem shapeSize_reverse (shape : List Nat) : shapeSize shape.reverse = shapeSize shape := by
  induction shape with
  | nil => rfl
  | cons n shape ih => rw [List.reverse_cons, shapeSize_concat, ih, shapeSize_cons, Nat.mul_comm]

example : columnRank [2, 3] [1, 2] = 5 := by decide

/-! ### Column-major layouts without gaps -/

theorem displacement_concat {index : List Nat} {strides : List Int}
    (h : index.length = strides.length) (k : Nat) (s : Int) :
    displacement (index ++ [k]) (strides ++ [s]) = displacement index strides + k * s := by
  induction index generalizing strides with
  | nil =>
    obtain rfl := List.eq_nil_of_length_eq_zero h.symm
    simp
  | cons i index ih =>
    cases strides with
    | nil => cases h
    | cons t strides =>
      rw [List.cons_append, List.cons_append, displacement_cons, displacement_cons,
        ih (Nat.succ.inj h), add_assoc]

/-- The axes add up in any order. -/
theorem displacement_reverse {index : List Nat} {strides : List Int}
    (h : index.length = strides.length) :
    displacement index.reverse strides.reverse = displacement index strides := by
  induction index generalizing strides with
  | nil =>
    obtain rfl := List.eq_nil_of_length_eq_zero h.symm
    rfl
  | cons i index ih =>
    cases strides with
    | nil => cases h
    | cons t strides =>
      have hlength := Nat.succ.inj h
      rw [List.reverse_cons, List.reverse_cons, displacement_concat (by simpa using hlength),
        ih hlength, displacement_cons, add_comm]

namespace Layout

variable {l : Layout} {index : List Nat}

/-- The items of a column-major layout without gaps lie in a row, in column-major order: from the other
end the layout is a row-major one. -/
theorem place_of_isColumnContiguous (hs : l.strides.length = l.shape.length)
    (hc : l.isColumnContiguous = true) (hx : InShape index l.shape) :
    l.place index = (l.byteOffset + l.itemSize * columnRank l.shape index : Nat) := by
  have hempty : l.shape.contains 0 = false := by simpa using hx.zero_notMem
  have hp : rowPacked l.itemSize l.axes.reverse = true := by
    simp only [isColumnContiguous, StridedViews.isColumnContiguous, hempty, Bool.false_or,
      Bool.and_eq_true] at hc
    rw [← columnPackedFrom_eq_rowPacked_reverse]
    exact hc.2
  have hshape : l.axes.reverse.map Axis.length = l.shape.reverse := by
    rw [List.map_reverse, axes, map_length_axesOf l.suboffsets hs]
  have hstrides : l.axes.reverse.map Axis.stride = l.strides.reverse := by
    rw [List.map_reverse, axes, map_stride_axesOf l.suboffsets hs]
  have hback := displacement_of_rowPacked hp (hshape.symm ▸ hx.reverse)
  rw [hshape, hstrides, displacement_reverse (hx.length_eq.trans hs.symm)] at hback
  rw [place, hback, columnRank]
  push_cast
  rfl

/-! ### Items apart -/

/-- The items at two indexes have no byte in common. -/
def Apart (l : Layout) (i j : List Nat) : Prop :=
  l.place i + l.itemSize ≤ l.place j ∨ l.place j + l.itemSize ≤ l.place i

/-- No two items have a byte in common. -/
def ItemsApart (l : Layout) : Prop :=
  ∀ i j, InShape i l.shape → InShape j l.shape → i ≠ j → l.Apart i j

/-- Items that lie in a row, numbered by some rank that tells their indexes apart, have no byte in
common. -/
theorem itemsApart_of_rank {rank : List Nat → Nat}
    (hplace : ∀ i, InShape i l.shape → l.place i = (l.byteOffset + l.itemSize * rank i : Nat))
    (hinj : ∀ i j, InShape i l.shape → InShape j l.shape → rank i = rank j → i = j) :
    l.ItemsApart := by
  have hbelow : ∀ {m n : Nat}, m < n → l.itemSize * m + l.itemSize ≤ l.itemSize * n :=
    fun h => (Nat.mul_succ ..).symm.le.trans (Nat.mul_le_mul_left _ h)
  intro i j hi hj hne
  rw [Apart, hplace i hi, hplace j hj]
  rcases Nat.lt_or_gt_of_ne (mt (hinj i j hi hj) hne) with h | h
  · have := hbelow h
    omega
  · have := hbelow h
    omega

theorem itemsApart_of_isRowContiguous (hs : l.strides.length = l.shape.length)
    (hc : l.isRowContiguous = true) : l.ItemsApart :=
  itemsApart_of_rank (fun _ hi => place_of_isRowContiguous hs hc hi.zero_notMem hi)
    fun _ _ => rowRank_inj

theorem itemsApart_of_isColumnContiguous (hs : l.strides.length = l.shape.length)
    (hc : l.isColumnContiguous = true) : l.ItemsApart :=
  itemsApart_of_rank (fun _ hi => place_of_isColumnContiguous hs hc hi)
    fun _ _ => columnRank_inj

end Layout
end StridedViews
