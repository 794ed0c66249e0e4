import Mathlib.Data.List.Induction
import StridedViews.Proofs.Layout.Packed

/-!
The two orders mirror each other. To scan axes in column-major order is to scan them from the last to
the first in row-major order (`columnPackedFrom_eq_rowPacked_reverse`), although the one scan carries
the product of the lengths along and the other one computes it from the far end. So lists are
column-major without gaps just if they are row-major without gaps in reverse. Row-major strides fall
along the axes that are stepped along (`strides_fall_of_rowPacked`) and column-major ones rise, so a
layout has both orders just if it steps along one axis at most, from item to item
(`contiguity_mirrored`).
-/

namespace StridedViews

open Word (maxSigned)

variable {itemSize : Nat} {axes : List Axis}

/-! ### The scans in reverse -/

/-- The product that the column-major scan carries along is the one that the row-major scan of the
axes in reverse arrives at. -/
theorem rowStride_reverse (itemSize : Nat) (axes : List Axis) :
    rowStride itemSize axes.reverse =
      axes.foldl (fun expected a => nextStride expected a.length) (Word.distance? itemSize) :=
  List.foldr_reverse

theorem columnPackedFrom_concat (expected : Option Int) (axes : List Axis) (a : Axis) :
    columnPackedFrom expected (axes ++ [a]) =
      (columnPackedFrom expected axes &&
        a.fits (axes.foldl (fun expected b => nextStride expected b.length) expected)) := by
  induction axes generalizing expected with
  | nil => simp [columnPackedFrom]
  | cons b axes ih =>
    rw [List.cons_append, columnPackedFrom, columnPackedFrom, ih, List.foldl_cons, Bool.and_assoc]

/-- Column-major order is row-major order from the other end. -/
theorem columnPackedFrom_eq_rowPacked_reverse (itemSize : Nat) (axes : List Axis) :
    columnPackedFrom (Word.distance? itemSize) axes = rowPacked itemSize axes.reverse := by
  -- from the end, as the last axis is the one that needs the whole product in both scans
  induction axes using List.reverseRecOn with
  | nil => rfl
  | append_singleton axes a ih =>
    rw [columnPackedFrom_concat, ih, ← rowStride_reverse, List.reverse_concat, rowPacked,
      Bool.and_comm]

theorem rowStride_eq_foldr (itemSize : Nat) (axes : List Axis) :
    rowStride itemSize axes =
      (axes.map Axis.length).foldr (fun n expected => nextStride expected n)
        (Word.distance? itemSize) := by
  rw [List.foldr_map, rowStride]

/-- The scan sees nothing of the axes but their lengths and strides. -/
theorem rowPacked_congr {axes' : List Axis} (hn : axes'.map Axis.length = axes.map Axis.length)
    (hs : axes'.map Axis.stride = axes.map Axis.stride) :
    rowPacked itemSize axes' = rowPacked itemSize axes := by
  induction axes generalizing axes' with
  | nil =>
    obtain rfl := List.map_eq_nil_iff.mp hn
    rfl
  | cons a axes ih =>
    obtain ⟨a', axes', rfl, hlength, hn⟩ := List.map_eq_cons_iff.mp hn
    rw [List.map_cons, List.map_cons, List.cons.injEq] at hs
    rw [rowPacked, rowPacked, ih hn hs.2, Axis.fits, Axis.fits, hlength, hs.1, rowStride_eq_foldr, hn,
      ← rowStride_eq_foldr]

/-! ### Both orders at once -/

/-- The axes that are stepped along. -/
def longAxes (axes : List Axis) : List Axis := axes.filter (1 < ·.length)

theorem longAxes_cons_of_long {a : Axis} (h : 1 < a.length) :
    longAxes (a :: axes) = a :: longAxes axes :=
  List.filter_cons_of_pos (decide_eq_true h)

theorem longAxes_cons_of_short {a : Axis} (h : a.length ≤ 1) : longAxes (a :: axes) = longAxes axes :=
  List.filter_cons_of_neg (by simpa using h)

theorem mem_longAxes {a : Axis} : a ∈ longAxes axes ↔ a ∈ axes ∧ 1 < a.length := by
  rw [longAxes, List.mem_filter, decide_eq_true_eq]

theorem length_longAxes (axes : List Axis) :
    (longAxes axes).length = (axes.map Axis.length).countP (1 < ·) := by
  rw [longAxes, ← List.countP_eq_length_filter, List.countP_map]
  rfl

theorem longAxes_reverse (axes : List Axis) : longAxes axes.reverse = (longAxes axes).reverse :=
  List.filter_reverse

theorem forall_mem_longAxes_iff {step : Int} :
    (∀ a ∈ longAxes axes, a.stride = step) ↔
      ∀ k n : Nat, (axes.map Axis.length)[k]? = some n → 1 < n →
        (axes.map Axis.stride)[k]? = some step := by
  simp only [List.getElem?_map, Option.map_eq_some_iff]
  constructor
  · rintro h k n ⟨a, ha, rfl⟩ hlong
    exact ⟨a, ha, h a (mem_longAxes.mpr ⟨List.mem_of_getElem? ha, hlong⟩)⟩
  · intro h a ha
    obtain ⟨ha, hlong⟩ := mem_longAxes.mp ha
    obtain ⟨k, hk⟩ := List.mem_iff_getElem?.mp ha
    obtain ⟨b, hb, hstride⟩ := h k a.length ⟨a, hk, rfl⟩ hlong
    rw [hk] at hb
    cases hb
    exact hstride

/-- An axis that is stepped along steps over less than all items. -/
theorem stride_lt_of_rowPacked (hitem : 0 < itemSize) (hz : 0 ∉ axes.map Axis.length)
    (hp : rowPacked itemSize axes = true) {a : Axis} (ha : a ∈ axes) (hlong : 1 < a.length) :
    a.stride < (itemSize * shapeSize (axes.map Axis.length) : Nat) := by
  induction axes with
  | nil => cases ha
  | cons b axes ih =>
    obtain ⟨hb, hz⟩ := zero_notMem_cons.mp hz
    have hrest := shapeSize_pos hz
    obtain ⟨hstride, hp⟩ := rowPacked_cons hp
    rw [List.map_cons, shapeSize_cons]
    rcases List.mem_cons.mp ha with rfl | ha
    · have hgrow : itemSize * shapeSize (axes.map Axis.length) <
          itemSize * (a.length * shapeSize (axes.map Axis.length)) :=
        (Nat.mul_lt_mul_left hitem).mpr (lt_mul_of_one_lt_left hrest hlong)
      rw [hstride.resolve_left (by omega)]
      exact_mod_cast hgrow
    · have hgrow : itemSize * shapeSize (axes.map Axis.length) ≤
          itemSize * (b.length * shapeSize (axes.map Axis.length)) :=
        Nat.mul_le_mul_left _ (Nat.le_mul_of_pos_left _ hb)
      exact (ih hz hp ha).trans_le (by exact_mod_cast hgrow)

/-- Row-major strides fall from each axis that is stepped along to the next. -/
theorem strides_fall_of_rowPacked (hitem : 0 < itemSize) (hz : 0 ∉ axes.map Axis.length)
    (hp : rowPacked itemSize axes = true) :
    (longAxes axes).Pairwise fun a b => b.stride < a.stride := by
  induction axes with
  | nil => exact List.Pairwise.nil
  | cons a axes ih =>
    obtain ⟨-, hz⟩ := zero_notMem_cons.mp hz
    obtain ⟨hstride, hp⟩ := rowPacked_cons hp
    rcases Nat.lt_or_ge 1 a.length with hlong | hshort
    · rw [longAxes_cons_of_long hlong]
      refine List.pairwise_cons.mpr ⟨fun b hb => ?_, ih hz hp⟩
      obtain ⟨hb, hlong'⟩ := mem_longAxes.mp hb
      rw [hstride.resolve_left (by omega), ← Nat.cast_mul]
      exact stride_lt_of_rowPacked hitem hz hp hb hlong'
    · rw [longAxes_cons_of_short hshort]
      exact ih hz hp

/-- The strides cannot both fall and rise. -/
theorem length_longAxes_le_one (hitem : 0 < itemSize) (hz : 0 ∉ axes.map Axis.length)
    (hrow : rowPacked itemSize axes = true) (hcolumn : rowPacked itemSize axes.reverse = true) :
    (longAxes axes).length ≤ 1 := by
  have hz' : 0 ∉ axes.reverse.map Axis.length := by
    rwa [List.map_reverse, List.mem_reverse]
  have hfall := strides_fall_of_rowPacked hitem hz hrow
  have hrise := strides_fall_of_rowPacked hitem hz' hcolumn
  rw [longAxes_reverse, List.pairwise_reverse] at hrise
  cases hlong : longAxes axes with
  | nil => simp
  | cons a axes =>
    cases axes with
    | nil => simp
    | cons b axes =>
      rw [hlong] at hfall hrise
      have hlt := (List.pairwise_cons.mp hfall).1 b (List.mem_cons_self ..)
      have hgt := (List.pairwise_cons.mp hrise).1 b (List.mem_cons_self ..)
      omega

/-- Axes that are not stepped along hold a single item. -/
theorem shapeSize_of_longAxes_eq_nil (hz : 0 ∉ axes.map Axis.length) (h : longAxes axes = []) :
    shapeSize (axes.map Axis.length) = 1 := by
  induction axes with
  | nil => rfl
  | cons a axes ih =>
    obtain ⟨ha, hz⟩ := zero_notMem_cons.mp hz
    rcases Nat.lt_or_ge 1 a.length with hlong | hshort
    · rw [longAxes_cons_of_long hlong] at h
      cases h
    · rw [longAxes_cons_of_short hshort] at h
      rw [List.map_cons, shapeSize_cons, ih hz h]
      omega

/-- If one axis at most is stepped along, it has to step from item to item. -/
theorem rowPacked_iff_of_le_one (hitem : 0 < itemSize) (hz : 0 ∉ axes.map Axis.length)
    (hword : ∀ a ∈ axes, a.stride ≤ maxSigned) (hone : (longAxes axes).length ≤ 1) :
    rowPacked itemSize axes = true ↔ ∀ a ∈ longAxes axes, a.stride = itemSize := by
  induction axes with
  | nil => simp [longAxes, rowPacked]
  | cons a axes ih =>
    obtain ⟨-, hz⟩ := zero_notMem_cons.mp hz
    rw [List.forall_mem_cons] at hword
    rcases Nat.lt_or_ge 1 a.length with hlong | hshort
    · rw [longAxes_cons_of_long hlong] at hone ⊢
      have hrest : longAxes axes = [] :=
        List.eq_nil_of_length_eq_zero (by rw [List.length_cons] at hone; omega)
      have hsize := shapeSize_of_longAxes_eq_nil hz hrest
      have hinner : rowPacked itemSize axes = true :=
        (ih hz hword.2 (by simp [hrest])).mpr (by simp [hrest])
      rw [hrest, List.forall_mem_singleton]
      constructor
      · intro hp
        have hstride := (rowPacked_cons hp).1.resolve_left (by omega)
        rwa [hsize, Nat.cast_one, mul_one] at hstride
      · intro hstride
        -- the item size is a word because the stride is
        have hle : ((itemSize * shapeSize (axes.map Axis.length) : Nat) : Int) ≤ maxSigned := by
          rw [hsize, Nat.mul_one, ← hstride]
          exact hword.1
        rw [rowPacked, hinner, Axis.fits, rowStride_of_le hitem hz hle, hsize, hstride]
        simp
    · rw [longAxes_cons_of_short hshort] at hone ⊢
      rw [← ih hz hword.2 hone, rowPacked, Axis.fits, decide_eq_true hshort, Bool.true_or,
        Bool.true_and]

/-- Axes have both orders just if one of them at most is stepped along, from item to item. -/
theorem rowPacked_both_iff (hitem : 0 < itemSize) (hz : 0 ∉ axes.map Axis.length)
    (hword : ∀ a ∈ axes, a.stride ≤ maxSigned) :
    rowPacked itemSize axes = true ∧ rowPacked itemSize axes.reverse = true ↔
      (longAxes axes).length ≤ 1 ∧ ∀ a ∈ longAxes axes, a.stride = itemSize := by
  have hz' : 0 ∉ axes.reverse.map Axis.length := by
    rwa [List.map_reverse, List.mem_reverse]
  have hword' : ∀ a ∈ axes.reverse, a.stride ≤ maxSigned := fun a ha =>
    hword a (List.mem_reverse.mp ha)
  constructor
  · rintro ⟨hrow, hcolumn⟩
    have hone := length_longAxes_le_one hitem hz hrow hcolumn
    exact ⟨hone, (rowPacked_iff_of_le_one hitem hz hword hone).mp hrow⟩
  · rintro ⟨hone, hstep⟩
    refine ⟨(rowPacked_iff_of_le_one hitem hz hword hone).mpr hstep, ?_⟩
    refine (rowPacked_iff_of_le_one hitem hz' hword' ?_).mpr ?_
    · rwa [longAxes_reverse, List.length_reverse]
    · intro a ha
      rw [longAxes_reverse, List.mem_reverse] at ha
      exact hstep a ha

/-! ### Contiguous lists -/

section Scans

variable {shape : List Nat} {strides suboffsets suboffsets' : List Int}

theorem isColumnContiguous_eq_columnPacked (hz : 0 ∉ shape) (hd : hasIndirection suboffsets = false) :
    isColumnContiguous itemSize shape strides suboffsets =
      columnPackedFrom (Word.distance? itemSize) (axesOf shape strides suboffsets) := by
  have hempty : shape.contains 0 = false := by simpa using hz
  rw [isColumnContiguous, hd, hempty, Bool.not_false, Bool.true_and, Bool.false_or]

/-- Lists are column-major without gaps just if they are row-major without gaps in reverse. Of the
suboffsets it only matters whether one of them asks for a pointer to be followed. -/
theorem isColumnContiguous_eq_reverse (hs : strides.length = shape.length)
    (hd : hasIndirection suboffsets' = hasIndirection suboffsets) :
    isColumnContiguous itemSize shape strides suboffsets =
      isRowContiguous itemSize shape.reverse strides.reverse suboffsets' := by
  have hs' : strides.reverse.length = shape.reverse.length := by simpa using hs
  have hpacked : rowPacked itemSize (axesOf shape strides suboffsets).reverse =
      rowPacked itemSize (axesOf shape.reverse strides.reverse suboffsets') := by
    refine rowPacked_congr ?_ ?_
    · rw [List.map_reverse, map_length_axesOf _ hs, map_length_axesOf _ hs']
    · rw [List.map_reverse, map_stride_axesOf _ hs, map_stride_axesOf _ hs']
  rw [isColumnContiguous, isRowContiguous, hd, List.contains_reverse,
    columnPackedFrom_eq_rowPacked_reverse, hpacked]

/-- The scans for the two orders mirror each other, in every case: the lists are column-major without
gaps just if they are row-major without gaps in reverse, whether the suboffsets are reversed with them
or not. Direct lists of words without an empty axis have both orders just if one axis at most is longer
than 1, and that one steps from item to item. -/
theorem contiguity_mirrored (hs : strides.length = shape.length) :
    isColumnContiguous itemSize shape strides suboffsets =
        isRowContiguous itemSize shape.reverse strides.reverse suboffsets ∧
      isColumnContiguous itemSize shape strides suboffsets =
        isRowContiguous itemSize shape.reverse strides.reverse suboffsets.reverse ∧
      (1 ≤ itemSize → hasIndirection suboffsets = false → 0 ∉ shape → (∀ s ∈ strides, s ≤ maxSigned) →
        (isRowContiguous itemSize shape strides suboffsets = true ∧
            isColumnContiguous itemSize shape strides suboffsets = true ↔
          shape.countP (1 < ·) ≤ 1 ∧
            ∀ k n : Nat, shape[k]? = some n → 1 < n → strides[k]? = some (itemSize : Int))) := by
  refine ⟨isColumnContiguous_eq_reverse hs rfl, isColumnContiguous_eq_reverse hs List.any_reverse,
    fun hitem hd hz hword => ?_⟩
  have hshape := map_length_axesOf suboffsets hs
  have hstrides := map_stride_axesOf suboffsets hs
  have hword' : ∀ a ∈ axesOf shape strides suboffsets, a.stride ≤ maxSigned := fun a ha =>
    hword a.stride (hstrides ▸ List.mem_map_of_mem ha)
  rw [isRowContiguous_eq_rowPacked hz hd, isColumnContiguous_eq_columnPacked hz hd,
    columnPackedFrom_eq_rowPacked_reverse, rowPacked_both_iff hitem (hshape.symm ▸ hz) hword',
    length_longAxes, forall_mem_longAxes_iff, hshape, hstrides]

/-- Between two axes of length 1 that step anywhere, an axis longer than a signed word says steps from
item to item. -/
theorem contiguity_mirrored_oversizedAxis :
    isColumnContiguous 4 [1, 18446744073709551615, 1] [-700, 4, 9] [] =
        isRowContiguous 4 [1, 18446744073709551615, 1] [9, 4, -700] [] ∧
      isRowContiguous 4 [1, 18446744073709551615, 1] [-700, 4, 9] [] = true ∧
      isColumnContiguous 4 [1, 18446744073709551615, 1] [-700, 4, 9] [] = true := by
  obtain ⟨hmirror, -, hboth⟩ :=
    @contiguity_mirrored 4 [1, 18446744073709551615, 1] [-700, 4, 9] [] rfl
  refine ⟨hmirror, (hboth (by decide) rfl (by decide) (by decide)).mpr ⟨by decide, ?_⟩⟩
  intro k n hk hlong
  rcases k with _ | _ | _ | k
  · cases hk
    omega
  · rfl
  · cases hk
    omega
  · cases hk

end Scans

end StridedViews
