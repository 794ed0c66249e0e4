import StridedViews.Proofs.Layout.Extent
import StridedViews.Proofs.View.Gather

/-!
The bounds check on a direct layout is exact and sufficient. It works on words, but it decides over the
integers whether the extent lies in the region (`checkExtent_exact`). It accepts just the layouts whose
items all lie inside the region by the definition of strides (`checkExtent_eq_ok_iff`), and inside such
a region no access at an index of the shape can fail.
-/

namespace StridedViews

open Word (maxSigned minSigned modulus)

/-- Every item of a layout without pointers lies inside a region of `n` bytes; a layout without
items starts in it or at its end. -/
def Layout.Inside (l : Layout) (n : Nat) : Prop :=
  if 0 ∈ l.shape then l.byteOffset ≤ n
  else ∀ index, InShape index l.shape → 0 ≤ l.place index ∧ l.place index + l.itemSize ≤ n

variable {l : Layout} {n : Nat}

/-- The hull of a layout lies between two offsets, and its axes are no longer than a word says. -/
structure Layout.HullInside (l : Layout) (n : Nat) : Prop where
  axes_le : ∀ a ∈ l.axes, (a.length : Int) ≤ maxSigned
  low : 0 ≤ (l.byteOffset : Int) + lowReach l.axes
  high : (l.byteOffset : Int) + highReach l.axes + l.itemSize ≤ n

/-- If all items are inside, so is the hull, as both its ends are those of items. -/
theorem Layout.Inside.hullInside (hs : l.Sound) (hz : 0 ∉ l.shape)
    (hn : (n : Int) ≤ maxSigned) (h : l.Inside n) : l.HullInside n := by
  rw [Layout.Inside, if_neg hz] at h
  have hz' : 0 ∉ l.axes.map Axis.length := hs.map_length_axes.symm ▸ hz
  obtain ⟨low, hlow, hlow'⟩ := exists_displacement_eq_lowReach hz'
  obtain ⟨high, hhigh, hhigh'⟩ := exists_displacement_eq_highReach hz'
  rw [hs.map_length_axes] at hlow hhigh
  rw [hs.map_stride_axes] at hlow' hhigh'
  have hlo := (h low hlow).1
  have hhi := (h high hhigh).2
  rw [Layout.place, hlow'] at hlo
  rw [Layout.place, hhigh'] at hhi
  refine ⟨fun a ha => ?_, hlo, hhi⟩
  rcases hs.length_le with hle | ⟨hshape, hstrides⟩
  · have hle' := hs.axis_length_le hz ha
    omega
  · -- a flat run of bytes is as long as its only axis, whose last item lies inside
    have haxes : l.axes = [⟨l.length, 1, l.suboffsets.head?⟩] := by
      rw [Layout.axes, hshape, hstrides]
      rfl
    rw [haxes, List.mem_singleton] at ha
    rw [haxes, highReach_cons, highReach_nil] at hhi
    have hspan := le_max_right 0 (Axis.span ⟨l.length, 1, l.suboffsets.head?⟩)
    simp only [Axis.span, mul_one] at hspan hhi
    subst ha
    have hitem := hs.itemSize_pos
    dsimp only
    omega

theorem Layout.inside_of_hull (hs : l.Sound) (hz : 0 ∉ l.shape)
    (hlow : 0 ≤ (l.byteOffset : Int) + lowReach l.axes)
    (hhigh : (l.byteOffset : Int) + highReach l.axes + l.itemSize ≤ n) : l.Inside n := by
  rw [Layout.Inside, if_neg hz]
  intro index hx
  obtain ⟨hlo, hhi⟩ := displacement_mem_reach (hs.map_length_axes.symm ▸ hx)
  rw [hs.map_stride_axes] at hlo hhi
  rw [Layout.place]
  omega

/-! ### The arithmetic of the check -/

namespace ByteRange.InWords

variable {r : ByteRange}

/-- The end of an interval is read as an unsigned word only behind a start that is not negative, and
then it is not negative either. -/
theorem outside_iff (hr : r.InWords) :
    (r.lo < 0 ∨ Word.wrapUnsigned r.hi > n) ↔ ¬ (0 ≤ r.lo ∧ r.hi ≤ n) := by
  obtain ⟨-, hle, hhi⟩ := hr
  by_cases hlo : r.lo < 0
  · exact iff_of_true (.inl hlo) (by omega)
  · have hend : (Word.wrapUnsigned r.hi : Int) = r.hi := by
      refine Word.wrapUnsigned_of_lt (by omega) ?_
      unfold maxSigned at hhi
      unfold modulus
      omega
    omega

/-- The length of an interval may be no signed word, but it is always an unsigned one. -/
theorem wrapUnsigned_length (hr : r.InWords) :
    (Word.wrapUnsigned (Word.wrapSigned (r.hi - r.lo)) : Int) = r.hi - r.lo := by
  obtain ⟨hlo, hle, hhi⟩ := hr
  rw [Word.wrapUnsigned_wrapSigned]
  refine Word.wrapUnsigned_of_lt (by omega) ?_
  unfold minSigned at hlo
  unfold maxSigned at hhi
  unfold modulus
  omega

end ByteRange.InWords

namespace Region

variable {range : ByteRange}

theorem checkExtent_eq_ite (h : l.extent = .ok (some range)) :
    checkExtent l n =
      if range.lo < 0 ∨ Word.wrapUnsigned range.hi > n then
        .error (.outOfBounds range.lo (Word.wrapUnsigned (Word.wrapSigned (range.hi - range.lo))) n)
      else .ok () := by
  rw [checkExtent, h]
  rfl

theorem checkExtent_of_extent (h : l.extent = .ok (some range)) :
    checkExtent l n = .ok () ↔ 0 ≤ range.lo ∧ range.hi ≤ n := by
  have houtside := (Layout.inWords_of_extent h).outside_iff (n := n)
  rw [checkExtent_eq_ite h]
  split
  · next hout => exact iff_of_false (fun h => by cases h) (houtside.mp hout)
  · next hin => exact iff_of_true rfl (not_not.mp (mt houtside.mpr hin))

/-- The check of the extent decides containment over the integers, although it reads the end of the
extent as an unsigned word and subtracts in signed ones: where there is an extent, the layout is
accepted just if the extent lies between 0 and the length of the region, and otherwise it is refused
with where the extent starts and with its exact length, which need not be a signed word. -/
theorem checkExtent_exact {lo hi : Int} (h : l.extent = .ok (some ⟨lo, hi⟩)) (n : Nat) :
    (checkExtent l n = .ok () ↔ 0 ≤ lo ∧ hi ≤ n) ∧
      (¬ (0 ≤ lo ∧ hi ≤ n) → ∃ length : Nat, (length : Int) = hi - lo ∧
        checkExtent l n = .error (.outOfBounds lo length n)) := by
  refine ⟨checkExtent_of_extent h, fun hout => ?_⟩
  have hrange := Layout.inWords_of_extent h
  refine ⟨_, hrange.wrapUnsigned_length, ?_⟩
  rw [checkExtent_eq_ite h, if_pos (hrange.outside_iff.mpr hout)]

/-- Two rows of two bytes, as far apart as two signed words can be: their extent is longer than a
signed word says, so that the difference of its ends wraps to a negative one. -/
theorem checkExtent_exact_widest :
    ∃ l, (LayoutRecipe.parts ⟨4, true, 1, "B", [2, 2],
        some [-9223372036854775808, 9223372036854775806], [], 0⟩).build = .ok l ∧
      l.extent = .ok (some ⟨-9223372036854775808, 9223372036854775807⟩) ∧
      Word.wrapSigned (9223372036854775807 - -9223372036854775808) = -1 ∧
      checkExtent l 4 = .error (.outOfBounds (-9223372036854775808) 18446744073709551615 4) := by
  have hl : (LayoutRecipe.parts ⟨4, true, 1, "B", [2, 2],
      some [-9223372036854775808, 9223372036854775806], [], 0⟩).build =
        .ok ⟨4, 1, .uint8, "B", [2, 2], [-9223372036854775808, 9223372036854775806], [], true, 0⟩ := by
    decide
  have hextent : Layout.extent
      ⟨4, 1, .uint8, "B", [2, 2], [-9223372036854775808, 9223372036854775806], [], true, 0⟩ =
        .ok (some ⟨-9223372036854775808, 9223372036854775807⟩) := by decide
  obtain ⟨length, hlength, hrefused⟩ := (checkExtent_exact hextent 4).2 (by decide)
  obtain rfl : length = 18446744073709551615 := by omega
  exact ⟨_, hl, hextent, by decide, hrefused⟩

/-! ### Which layouts are accepted -/

theorem exists_extent_of_checkExtent (h : checkExtent l n = .ok ()) :
    ∃ range, l.extent = .ok range := by
  cases he : l.extent with
  | ok range => exact ⟨range, rfl⟩
  | error e => rw [checkExtent, he] at h; cases h

/-- A direct layout without items has to start in the region or at its end. -/
theorem checkExtent_of_empty_iff (hd : l.isIndirect = false) (hz : 0 ∈ l.shape) :
    checkExtent l n = .ok () ↔ l.byteOffset ≤ n ∧ (l.byteOffset : Int) ≤ maxSigned := by
  have hempty : l.itemCount = 0 := by
    rw [Layout.itemCount, shapeSize_eq_zero_iff.mpr hz, Nat.zero_mod]
  by_cases hstart : (l.byteOffset : Int) ≤ maxSigned
  · rw [checkExtent_of_extent (Layout.extent_of_empty hd hempty hstart)]
    dsimp only
    omega
  · refine ⟨fun h => ?_, fun h => absurd h.2 hstart⟩
    obtain ⟨range, he⟩ := exists_extent_of_checkExtent h
    rw [Layout.extent, if_neg (by simp [hd])] at he
    obtain ⟨start, hs, -⟩ := bind_eq_ok_iff.mp he
    obtain ⟨rfl, hle⟩ := Layout.start_eq_ok_iff.mp hs
    exact absurd hle hstart

/-- The check of the extent accepts a direct layout just if all its items lie inside the region. -/
theorem checkExtent_eq_ok_iff (hs : l.Sound) (hw : l.length < modulus)
    (hd : l.isIndirect = false) (hn : (n : Int) ≤ maxSigned) :
    checkExtent l n = .ok () ↔ l.Inside n := by
  by_cases hz : 0 ∈ l.shape
  · rw [checkExtent_of_empty_iff hd hz, Layout.Inside, if_pos hz]
    omega
  · have hitems : l.itemCount ≠ 0 := by
      rw [hs.itemCount_eq hw]
      exact (shapeSize_pos hz).ne'
    constructor
    · intro h
      obtain ⟨range, he⟩ := exists_extent_of_checkExtent h
      obtain rfl := Layout.extent_exact hd hitems he
      obtain ⟨hlow, hhigh⟩ := (checkExtent_of_extent he).mp h
      exact Layout.inside_of_hull hs hz hlow hhigh
    · intro h
      obtain ⟨haxes, hlow, hhigh⟩ := h.hullInside hs hz hn
      rw [checkExtent_of_extent (Layout.extent_of_hull hd hitems haxes hlow (by omega))]
      exact ⟨hlow, hhigh⟩

/-! ### Accesses -/

variable {region : List UInt8} {index : List Nat}

/-- Inside the region the item at an index starts where the strides say. -/
theorem itemOffset_of_inside (hs : l.Sound) (hd : l.isIndirect = false)
    (hr : (region.length : Int) ≤ maxSigned) (hin : l.Inside region.length)
    (hx : InShape index l.shape) :
    l.itemOffset (resolver region) index = .ok (l.place index) ∧
      span region (l.place index) l.itemSize = .ok (l.place index).toNat := by
  have hz := hx.zero_notMem
  obtain ⟨haxes, hlow, hhigh⟩ := hin.hullInside hs hz hr
  rw [Layout.Inside, if_neg hz] at hin
  refine ⟨Layout.itemOffset_of_hull hs.strides_length hd haxes hlow (by omega) _ hx, ?_⟩
  rw [span, if_pos (hin index hx)]

theorem readItem_of_inside (hs : l.Sound) (hd : l.isIndirect = false)
    (hr : (region.length : Int) ≤ maxSigned) (hin : l.Inside region.length)
    (hx : InShape index l.shape) : ∃ item, readItem l region index = .ok item := by
  obtain ⟨hoffset, hspan⟩ := itemOffset_of_inside hs hd hr hin hx
  exact ⟨_, bind_eq_ok_iff.mpr ⟨_, hoffset, bind_eq_ok_iff.mpr ⟨_, hspan, rfl⟩⟩⟩

theorem writeItem_of_inside (hs : l.Sound) (hd : l.isIndirect = false)
    (hr : (region.length : Int) ≤ maxSigned) (hin : l.Inside region.length)
    (hx : InShape index l.shape) {item : List UInt8} (hi : item.length = l.itemSize) :
    writeItem l region index item = .ok (splice region (l.place index).toNat item) := by
  obtain ⟨hoffset, hspan⟩ := itemOffset_of_inside hs hd hr hin hx
  have hsize : ¬ item.length ≠ l.itemSize := not_not.mpr hi
  rw [writeItem, if_neg hsize, itemStart, hoffset]
  change (span region (l.place index) l.itemSize >>= _) = _
  rw [hspan]
  rfl

/-- Reading a direct layout without items takes a slice of no bytes where it starts. -/
theorem gather_of_empty (hs : l.Sound) (hd : l.isIndirect = false) (hz : 0 ∈ l.shape)
    (hstart : l.byteOffset ≤ region.length) (hword : (l.byteOffset : Int) ≤ maxSigned) :
    gather l region = .ok [] := by
  have hc : l.isRowContiguous = true := by
    have hd' : hasIndirection l.suboffsets = false := hd
    simp [Layout.isRowContiguous, isRowContiguous, hd', hz]
  have hlength : l.length = 0 := by rw [hs.length_eq, shapeSize_eq_zero_iff.mpr hz, Nat.mul_zero]
  refine (gather_eq_slice hc).mpr ⟨hword, by omega, ?_⟩
  rw [hlength, List.take_zero]

theorem gather_of_inside (hs : l.Sound) (hd : l.isIndirect = false)
    (hr : (region.length : Int) ≤ maxSigned) (hin : l.Inside region.length) :
    ∃ bs, gather l region = .ok bs := by
  by_cases hz : 0 ∈ l.shape
  · rw [Layout.Inside, if_pos hz] at hin
    exact ⟨[], gather_of_empty hs hd hz hin (by omega)⟩
  · have hitems : ∀ index ∈ indexes l.shape, ∃ item, readItem l region index = .ok item :=
      fun index hx => readItem_of_inside hs hd hr hin (mem_indexes.mp hx)
    obtain ⟨bs, hbs⟩ := exists_itemwise_eq_ok_iff.mpr hitems
    exact ⟨bs, (gather_eq_ok_iff hs hz hr).mpr hbs⟩

end Region
end StridedViews
