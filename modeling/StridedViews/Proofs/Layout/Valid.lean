import StridedViews.Proofs.Layout.Extent
import StridedViews.Proofs.Layout.Strides

/-!
The checks of a layout are sound and complete. What they establish is one structure, `Layout.Valid`:
among its clauses are that counting the items never wraps, up to no axis of the shape, and that the
extent is computed without a failure. Conversely a request that leaves the strides to be derived,
has no empty axis and ends within the signed words (`LayoutParts.Derivable`) passes every check. No
product on the way is larger than the last one, so nothing overflows before the length does; an
empty axis would break this, as the product before it may be too large where the last is zero.
-/

namespace StridedViews

open Word (maxSigned minSigned modulus)

/-! ### Sizes -/

/-- A shape whose size in bytes was checked has no more items up to any axis than a word counts. -/
theorem shapeSize_take_lt {unit n : Nat} {shape : List Nat} (hunit : 0 < unit)
    (h : checkedSize unit shape = some n) (k : Nat) : shapeSize (shape.take k) < modulus := by
  rw [List.take_eq_take_min]
  have hk : min k shape.length ≤ shape.length := Nat.min_le_right _ _
  cases hmin : min k shape.length with
  | zero => simp [modulus]
  | succ j =>
    -- the item size itself is not checked, but its product with the first length is
    have hbytes := (checkedSize_eq_some_iff.mp h).1 j (by omega)
    exact lt_of_le_of_lt (Nat.le_mul_of_pos_left _ hunit) hbytes

/-- Without empty axes the products only grow, so they all fit if the last one does. -/
theorem checkedSize_of_lt {unit : Nat} {shape : List Nat} (hz : 0 ∉ shape)
    (h : unit * shapeSize shape < modulus) :
    checkedSize unit shape = some (unit * shapeSize shape) := by
  refine checkedSize_eq_some_iff.mpr ⟨fun k _ => ?_, rfl⟩
  exact lt_of_le_of_lt (Nat.mul_le_mul_left _ (shapeSize_take_le hz _)) h

/-! ### Derived strides -/

/-- The size of all items is the largest of the words that go into the strides. -/
theorem stridesFit_of_le {itemSize : Nat} {shape : List Nat} (hitem : 0 < itemSize) (hz : 0 ∉ shape)
    (hle : ((itemSize * shapeSize shape : Nat) : Int) ≤ maxSigned) : StridesFit itemSize shape := by
  have hitems := Nat.le_mul_of_pos_right itemSize (shapeSize_pos hz)
  refine ⟨by omega, fun n hn => ?_, fun i _ => ?_⟩
  · have hlength := le_shapeSize hz (List.mem_of_mem_tail hn)
    have hsize := Nat.le_mul_of_pos_left (shapeSize shape) hitem
    omega
  · have hinner := Nat.mul_le_mul_left itemSize (shapeSize_drop_le hz (i + 1))
    omega

/-- Deriving the strides of a shape without empty axes does not fail if the size of all items fits. -/
theorem rowMajorStrides_of_le {itemSize : Nat} {shape : List Nat} (hitem : 0 < itemSize)
    (hz : 0 ∉ shape) (hle : ((itemSize * shapeSize shape : Nat) : Int) ≤ maxSigned) :
    rowMajorStrides itemSize shape = some (exactStrides itemSize shape) := by
  cases shape with
  | nil => rfl
  | cons n shape =>
    exact (rowMajorStrides_eq_some_iff (List.cons_ne_nil _ _)).mpr ⟨stridesFit_of_le hitem hz hle, rfl⟩

/-! ### What the checks establish -/

/-- What is true of every layout that its parts have been checked for. -/
structure Layout.Valid (l : Layout) : Prop where
  rank_le : l.rank ≤ maxDimensions
  itemSize_pos : 1 ≤ l.itemSize
  format_eq : l.format = ItemFormat.parse l.formatText
  /-- The item size is that of the format, if the format fixes it. -/
  itemSize_eq : ∀ n, l.format.itemSize = some n → l.itemSize = n
  strides_length : l.strides.length = l.rank
  suboffsets_length : l.suboffsets.length = 0 ∨ l.suboffsets.length = l.rank
  /-- The length is the exact product of the item size and all axis lengths. -/
  length_eq : l.length = l.itemSize * shapeSize l.shape
  length_le : (l.length : Int) ≤ maxSigned
  /-- The count of the items up to any axis is a word, so that counting them all never wraps. -/
  count_lt : ∀ k, shapeSize (l.shape.take k) < modulus
  itemCount_eq : l.itemCount = shapeSize l.shape
  extent_ok : ∃ range, l.extent = .ok range

/-- The layout that the parts declare, with the exact row-major strides. -/
def LayoutParts.packed (p : LayoutParts) : Layout := p.layout (exactStrides p.itemSize p.shape)

/-- Parts that leave their strides to be derived and agree about all else. -/
structure LayoutParts.Derivable (p : LayoutParts) : Prop where
  rank_le : p.shape.length ≤ maxDimensions
  lengths_pos : ∀ n ∈ p.shape, 1 ≤ n
  itemSize_pos : 1 ≤ p.itemSize
  itemSize_eq : ∀ n, (ItemFormat.parse p.formatText).itemSize = some n → p.itemSize = n
  length_eq : p.length = p.itemSize * shapeSize p.shape
  strides_eq : p.strides = none
  suboffsets_eq : p.suboffsets = []
  end_le : (p.byteOffset : Int) + p.length ≤ maxSigned

namespace Layout

variable {p : LayoutParts} {l : Layout}

theorem valid_of_ofParts (h : ofParts p = .ok l) : l.Valid := by
  obtain ⟨hrank, hitem, hlength, strides, -, hlists, hextent, rfl⟩ := ofParts_eq_ok_iff.mp h
  obtain ⟨hpos, hformat⟩ := LayoutParts.checkItemSize_eq_ok_iff.mp hitem
  obtain ⟨hsize, hle⟩ := LayoutParts.checkLength_eq_ok_iff.mp hlength
  obtain ⟨hstrides, hsuboffsets⟩ := LayoutParts.checkLists_eq_ok_iff.mp hlists
  have hcount := shapeSize_take_lt hpos hsize
  have hall := hcount p.shape.length
  rw [List.take_length] at hall
  exact {
    rank_le := LayoutParts.checkRank_eq_ok_iff.mp hrank
    itemSize_pos := hpos
    format_eq := rfl
    itemSize_eq := hformat
    strides_length := hstrides
    suboffsets_length := hsuboffsets.imp_left fun hnil => List.length_eq_zero_iff.mpr hnil
    length_eq := (checkedSize_eq_some_iff.mp hsize).2
    length_le := hle
    count_lt := hcount
    itemCount_eq := Nat.mod_eq_of_lt hall
    extent_ok := hextent }

theorem valid_of_rowMajor {formatText : String} {shape : List Nat} {readOnly : Bool}
    (h : rowMajor formatText shape readOnly = .ok l) : l.Valid := by
  obtain ⟨p, hp⟩ := exists_parts_of_rowMajor h
  exact valid_of_ofParts hp

end Layout

namespace LayoutParts.Derivable

variable {p : LayoutParts}

theorem zero_notMem (h : p.Derivable) : 0 ∉ p.shape := fun hmem =>
  absurd (h.lengths_pos 0 hmem) (by decide)

theorem length_le (h : p.Derivable) :
    ((p.itemSize * shapeSize p.shape : Nat) : Int) ≤ maxSigned := by
  have hend := h.end_le
  have hlength := h.length_eq
  omega

theorem isIndirect_packed (h : p.Derivable) : p.packed.isIndirect = false := by
  change hasIndirection p.suboffsets = false
  rw [h.suboffsets_eq]
  rfl

theorem rowPacked_packed (h : p.Derivable) :
    rowPacked p.itemSize p.packed.axes = true := by
  have hstrides := rowMajorStrides_of_le h.itemSize_pos h.zero_notMem h.length_le
  exact rowPacked_of_rowMajorStrides hstrides p.suboffsets

theorem isRowContiguous_packed (h : p.Derivable) : p.packed.isRowContiguous = true :=
  (isRowContiguous_eq_rowPacked h.zero_notMem h.isIndirect_packed).trans h.rowPacked_packed

/-- The items fill the bytes from the byte offset on without a gap. -/
theorem extent_packed (h : p.Derivable) :
    p.packed.extent = .ok (some ⟨p.byteOffset, p.byteOffset + p.length⟩) := by
  have hend := h.end_le
  have hlength := h.length_eq
  have hle := h.length_le
  have haxes : p.packed.axes.map Axis.length = p.shape :=
    map_length_axesOf p.suboffsets (length_exactStrides p.itemSize p.shape)
  obtain ⟨hlow, hhigh⟩ := reach_of_rowPacked h.rowPacked_packed (haxes.symm ▸ h.zero_notMem)
  rw [haxes] at hhigh
  have hsize : shapeSize p.shape ≤ p.itemSize * shapeSize p.shape :=
    Nat.le_mul_of_pos_left _ h.itemSize_pos
  have hcount : p.packed.itemCount ≠ 0 := by
    have hpos := shapeSize_pos h.zero_notMem
    change shapeSize p.shape % modulus ≠ 0
    rw [Nat.mod_eq_of_lt (by unfold modulus; unfold maxSigned at hle; omega)]
    exact hpos.ne'
  have haxis : ∀ a ∈ p.packed.axes, (a.length : Int) ≤ maxSigned := by
    intro a ha
    have hmem : a.length ∈ p.shape := haxes ▸ List.mem_map_of_mem ha
    have hitems := le_shapeSize h.zero_notMem hmem
    omega
  have hfirst : (p.packed.byteOffset : Int) + lowReach p.packed.axes = p.byteOffset := by
    rw [hlow, add_zero]
    rfl
  have hlast : (p.packed.byteOffset : Int) + highReach p.packed.axes + p.packed.itemSize =
      p.byteOffset + p.length := by
    change (p.byteOffset : Int) + highReach p.packed.axes + p.itemSize = _
    rw [hhigh, hlength]
    push_cast
    ring
  rw [Layout.extent_of_hull h.isIndirect_packed hcount haxis (by omega) (by omega), hfirst, hlast]

theorem ofParts_eq (h : p.Derivable) : Layout.ofParts p = .ok p.packed := by
  have hle := h.length_le
  have hword : p.itemSize * shapeSize p.shape < modulus := by
    unfold modulus
    unfold maxSigned at hle
    omega
  have hsize := checkedSize_of_lt h.zero_notMem hword
  have hstrides : p.effectiveStrides = .ok (exactStrides p.itemSize p.shape) := by
    unfold effectiveStrides
    rw [h.strides_eq]
    exact orOverflow_eq_ok_iff.mpr (rowMajorStrides_of_le h.itemSize_pos h.zero_notMem hle)
  rw [← h.length_eq] at hsize hle
  exact Layout.ofParts_eq_ok_iff.mpr
    ⟨checkRank_eq_ok_iff.mpr h.rank_le,
      checkItemSize_eq_ok_iff.mpr ⟨h.itemSize_pos, h.itemSize_eq⟩,
      checkLength_eq_ok_iff.mpr ⟨hsize, hle⟩, _, hstrides,
      checkLists_eq_ok_iff.mpr ⟨length_exactStrides .., .inl h.suboffsets_eq⟩,
      ⟨_, h.extent_packed⟩, rfl⟩

end LayoutParts.Derivable

namespace Layout

/-- Every constructor that checks makes valid layouts only. Conversely, parts that are valid with
derived strides make a layout, and it is the row-major one without gaps: it keeps what the parts
declare, and its extent goes from the byte offset over exactly the declared length. -/
theorem checks_sound_and_complete :
    (∀ l, (∃ p, ofParts p = .ok l) ∨
        (∃ formatText shape readOnly, rowMajor formatText shape readOnly = .ok l) ∨
        (∃ formatText readOnly, scalar formatText readOnly = .ok l) → l.Valid) ∧
      ∀ p : LayoutParts, p.Derivable →
        ∃ strides, ofParts p = .ok (p.layout strides) ∧
          (p.layout strides).isRowContiguous = true ∧
          (p.layout strides).extent =
            .ok (some ⟨p.byteOffset, p.byteOffset + p.length⟩) := by
  constructor
  · rintro l (⟨p, h⟩ | ⟨formatText, shape, readOnly, h⟩ | ⟨formatText, readOnly, h⟩)
    · exact valid_of_ofParts h
    · exact valid_of_rowMajor h
    · exact valid_of_rowMajor h
  · intro p h
    exact ⟨_, h.ofParts_eq, h.isRowContiguous_packed, h.extent_packed⟩

/-- Two rows of three double words that end with the last byte of the signed words. -/
theorem checks_sound_and_complete_lastBytes :
    let p : LayoutParts := ⟨24, true, 4, "i", [2, 3], none, [], 9223372036854775783⟩
    p.Derivable ∧
      ∃ l, ofParts p = .ok l ∧ l.Valid ∧ l.isRowContiguous = true ∧
        l.extent = .ok (some ⟨9223372036854775783, 9223372036854775807⟩) := by
  intro p
  have hp : p.Derivable :=
    ⟨by decide, by decide, by decide, by decide, by decide, rfl, rfl, by decide⟩
  obtain ⟨strides, hl, hcontiguous, hextent⟩ := checks_sound_and_complete.2 p hp
  exact ⟨hp, _, hl, checks_sound_and_complete.1 _ (.inl ⟨p, hl⟩), hcontiguous, hextent⟩

end Layout
end StridedViews
