import StridedViews.Proofs.Layout.Valid
import StridedViews.Proofs.View.Bounds

/-!
Layouts that fill their bytes. A row-major layout that was built passes the check of the extent over a
region of exactly its length, whatever its shape, and so does a flat run of bytes where it is built at
all. Reading such a layout gives the region as it is.
-/

namespace StridedViews

open Word (maxSigned modulus)

variable {l : Layout} {region : List UInt8}

/-- A layout whose items lie in order and without a gap from the first byte on. -/
structure Layout.Filling (l : Layout) : Prop where
  contiguous : l.isRowContiguous = true
  start : l.byteOffset = 0

/-- All items of a filling layout are its region. -/
theorem Layout.Filling.gather (h : l.Filling) (hlength : region.length = l.length) :
    Region.gather l region = .ok region := by
  refine (Region.gather_eq_slice h.contiguous).mpr ⟨?_, ?_, ?_⟩
  · rw [h.start]
    decide
  · rw [h.start]
    omega
  · rw [h.start, List.drop_zero, ← hlength, List.take_length]

namespace Layout

/-- A direct layout with an empty axis is contiguous. -/
theorem isRowContiguous_of_empty (hd : l.isIndirect = false) (hz : 0 ∈ l.shape) :
    l.isRowContiguous = true := by
  have hd' : hasIndirection l.suboffsets = false := hd
  simp [isRowContiguous, StridedViews.isRowContiguous, hd', hz]

theorem filling_bytes (n : Nat) (readOnly : Bool) : (bytes n readOnly).Filling := by
  refine ⟨?_, rfl⟩
  by_cases hn : n = 0
  · exact isRowContiguous_of_empty rfl (by simp [bytes, hn])
  · have hz : 0 ∉ (bytes n readOnly).shape := by simpa [bytes] using Ne.symm hn
    have hstride : Word.distance? 1 = some 1 := by decide
    have hpacked : rowPacked 1 (bytes n readOnly).axes = true := by
      simp [bytes, axes, axesOf, rowPacked, rowStride, Axis.fits, hstride]
    exact (isRowContiguous_eq_rowPacked hz rfl).trans hpacked

/-- What a row-major layout is built from: parts at the start of the region, with nothing but the shape
declared. -/
theorem rowMajor_eq_ok {formatText : String} {shape : List Nat} {readOnly : Bool}
    (h : rowMajor formatText shape readOnly = .ok l) :
    ∃ p : LayoutParts, ofParts p = .ok l ∧ p.shape = shape ∧ p.readOnly = readOnly ∧
      p.strides = none ∧ p.suboffsets = [] ∧ p.byteOffset = 0 := by
  rw [rowMajor] at h
  split at h
  · cases h
  · obtain ⟨_, -, h⟩ := bind_eq_ok_iff.mp h
    exact ⟨_, h, rfl, rfl, rfl, rfl, rfl⟩

variable {formatText : String} {shape : List Nat} {readOnly : Bool}

theorem shape_of_rowMajor (h : rowMajor formatText shape readOnly = .ok l) : l.shape = shape := by
  obtain ⟨p, hp, hshape, -⟩ := rowMajor_eq_ok h
  obtain ⟨-, -, -, _, -, -, -, rfl⟩ := ofParts_eq_ok_iff.mp hp
  exact hshape

/-- Without empty axes, the parts of a row-major layout are such that nothing can go wrong. -/
theorem derivable_of_ofParts {p : LayoutParts} (h : ofParts p = .ok l) (hz : 0 ∉ p.shape)
    (hstrides : p.strides = none) (hsuboffsets : p.suboffsets = []) (hstart : p.byteOffset = 0) :
    p.Derivable := by
  have hvalid := valid_of_ofParts h
  obtain ⟨-, -, -, _, -, -, -, rfl⟩ := ofParts_eq_ok_iff.mp h
  exact {
    rank_le := hvalid.rank_le
    lengths_pos := fun n hn => Nat.one_le_iff_ne_zero.mpr fun h0 => hz (h0 ▸ hn)
    itemSize_pos := hvalid.itemSize_pos
    itemSize_eq := hvalid.itemSize_eq
    length_eq := hvalid.length_eq
    strides_eq := hstrides
    suboffsets_eq := hsuboffsets
    end_le := by
      have hle : (p.length : Int) ≤ maxSigned := hvalid.length_le
      omega }

/-- A row-major layout fills its bytes, and the check of its extent accepts exactly as many. -/
theorem filling_of_rowMajor (h : rowMajor formatText shape readOnly = .ok l) :
    l.Filling ∧ Region.checkExtent l l.length = .ok () := by
  obtain ⟨p, hp, -, -, hstrides, hsuboffsets, hstart⟩ := rowMajor_eq_ok h
  have hlayout : l.byteOffset = p.byteOffset ∧ l.suboffsets = p.suboffsets ∧ l.shape = p.shape := by
    obtain ⟨-, -, -, _, -, -, -, rfl⟩ := ofParts_eq_ok_iff.mp hp
    exact ⟨rfl, rfl, rfl⟩
  have hoffset : l.byteOffset = 0 := hlayout.1.trans hstart
  have hd : l.isIndirect = false := by
    rw [isIndirect, hlayout.2.1, hsuboffsets]
    rfl
  by_cases hz : 0 ∈ l.shape
  · refine ⟨⟨isRowContiguous_of_empty hd hz, hoffset⟩, ?_⟩
    rw [Region.checkExtent_of_empty_iff hd hz, hoffset]
    exact ⟨Nat.zero_le _, by decide⟩
  · have hderivable := derivable_of_ofParts hp (hlayout.2.2 ▸ hz) hstrides hsuboffsets hstart
    obtain rfl : p.packed = l := Except.ok.inj (hderivable.ofParts_eq.symm.trans hp)
    refine ⟨⟨hderivable.isRowContiguous_packed, hoffset⟩, ?_⟩
    rw [Region.checkExtent_of_extent hderivable.extent_packed, hstart]
    have hlength : p.packed.length = p.length := rfl
    dsimp only
    omega

end Layout

end StridedViews
