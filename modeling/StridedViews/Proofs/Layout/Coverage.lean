import StridedViews.Proofs.Layout.Extent
import StridedViews.Proofs.Layout.Tiles

/-!
Contiguous layouts tile their bytes. Both ranks number the indexes of a shape from 0 on without gaps, the
row-major one and the column-major one (`Numbering`). A layout that puts each item at its number, counted
in item sizes, has every byte of its span in exactly one item (`Layout.existsUnique_hasByte`), and its
extent is that span, whatever strides the axes of length 1 carry (`Layout.contiguous_tiles`).
-/

namespace StridedViews

/-! ### Numberings -/

/-- A numbering of the indexes of a shape: each of them has another number, and the numbers are those
below the size of the shape. -/
structure Numbering (shape : List Nat) (rank : List Nat → Nat) : Prop where
  lt : ∀ {i}, InShape i shape → rank i < shapeSize shape
  inj : ∀ {i j}, InShape i shape → InShape j shape → rank i = rank j → i = j
  onto : ∀ {k}, k < shapeSize shape → ∃ i, InShape i shape ∧ rank i = k

theorem numbering_rowRank (shape : List Nat) : Numbering shape (rowRank shape) where
  lt := rowRank_lt
  inj := rowRank_inj
  onto := by
    intro k hk
    rw [← List.mem_range, ← map_rowRank_indexes, List.mem_map] at hk
    obtain ⟨i, hi, hrank⟩ := hk
    exact ⟨i, mem_indexes.mp hi, hrank⟩

theorem numbering_columnRank (shape : List Nat) : Numbering shape (columnRank shape) where
  lt := by
    intro i hi
    rw [← shapeSize_reverse]
    exact rowRank_lt hi.reverse
  inj := columnRank_inj
  onto := by
    intro k hk
    rw [← shapeSize_reverse] at hk
    obtain ⟨i, hi, rfl⟩ := (numbering_rowRank shape.reverse).onto hk
    refine ⟨i.reverse, ?_, ?_⟩
    · have hrev := hi.reverse
      rwa [List.reverse_reverse] at hrev
    · rw [columnRank, List.reverse_reverse]

namespace Layout

variable {l : Layout} {rank : List Nat → Nat} {index : List Nat} {byte : Int}

/-- The items lie in a row in the order of a numbering. -/
structure InRow (l : Layout) (rank : List Nat → Nat) : Prop where
  numbering : Numbering l.shape rank
  place_eq : ∀ {i}, InShape i l.shape → l.place i = (l.byteOffset + l.itemSize * rank i : Nat)

theorem isIndirect_of_contiguous (hc : l.isRowContiguous = true ∨ l.isColumnContiguous = true) :
    l.isIndirect = false := by
  rcases hc with hc | hc
  · rw [isRowContiguous, StridedViews.isRowContiguous, Bool.and_eq_true, Bool.not_eq_true'] at hc
    exact hc.1
  · rw [isColumnContiguous, StridedViews.isColumnContiguous, Bool.and_eq_true, Bool.not_eq_true'] at hc
    exact hc.1

/-- The items of a contiguous layout lie in a row, in the one order or in the other. -/
theorem exists_inRow (hs : l.strides.length = l.shape.length)
    (hc : l.isRowContiguous = true ∨ l.isColumnContiguous = true) : ∃ rank, l.InRow rank := by
  rcases hc with hc | hc
  · exact ⟨_, numbering_rowRank l.shape, fun hi => place_of_isRowContiguous hs hc hi.zero_notMem hi⟩
  · exact ⟨_, numbering_columnRank l.shape, fun hi => place_of_isColumnContiguous hs hc hi⟩

theorem itemsApart_of_inRow (h : l.InRow rank) : l.ItemsApart :=
  itemsApart_of_rank (fun _ hi => h.place_eq hi) fun _ _ hi hj => h.numbering.inj hi hj

/-! ### Bytes -/

/-- The item at an index has a byte. -/
def HasByte (l : Layout) (index : List Nat) (byte : Int) : Prop :=
  l.place index ≤ byte ∧ byte < l.place index + l.itemSize

/-- Items that lie in a row leave no byte out, and have none twice. -/
theorem existsUnique_hasByte (h : l.InRow rank) (hitem : 0 < l.itemSize)
    (hlo : (l.byteOffset : Int) ≤ byte)
    (hhi : byte < l.byteOffset + (l.itemSize * shapeSize l.shape : Nat)) :
    ∃! index, InShape index l.shape ∧ l.HasByte index byte := by
  obtain ⟨m, rfl⟩ : ∃ m : Nat, byte = l.byteOffset + m := ⟨(byte - l.byteOffset).toNat, by omega⟩
  have hm : m < l.itemSize * shapeSize l.shape := by omega
  obtain ⟨i, hi, hrank⟩ := h.numbering.onto (Nat.div_lt_of_lt_mul hm)
  have hplace := h.place_eq hi
  have hdiv := Nat.div_add_mod m l.itemSize
  have hmod := Nat.mod_lt m hitem
  rw [hrank] at hplace
  refine ⟨i, ⟨hi, ?_⟩, ?_⟩
  · rw [HasByte, hplace]
    omega
  · rintro j ⟨hj, hbyte⟩
    by_contra hne
    have hapart := itemsApart_of_inRow h j i hj hi hne
    rw [Apart, hplace] at hapart
    rw [HasByte] at hbyte
    omega

/-- No item that lies in the row has a byte outside of it. -/
theorem hasByte_mem (h : l.InRow rank) (hi : InShape index l.shape) (hbyte : l.HasByte index byte) :
    (l.byteOffset : Int) ≤ byte ∧ byte < l.byteOffset + (l.itemSize * shapeSize l.shape : Nat) := by
  have hplace := h.place_eq hi
  have hlast : l.itemSize * rank index + l.itemSize ≤ l.itemSize * shapeSize l.shape := by
    rw [← Nat.mul_succ]
    exact Nat.mul_le_mul_left _ (h.numbering.lt hi)
  rw [HasByte] at hbyte
  omega

/-! ### The span -/

theorem displacement_of_inRow (h : l.InRow rank) (hi : InShape index l.shape) :
    displacement index l.strides = (l.itemSize * rank index : Nat) := by
  have hplace := h.place_eq hi
  rw [place] at hplace
  omega

/-- The first item of the row starts at the byte offset, and the last one ends with the length. -/
theorem reach_of_inRow (hs : l.Sound) (hz : 0 ∉ l.shape) (h : l.InRow rank) :
    lowReach l.axes = 0 ∧ highReach l.axes + l.itemSize = l.length := by
  have hlengths := hs.map_length_axes
  have hz' : 0 ∉ l.axes.map Axis.length := hlengths.symm ▸ hz
  have hsize := shapeSize_pos hz
  have hsucc : ∀ {k}, k < shapeSize l.shape → l.itemSize * k + l.itemSize ≤ l.length := by
    intro k hk
    rw [hs.length_eq, ← Nat.mul_succ]
    exact Nat.mul_le_mul_left _ hk
  constructor
  · obtain ⟨i, hi, hlow⟩ := exists_displacement_eq_lowReach hz'
    rw [hlengths] at hi
    rw [hs.map_stride_axes, displacement_of_inRow h hi] at hlow
    have hnonpos := lowReach_nonpos l.axes
    omega
  · obtain ⟨i, hi, hhigh⟩ := exists_displacement_eq_highReach hz'
    rw [hlengths] at hi
    rw [hs.map_stride_axes, displacement_of_inRow h hi] at hhigh
    have hle := hsucc (h.numbering.lt hi)
    obtain ⟨j, hj, hlast⟩ := h.numbering.onto (Nat.sub_lt hsize Nat.one_pos)
    obtain ⟨-, hreach⟩ := displacement_mem_reach (hlengths.symm ▸ hj)
    rw [hs.map_stride_axes, displacement_of_inRow h hj, hlast] at hreach
    have hlength : l.itemSize * (shapeSize l.shape - 1) + l.itemSize = l.length := by
      rw [hs.length_eq, ← Nat.mul_succ, Nat.succ_eq_add_one, Nat.sub_add_cancel hsize]
    omega

/-- A built contiguous layout that has items and an extent tiles its span. Each index has the offset that
the strides say, and the bytes of the item there lie in the span, which goes from the byte offset over
exactly the length; every byte of the span is in one item and in no other, so that the extent is the
span. -/
theorem contiguous_tiles {r : LayoutRecipe} (hl : r.build = .ok l) (hw : r.InWords)
    (hz : 0 ∉ l.shape) (hc : l.isRowContiguous = true ∨ l.isColumnContiguous = true)
    {range : Option ByteRange} (hextent : l.extent = .ok range) :
    (∀ index, InShape index l.shape →
      (∀ {ε : Type} (resolver : Resolver ε), l.itemOffset resolver index = .ok (l.place index)) ∧
        ∀ byte, l.HasByte index byte →
          (l.byteOffset : Int) ≤ byte ∧ byte < l.byteOffset + l.length) ∧
      l.ItemsApart ∧
      (∀ byte : Int, l.byteOffset ≤ byte → byte < l.byteOffset + l.length →
        ∃! index, InShape index l.shape ∧ l.HasByte index byte) ∧
      range = some ⟨l.byteOffset, l.byteOffset + l.length⟩ := by
  have hs := r.sound hl
  have hd := isIndirect_of_contiguous hc
  have hitems : l.itemCount ≠ 0 := by
    rw [hs.itemCount_eq (r.length_lt hw hl)]
    exact (shapeSize_pos hz).ne'
  obtain ⟨rank, hrow⟩ := exists_inRow hs.strides_length hc
  obtain ⟨hlow, hhigh⟩ := reach_of_inRow hs hz hrow
  obtain ⟨haxes, hlo, hhi, rfl⟩ := (extent_eq_ok_iff hd hitems).mp hextent
  have hitem := hs.itemSize_pos
  have hlength := hs.length_eq
  refine ⟨fun index hx => ⟨fun resolver => ?_, fun byte hbyte => ?_⟩, itemsApart_of_inRow hrow,
    fun byte hlo hhi => ?_, ?_⟩
  · exact itemOffset_of_inWords hs.strides_length hd haxes hlo (by omega) resolver hx
  · rw [hlength]
    exact hasByte_mem hrow hx hbyte
  · exact existsUnique_hasByte hrow hitem hlo (hlength ▸ hhi)
  · rw [hlow, add_zero, add_assoc, hhigh]

/-- Three columns of two half words from byte 5 on, with an axis of length 1 that steps backwards over more
than all of them. -/
def halfWordColumns : LayoutRecipe :=
  .moved (.parts ⟨12, true, 2, "h", [2, 1, 3], some [2, -700, 4], [], 0⟩) 5

/-- Each of its bytes is in exactly one item, for instance the last but one. -/
theorem contiguous_tiles_columnMajor :
    ∃ l, halfWordColumns.build = .ok l ∧ l.isColumnContiguous = true ∧
      l.extent = .ok (some ⟨5, 17⟩) ∧ l.ItemsApart ∧
      ∃! index, InShape index l.shape ∧ l.HasByte index 15 := by
  have hl : halfWordColumns.build =
      .ok ⟨12, 2, .int16, "h", [2, 1, 3], [2, -700, 4], [], true, 5⟩ := by decide
  have hw : halfWordColumns.InWords := by
    unfold halfWordColumns LayoutRecipe.InWords LayoutRecipe.InWords
    decide
  have hextent : Layout.extent ⟨12, 2, .int16, "h", [2, 1, 3], [2, -700, 4], [], true, 5⟩ =
      .ok (some ⟨5, 17⟩) := by decide
  obtain ⟨-, hapart, hbyte, -⟩ := contiguous_tiles hl hw (by decide) (.inr (by decide)) hextent
  exact ⟨_, hl, by decide, hextent, hapart, hbyte 15 (by decide) (by decide)⟩

end Layout
end StridedViews
