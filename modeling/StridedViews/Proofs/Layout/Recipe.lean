import StridedViews.Layout.Build
import StridedViews.Proofs.Fallible
import StridedViews.Proofs.Layout.Offset

/-!
What every built layout satisfies. `Layout.Sound` gathers the facts that a layout keeps whatever
recipe it was built by, and also when it is moved: its lists line up with its shape, and its length
is exactly that of its items (`LayoutRecipe.sound`).
-/

namespace StridedViews

open Word (maxSigned minSigned modulus)

/-- The facts about a built layout that do not depend on where it starts. -/
structure Layout.Sound (l : Layout) : Prop where
  strides_length : l.strides.length = l.shape.length
  itemSize_pos : 0 < l.itemSize
  /-- The length is that of all items, over unbounded numbers. -/
  length_eq : l.length = l.itemSize * shapeSize l.shape
  /-- The length is a signed word, unless the layout is a flat run of bytes. -/
  length_le : (l.length : Int) ≤ maxSigned ∨ l.shape = [l.length] ∧ l.strides = [1]

/-- A checked size is the exact one, and there is one just if no product on the way leaves the words. -/
theorem checkedSize_eq_some_iff {unit n : Nat} {shape : List Nat} :
    checkedSize unit shape = some n ↔
      (∀ k < shape.length, unit * shapeSize (shape.take (k + 1)) < modulus) ∧
        n = unit * shapeSize shape := by
  induction shape generalizing unit with
  | nil => simp [checkedSize, eq_comm]
  | cons a shape ih =>
    simp only [checkedSize, Option.bind_eq_bind, Option.bind_eq_some_iff, Word.unsigned?_eq_some_iff]
    constructor
    · rintro ⟨_, ⟨rfl, hlt⟩, h⟩
      obtain ⟨hfit, rfl⟩ := ih.mp h
      refine ⟨?_, by rw [shapeSize_cons, Nat.mul_assoc]⟩
      intro k hk
      cases k with
      | zero => simpa using hlt
      | succ k =>
        rw [List.take_succ_cons, shapeSize_cons, ← Nat.mul_assoc]
        exact hfit k (by simpa using hk)
    · rintro ⟨hfit, rfl⟩
      refine ⟨_, ⟨rfl, by simpa using hfit 0 (by simp)⟩, ih.mpr ⟨?_, by rw [shapeSize_cons, Nat.mul_assoc]⟩⟩
      intro k hk
      have h := hfit (k + 1) (by simpa using hk)
      rwa [List.take_succ_cons, shapeSize_cons, ← Nat.mul_assoc] at h

theorem checkEntries_eq_ok_iff {list : AxisList} {rank actual : Nat} :
    checkEntries list rank actual = .ok () ↔ actual = rank := by
  unfold checkEntries
  split
  · next heq => simp [heq]
  · next hne => simp [Ne.symm hne]

namespace LayoutParts

variable {p : LayoutParts}

theorem checkRank_eq_ok_iff : p.checkRank = .ok () ↔ p.shape.length ≤ maxDimensions := by
  simp [checkRank]

theorem checkItemSize_eq_ok_iff :
    p.checkItemSize = .ok () ↔
      0 < p.itemSize ∧
        ∀ n, (ItemFormat.parse p.formatText).itemSize = some n → p.itemSize = n := by
  unfold checkItemSize
  split
  · next hzero => simp [hzero]
  · next hne =>
    have hpos : 0 < p.itemSize := Nat.pos_of_ne_zero hne
    cases hformat : (ItemFormat.parse p.formatText).itemSize with
    | none => simp [hpos]
    | some expected => simp [hpos, eq_comm]

theorem checkLength_eq_ok_iff :
    p.checkLength = .ok () ↔
      checkedSize p.itemSize p.shape = some p.length ∧ (p.length : Int) ≤ maxSigned := by
  unfold checkLength
  simp only [bind_eq_ok_iff, orOverflow_eq_ok_iff, Option.bind_eq_bind,
    Option.bind_eq_some_iff, guard]
  constructor
  · rintro ⟨size, ⟨_, hsize, _, hfits, hpure⟩, hlength⟩
    cases hpure
    split at hlength
    · next heq =>
      rw [heq] at hsize hfits
      split at hfits
      · next hle => exact ⟨hsize, hle⟩
      · cases hfits
    · cases hlength
  · rintro ⟨hsize, hle⟩
    exact ⟨p.length, ⟨_, hsize, (), if_pos hle, rfl⟩, if_pos rfl⟩

theorem checkLists_eq_ok_iff {strides : List Int} :
    p.checkLists strides = .ok () ↔
      strides.length = p.shape.length ∧
        (p.suboffsets = [] ∨ p.suboffsets.length = p.shape.length) := by
  unfold checkLists
  constructor
  · intro h
    obtain ⟨⟨⟩, hstrides, h⟩ := bind_eq_ok_iff.mp h
    refine ⟨checkEntries_eq_ok_iff.mp hstrides, ?_⟩
    split at h
    · next hnil => exact .inl (List.isEmpty_iff.mp hnil)
    · exact .inr (checkEntries_eq_ok_iff.mp h)
  · rintro ⟨hstrides, hsuboffsets⟩
    refine bind_eq_ok_iff.mpr ⟨(), checkEntries_eq_ok_iff.mpr hstrides, ?_⟩
    split
    · rfl
    · next hne =>
      rw [List.isEmpty_iff] at hne
      exact checkEntries_eq_ok_iff.mpr (hsuboffsets.resolve_left hne)

end LayoutParts

/-- Parts make a layout if they pass every check, and then it is the one that they declare. -/
theorem Layout.ofParts_eq_ok_iff {p : LayoutParts} {l : Layout} :
    Layout.ofParts p = .ok l ↔
      p.checkRank = .ok () ∧ p.checkItemSize = .ok () ∧ p.checkLength = .ok () ∧
        ∃ strides, p.effectiveStrides = .ok strides ∧ p.checkLists strides = .ok () ∧
          (∃ range, (p.layout strides).extent = .ok range) ∧ l = p.layout strides := by
  unfold Layout.ofParts
  simp only [bind_eq_ok_iff]
  constructor
  · rintro ⟨⟨⟩, hrank, ⟨⟩, hitem, ⟨⟩, hlength, strides, hstrides, ⟨⟩, hlists, range, hextent, h⟩
    exact ⟨hrank, hitem, hlength, strides, hstrides, hlists, ⟨range, hextent⟩,
      (Except.ok.inj h).symm⟩
  · rintro ⟨hrank, hitem, hlength, strides, hstrides, hlists, ⟨range, hextent⟩, rfl⟩
    exact ⟨(), hrank, (), hitem, (), hlength, strides, hstrides, (), hlists, range, hextent, rfl⟩

theorem Layout.length_le_of_ofParts {p : LayoutParts} {l : Layout}
    (h : Layout.ofParts p = .ok l) : (l.length : Int) ≤ maxSigned := by
  obtain ⟨-, -, hlength, strides, -, -, -, rfl⟩ := Layout.ofParts_eq_ok_iff.mp h
  exact (LayoutParts.checkLength_eq_ok_iff.mp hlength).2

theorem Layout.sound_of_ofParts {p : LayoutParts} {l : Layout} (h : Layout.ofParts p = .ok l) :
    l.Sound := by
  have hle := Layout.length_le_of_ofParts h
  obtain ⟨-, hitem, hlength, strides, -, hlists, -, rfl⟩ := Layout.ofParts_eq_ok_iff.mp h
  exact ⟨(LayoutParts.checkLists_eq_ok_iff.mp hlists).1,
    (LayoutParts.checkItemSize_eq_ok_iff.mp hitem).1,
    (checkedSize_eq_some_iff.mp (LayoutParts.checkLength_eq_ok_iff.mp hlength).1).2, .inl hle⟩

/-- A row-major layout comes from parts, which are checked like any others. -/
theorem Layout.exists_parts_of_rowMajor {formatText : String} {shape : List Nat}
    {readOnly : Bool} {l : Layout} (h : Layout.rowMajor formatText shape readOnly = .ok l) :
    ∃ p, Layout.ofParts p = .ok l := by
  unfold Layout.rowMajor at h
  split at h
  · cases h
  · obtain ⟨_, -, h⟩ := bind_eq_ok_iff.mp h
    exact ⟨_, h⟩

theorem Layout.bytes_sound (n : Nat) (readOnly : Bool) : (Layout.bytes n readOnly).Sound :=
  ⟨rfl, Nat.one_pos, by simp [Layout.bytes], .inr ⟨rfl, rfl⟩⟩

/-- The numbers of a recipe are machine words: its sizes and offsets unsigned ones, its strides and
suboffsets signed ones. -/
def LayoutRecipe.InWords : LayoutRecipe → Prop
  | parts p =>
    p.length < modulus ∧ p.itemSize < modulus ∧ p.byteOffset < modulus ∧
      (∀ n ∈ p.shape, n < modulus) ∧
      (∀ s ∈ p.strides.getD [] ++ p.suboffsets, minSigned ≤ s ∧ s ≤ maxSigned)
  | rowMajor _ shape _ => ∀ n ∈ shape, n < modulus
  | bytes n _ => n < modulus
  | scalar _ _ => True
  | moved r offset => r.InWords ∧ offset < modulus

/-- Every built layout was made of parts or is a flat run of bytes, and was moved at most. -/
theorem LayoutRecipe.build_cases {r : LayoutRecipe} {l : Layout} (h : r.build = .ok l) :
    (∃ p l' offset, Layout.ofParts p = .ok l' ∧ l = l'.withByteOffset offset) ∨
      ∃ n readOnly offset, (r.InWords → n < modulus) ∧
        l = (Layout.bytes n readOnly).withByteOffset offset := by
  induction r generalizing l with
  | parts p => exact .inl ⟨p, l, l.byteOffset, h, rfl⟩
  | rowMajor formatText shape readOnly =>
    obtain ⟨p, hp⟩ := Layout.exists_parts_of_rowMajor h
    exact .inl ⟨p, l, l.byteOffset, hp, rfl⟩
  | bytes n readOnly => exact .inr ⟨n, readOnly, 0, id, (Except.ok.inj h).symm⟩
  | scalar formatText readOnly =>
    obtain ⟨p, hp⟩ := Layout.exists_parts_of_rowMajor h
    exact .inl ⟨p, l, l.byteOffset, hp, rfl⟩
  | moved r offset ih =>
    rw [LayoutRecipe.build] at h
    cases hr : r.build with
    | error e => rw [hr] at h; cases h
    | ok l' =>
      rw [hr] at h
      cases h
      rcases ih hr with ⟨p, l₀, _, hp, rfl⟩ | ⟨n, readOnly, _, hn, rfl⟩
      · exact .inl ⟨p, l₀, offset, hp, rfl⟩
      · exact .inr ⟨n, readOnly, offset, fun hw => hn hw.1, rfl⟩

theorem LayoutRecipe.sound {r : LayoutRecipe} {l : Layout} (h : r.build = .ok l) : l.Sound := by
  rcases r.build_cases h with ⟨p, l', offset, hp, rfl⟩ | ⟨n, readOnly, offset, -, rfl⟩
  · obtain ⟨hstrides, hitem, hlength, hle⟩ := Layout.sound_of_ofParts hp
    exact ⟨hstrides, hitem, hlength, hle⟩
  · obtain ⟨hstrides, hitem, hlength, hle⟩ := Layout.bytes_sound n readOnly
    exact ⟨hstrides, hitem, hlength, hle⟩

/-- A layout built from machine words has a length that is one. -/
theorem LayoutRecipe.length_lt {r : LayoutRecipe} {l : Layout} (hw : r.InWords)
    (h : r.build = .ok l) : l.length < modulus := by
  rcases r.build_cases h with ⟨p, l', offset, hp, rfl⟩ | ⟨n, readOnly, offset, hn, rfl⟩
  · have hle := Layout.length_le_of_ofParts hp
    have hword : maxSigned < (modulus : Int) := by decide
    exact Int.ofNat_lt.mp (lt_of_le_of_lt hle hword)
  · exact hn hw

namespace Layout

variable {l : Layout}

theorem Sound.map_length_axes (h : l.Sound) : l.axes.map Axis.length = l.shape :=
  map_length_axesOf l.suboffsets h.strides_length

theorem Sound.map_stride_axes (h : l.Sound) : l.axes.map Axis.stride = l.strides :=
  map_stride_axesOf l.suboffsets h.strides_length

/-- An axis of a layout with items is no longer than the layout has bytes. -/
theorem Sound.axis_length_le (h : l.Sound) (hz : 0 ∉ l.shape) {a : Axis} (ha : a ∈ l.axes) :
    a.length ≤ l.length := by
  have hmem : a.length ∈ l.shape := h.map_length_axes ▸ List.mem_map_of_mem ha
  rw [h.length_eq]
  exact (le_shapeSize hz hmem).trans (Nat.le_mul_of_pos_left _ h.itemSize_pos)

/-- Counting the items in a word loses none, if the length is a word. -/
theorem Sound.itemCount_eq (h : l.Sound) (hl : l.length < modulus) :
    l.itemCount = shapeSize l.shape := by
  refine Nat.mod_eq_of_lt (lt_of_le_of_lt ?_ hl)
  rw [h.length_eq]
  exact Nat.le_mul_of_pos_left _ h.itemSize_pos

end Layout
end StridedViews
