import StridedViews.Layout.Extent
import StridedViews.Proofs.Layout.Recipe

/-!
The byte extent is the exact hull of the items. Along some axes the item starts lie between
`lowReach` and `highReach`, and both ends are the start of an item. The checked extent is that
interval, and there is one just if its ends and all that they are computed from are words
(`extent_eq_ok_iff`). No offset of an index leaves it on the way, so that where there is an extent,
every index has its exact offset (`extent_is_hull`).
-/

namespace StridedViews

open Word (maxSigned minSigned modulus)

/-! ### The hull is tight -/

theorem displacement_mem_reach {axes : List Axis} {index : List Nat}
    (hx : InShape index (axes.map Axis.length)) :
    lowReach axes ≤ displacement index (axes.map Axis.stride) ∧
      displacement index (axes.map Axis.stride) ≤ highReach axes := by
  induction axes generalizing index with
  | nil =>
    obtain rfl := List.forall₂_nil_right_iff.mp hx
    simp
  | cons a axes ih =>
    obtain ⟨i, index, hi, hrest, rfl⟩ := List.forall₂_cons_right_iff.mp hx
    obtain ⟨hlo, hhi⟩ := ih hrest
    obtain ⟨hlo', hhi'⟩ := a.step_mem_span hi
    rw [List.map_cons, displacement_cons, lowReach_cons, highReach_cons]
    exact ⟨add_le_add hlo' hlo, add_le_add hhi' hhi⟩

/-- Some index lies lowest: on each axis it takes the end towards which the axis leads down. -/
theorem exists_displacement_eq_lowReach {axes : List Axis} (hz : 0 ∉ axes.map Axis.length) :
    ∃ index, InShape index (axes.map Axis.length) ∧
      displacement index (axes.map Axis.stride) = lowReach axes := by
  induction axes with
  | nil => exact ⟨[], List.Forall₂.nil, rfl⟩
  | cons a axes ih =>
    obtain ⟨ha, hz⟩ := zero_notMem_cons.mp hz
    obtain ⟨index, hx, hlow⟩ := ih hz
    rw [lowReach_cons]
    rcases le_total 0 a.span with hs | hs
    · refine ⟨0 :: index, List.Forall₂.cons ha hx, ?_⟩
      rw [List.map_cons, displacement_cons, hlow, min_eq_left hs]
      simp
    · refine ⟨(a.length - 1) :: index, List.Forall₂.cons (by omega) hx, ?_⟩
      rw [List.map_cons, displacement_cons, hlow, min_eq_right hs, Axis.span, Nat.cast_pred ha]

/-- Some index lies highest. -/
theorem exists_displacement_eq_highReach {axes : List Axis} (hz : 0 ∉ axes.map Axis.length) :
    ∃ index, InShape index (axes.map Axis.length) ∧
      displacement index (axes.map Axis.stride) = highReach axes := by
  induction axes with
  | nil => exact ⟨[], List.Forall₂.nil, rfl⟩
  | cons a axes ih =>
    obtain ⟨ha, hz⟩ := zero_notMem_cons.mp hz
    obtain ⟨index, hx, hhigh⟩ := ih hz
    rw [highReach_cons]
    rcases le_total 0 a.span with hs | hs
    · refine ⟨(a.length - 1) :: index, List.Forall₂.cons (by omega) hx, ?_⟩
      rw [List.map_cons, displacement_cons, hhigh, max_eq_right hs, Axis.span, Nat.cast_pred ha]
    · refine ⟨0 :: index, List.Forall₂.cons ha hx, ?_⟩
      rw [List.map_cons, displacement_cons, hhigh, max_eq_left hs]
      simp

/-! ### Stretching an interval -/

/-- Both ends of an interval, in this order, are words. -/
structure ByteRange.InWords (r : ByteRange) : Prop where
  lo_ge : minSigned ≤ r.lo
  lo_le_hi : r.lo ≤ r.hi
  hi_le : r.hi ≤ maxSigned

namespace ByteRange

variable {r r' : ByteRange}

/-- An interval is stretched by an axis of words, if the result is one of words. -/
theorem stretch_eq_some_iff {a : Axis} (hr : r.InWords) :
    r.stretch a = some r' ↔
      a.InWords ∧ r' = ⟨r.lo + min 0 a.span, r.hi + max 0 a.span⟩ ∧ r'.InWords := by
  obtain ⟨hlo, hle, hhi⟩ := hr
  unfold stretch
  simp only [Option.bind_eq_bind, Option.bind_eq_some_iff, Word.distance?_eq_some_iff,
    Word.mul?_eq_some_iff]
  constructor
  · rintro ⟨_, ⟨rfl, hn⟩, span, ⟨heq, hspan⟩, h⟩
    obtain rfl : a.span = span := heq
    refine ⟨⟨hn, hspan⟩, ?_⟩
    split at h
    · next hneg =>
      obtain ⟨_, hsum, h⟩ := Option.bind_eq_some_iff.mp h
      obtain ⟨rfl, hlo', -⟩ := Word.add?_eq_some_iff.mp hsum
      cases h
      rw [min_eq_right hneg.le, max_eq_left hneg.le, add_zero]
      exact ⟨rfl, hlo', by dsimp only; omega, hhi⟩
    · next hpos =>
      obtain ⟨_, hsum, h⟩ := Option.bind_eq_some_iff.mp h
      obtain ⟨rfl, -, hhi'⟩ := Word.add?_eq_some_iff.mp hsum
      cases h
      rw [min_eq_left (not_lt.mp hpos), max_eq_right (not_lt.mp hpos), add_zero]
      exact ⟨rfl, hlo, by dsimp only; omega, hhi'⟩
  · rintro ⟨⟨hn, hspan⟩, rfl, hlo', hle', hhi'⟩
    refine ⟨_, ⟨rfl, hn⟩, a.span, ⟨rfl, hspan⟩, ?_⟩
    split
    · next hneg =>
      rw [min_eq_right hneg.le] at hlo' ⊢
      rw [max_eq_left hneg.le, add_zero]
      exact Option.bind_eq_some_iff.mpr
        ⟨_, Word.add?_eq_some_iff.mpr ⟨rfl, hlo', by omega⟩, rfl⟩
    · next hpos =>
      rw [max_eq_right (not_lt.mp hpos)] at hhi' ⊢
      rw [min_eq_left (not_lt.mp hpos), add_zero]
      exact Option.bind_eq_some_iff.mpr
        ⟨_, Word.add?_eq_some_iff.mpr ⟨rfl, by omega, hhi'⟩, rfl⟩

/-- No sum on the way leaves the words, since the ends only ever move outwards. -/
theorem stretchAll_eq_some_iff {axes : List Axis} (hr : r.InWords) :
    r.stretchAll axes = some r' ↔
      (∀ a ∈ axes, a.InWords) ∧ r' = ⟨r.lo + lowReach axes, r.hi + highReach axes⟩ ∧
        r'.InWords := by
  induction axes generalizing r with
  | nil =>
    simp only [stretchAll, lowReach_nil, highReach_nil, add_zero, List.not_mem_nil,
      Option.some.injEq]
    exact ⟨fun h => ⟨by simp, h.symm, h ▸ hr⟩, fun h => h.2.1.symm⟩
  | cons a axes ih =>
    rw [stretchAll, lowReach_cons, highReach_cons, List.forall_mem_cons, ← add_assoc, ← add_assoc]
    refine Option.bind_eq_some_iff.trans ⟨?_, ?_⟩
    · rintro ⟨r₁, hr₁, h⟩
      obtain ⟨ha, rfl, hr₁⟩ := (stretch_eq_some_iff hr).mp hr₁
      obtain ⟨haxes, hr', hin⟩ := (ih hr₁).mp h
      exact ⟨⟨ha, haxes⟩, hr', hin⟩
    · rintro ⟨⟨ha, haxes⟩, rfl, hlo, -, hhi⟩
      have hlow := lowReach_nonpos axes
      have hhigh := highReach_nonneg axes
      have hr₁ : InWords ⟨r.lo + min 0 a.span, r.hi + max 0 a.span⟩ :=
        ⟨by linarith,
          by linarith [hr.lo_le_hi, min_le_left 0 a.span, le_max_left 0 a.span], by linarith⟩
      refine ⟨_, (stretch_eq_some_iff hr).mpr ⟨ha, rfl, hr₁⟩, ?_⟩
      exact (ih hr₁).mpr ⟨haxes, rfl, hlo, by linarith [hr₁.lo_le_hi], hhi⟩

end ByteRange

/-! ### The extent of a layout -/

namespace Layout

variable {l : Layout}

theorem start_eq_ok_iff {start : Int} :
    l.start = .ok start ↔ (l.byteOffset : Int) = start ∧ start ≤ maxSigned := by
  rw [Layout.start, orOverflow_eq_ok_iff, Word.distance?_eq_some_iff]

/-- A layout without items has the empty extent where it starts. -/
theorem extent_of_empty (hd : l.isIndirect = false) (hc : l.itemCount = 0)
    (hstart : (l.byteOffset : Int) ≤ maxSigned) :
    l.extent = .ok (some ⟨l.byteOffset, l.byteOffset⟩) := by
  rw [extent, if_neg (by simp [hd]), start_eq_ok_iff.mpr ⟨rfl, hstart⟩]
  change (if l.itemCount = 0 then _ else _) = _
  rw [if_pos hc]
  rfl

/-- A direct layout with items has an extent just if all words that go into it are, and it is the
hull of the items. -/
theorem extent_eq_ok_iff (hd : l.isIndirect = false) (hc : l.itemCount ≠ 0)
    {range : Option ByteRange} :
    l.extent = .ok range ↔
      (∀ a ∈ l.axes, a.InWords) ∧ minSigned ≤ (l.byteOffset : Int) + lowReach l.axes ∧
        (l.byteOffset : Int) + highReach l.axes + l.itemSize ≤ maxSigned ∧
        range =
          some ⟨l.byteOffset + lowReach l.axes, l.byteOffset + highReach l.axes + l.itemSize⟩ := by
  have hlow := lowReach_nonpos l.axes
  have hhigh := highReach_nonneg l.axes
  have hword : minSigned ≤ 0 := by decide
  have hstart : (l.byteOffset : Int) ≤ maxSigned →
      ByteRange.InWords ⟨l.byteOffset, l.byteOffset⟩ :=
    fun h => ⟨hword.trans (Int.natCast_nonneg _), le_rfl, h⟩
  rw [extent, if_neg (by simp [hd])]
  simp only [hc, if_false, bind_eq_ok_iff, start_eq_ok_iff, orOverflow_eq_ok_iff,
    Option.bind_eq_bind, Option.bind_eq_some_iff, Word.distance?_eq_some_iff,
    Word.add?_eq_some_iff]
  constructor
  · rintro ⟨_, ⟨rfl, hoffset⟩, _, ⟨starts, hstarts, _, ⟨rfl, -⟩, _, ⟨rfl, -, hend⟩, hr⟩, h⟩
    obtain ⟨haxes, rfl, hin⟩ := (ByteRange.stretchAll_eq_some_iff (hstart hoffset)).mp hstarts
    cases hr
    cases h
    exact ⟨haxes, hin.lo_ge, hend, rfl⟩
  · rintro ⟨haxes, hlo, hhi, rfl⟩
    have hoffset : (l.byteOffset : Int) ≤ maxSigned := by omega
    have hstarts := (ByteRange.stretchAll_eq_some_iff (hstart hoffset)).mpr
      ⟨haxes, rfl, hlo, by dsimp only; omega, by dsimp only; omega⟩
    have hend : minSigned ≤ (l.byteOffset : Int) + highReach l.axes + l.itemSize := by omega
    exact ⟨_, ⟨rfl, hoffset⟩, _,
      ⟨_, hstarts, _, ⟨rfl, by omega⟩, _, ⟨rfl, hend, hhi⟩, rfl⟩, rfl⟩

theorem extent_exact (hd : l.isIndirect = false) (hc : l.itemCount ≠ 0)
    {range : Option ByteRange} (h : l.extent = .ok range) :
    range = some ⟨l.byteOffset + lowReach l.axes, l.byteOffset + highReach l.axes + l.itemSize⟩ :=
  ((extent_eq_ok_iff hd hc).mp h).2.2.2

/-- Every extent is an interval of words, that of a layout without items, too. -/
theorem inWords_of_extent {range : ByteRange} (h : l.extent = .ok (some range)) :
    range.InWords := by
  have hd : l.isIndirect = false := by
    by_contra hindirect
    rw [extent, if_pos (by simpa using hindirect)] at h
    cases h
  by_cases hc : l.itemCount = 0
  · rw [extent, if_neg (by simp [hd])] at h
    obtain ⟨start, hstart, h⟩ := bind_eq_ok_iff.mp h
    obtain ⟨rfl, hle⟩ := start_eq_ok_iff.mp hstart
    rw [if_pos hc] at h
    cases h
    have hword : minSigned ≤ 0 := by decide
    exact ⟨hword.trans (Int.natCast_nonneg _), le_rfl, hle⟩
  · obtain ⟨-, hlo, hhi, hrange⟩ := (extent_eq_ok_iff hd hc).mp h
    cases hrange
    have hlow := lowReach_nonpos l.axes
    have hhigh := highReach_nonneg l.axes
    exact ⟨hlo, by dsimp only; omega, hhi⟩

theorem extent_of_hull (hd : l.isIndirect = false) (hc : l.itemCount ≠ 0)
    (hlen : ∀ a ∈ l.axes, (a.length : Int) ≤ maxSigned)
    (hlo : 0 ≤ (l.byteOffset : Int) + lowReach l.axes)
    (hhi : (l.byteOffset : Int) + highReach l.axes + l.itemSize ≤ maxSigned) :
    l.extent =
      .ok (some ⟨l.byteOffset + lowReach l.axes,
        l.byteOffset + highReach l.axes + l.itemSize⟩) := by
  have hword : minSigned ≤ 0 := by decide
  exact (extent_eq_ok_iff hd hc).mpr
    ⟨inWords_of_hull hlen hlo (by omega), hword.trans hlo, hhi, rfl⟩

/-- The extent of a built direct layout with items is their exact hull, whatever the signs of the
strides: every index of the shape has the offset that they say, where an item lies inside the extent;
one item starts where the extent does, and one ends where it does. -/
theorem extent_is_hull {r : LayoutRecipe} (hl : r.build = .ok l) (hw : r.InWords)
    (hd : l.isIndirect = false) (hz : 0 ∉ l.shape) {lo hi : Int}
    (h : l.extent = .ok (some ⟨lo, hi⟩)) :
    (∀ index, InShape index l.shape →
      (∀ {ε : Type} (resolver : Resolver ε), l.itemOffset resolver index = .ok (l.place index)) ∧
        lo ≤ l.place index ∧ l.place index ≤ hi - l.itemSize) ∧
      (∃ index, InShape index l.shape ∧ l.place index = lo) ∧
      ∃ index, InShape index l.shape ∧ l.place index = hi - l.itemSize := by
  have hs := r.sound hl
  have hitems : l.itemCount ≠ 0 := by
    rw [hs.itemCount_eq (r.length_lt hw hl)]
    exact (shapeSize_pos hz).ne'
  obtain ⟨haxes, hlo, hhi, hrange⟩ := (extent_eq_ok_iff hd hitems).mp h
  cases hrange
  have hz' : 0 ∉ l.axes.map Axis.length := hs.map_length_axes.symm ▸ hz
  simp only [place]
  refine ⟨fun index hx => ⟨fun resolver => ?_, ?_⟩, ?_, ?_⟩
  · exact itemOffset_of_inWords hs.strides_length hd haxes hlo (by omega) resolver hx
  · obtain ⟨hlow, hhigh⟩ := displacement_mem_reach (hs.map_length_axes.symm ▸ hx)
    rw [hs.map_stride_axes] at hlow hhigh
    omega
  · obtain ⟨index, hx, hlow⟩ := exists_displacement_eq_lowReach hz'
    rw [hs.map_length_axes] at hx
    rw [hs.map_stride_axes] at hlow
    exact ⟨index, hx, by rw [hlow]⟩
  · obtain ⟨index, hx, hhigh⟩ := exists_displacement_eq_highReach hz'
    rw [hs.map_length_axes] at hx
    rw [hs.map_stride_axes] at hhigh
    exact ⟨index, hx, by rw [hhigh]; omega⟩

/-- Two rows of three bytes, the second one before the first: as the first starts at byte 1, the
second starts before the region. -/
theorem extent_is_hull_belowRegion :
    ∃ l, (LayoutRecipe.moved (.parts ⟨6, true, 1, "B", [2, 3], some [-4, 1], [], 4⟩) 1).build =
        .ok l ∧ l.isIndirect = false ∧ 0 ∉ l.shape ∧ l.extent = .ok (some ⟨-3, 4⟩) ∧
      (∀ index, InShape index l.shape → -3 ≤ l.place index ∧ l.place index ≤ 4 - l.itemSize) ∧
      (∃ index, InShape index l.shape ∧ l.place index = -3) ∧
      ∃ index, InShape index l.shape ∧ l.place index = 4 - l.itemSize := by
  have hl : (LayoutRecipe.moved (.parts ⟨6, true, 1, "B", [2, 3], some [-4, 1], [], 4⟩) 1).build =
      .ok (Layout.withByteOffset ⟨6, 1, .uint8, "B", [2, 3], [-4, 1], [], true, 4⟩ 1) := by decide
  have hw :
      (LayoutRecipe.moved (.parts ⟨6, true, 1, "B", [2, 3], some [-4, 1], [], 4⟩) 1).InWords := by
    unfold LayoutRecipe.InWords LayoutRecipe.InWords
    decide
  have hextent : (Layout.withByteOffset ⟨6, 1, .uint8, "B", [2, 3], [-4, 1], [], true, 4⟩ 1).extent =
      .ok (some ⟨-3, 4⟩) := by decide
  obtain ⟨hitems, hlow, hhigh⟩ := extent_is_hull hl hw (by decide) (by decide) hextent
  exact ⟨_, hl, by decide, by decide, hextent, fun index hx => (hitems index hx).2, hlow, hhigh⟩

end Layout
end StridedViews
