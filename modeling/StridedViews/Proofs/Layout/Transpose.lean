import StridedViews.Proofs.Layout.Extent
import StridedViews.Proofs.Layout.Tiles

/-!
Transposed parts: the same axes, listed in reverse. All that is checked of parts with strides of their own
is the same for both (`LayoutParts.Consistent.transposed`), but for one thing: the size of the items is
multiplied up axis by axis, and each product on the way has to fit into a word (`LayoutParts.SizesFit`).
Without an empty axis these products only grow, and all of them fit if the length does. An empty axis makes
the length zero, while products before it may be too large; so parts may be accepted that are refused with
their axes in reverse (`LayoutParts.accepted_transposed`).
-/

namespace StridedViews

open Word (maxSigned minSigned modulus)

/-! ### Lists in reverse -/

theorem getElem?_axesOf {shape : List Nat} {strides : List Int} (hs : strides.length = shape.length)
    (suboffsets : List Int) (k : Nat) :
    (axesOf shape strides suboffsets)[k]? =
      shape[k]?.bind fun n => strides[k]?.map fun s => ⟨n, s, suboffsets[k]?⟩ := by
  induction shape generalizing strides suboffsets k with
  | nil => simp [axesOf]
  | cons n shape ih =>
    cases strides with
    | nil => cases hs
    | cons s strides =>
      cases k with
      | zero => cases suboffsets <;> rfl
      | succ k =>
        rw [axesOf, List.getElem?_cons_succ, ih (by simpa using hs)]
        cases suboffsets <;> rfl

/-- The axes of lists in reverse are the axes in reverse. -/
theorem axesOf_reverse {shape : List Nat} {strides suboffsets : List Int}
    (hs : strides.length = shape.length) (ho : suboffsets = [] ∨ suboffsets.length = shape.length) :
    axesOf shape.reverse strides.reverse suboffsets.reverse =
      (axesOf shape strides suboffsets).reverse := by
  have hlength : (axesOf shape strides suboffsets).length = shape.length := by
    rw [← List.length_map Axis.length, map_length_axesOf suboffsets hs]
  refine List.ext_getElem? fun k => ?_
  rw [getElem?_axesOf (by simpa using hs)]
  rcases Nat.lt_or_ge k shape.length with hk | hk
  · have hback : ∀ {α : Type} {xs : List α}, xs.length = shape.length →
        xs.reverse[k]? = xs[shape.length - 1 - k]? := by
      intro α xs hxs
      rw [← hxs, List.getElem?_reverse (by omega)]
    have hsuboffset : suboffsets.reverse[k]? = suboffsets[shape.length - 1 - k]? := by
      rcases ho with rfl | ho
      · rfl
      · exact hback ho
    rw [hback rfl, hback hs, hsuboffset, hback hlength, getElem?_axesOf hs]
  · have hend : ∀ {α : Type} {xs : List α}, xs.length = shape.length → xs.reverse[k]? = none := by
      intro α xs hxs
      exact List.getElem?_eq_none (by rw [List.length_reverse]; omega)
    rw [hend rfl, hend hlength, Option.bind_none]

theorem lowReach_reverse (axes : List Axis) : lowReach axes.reverse = lowReach axes := by
  rw [lowReach, List.map_reverse, List.sum_reverse, lowReach]

theorem highReach_reverse (axes : List Axis) : highReach axes.reverse = highReach axes := by
  rw [highReach, List.map_reverse, List.sum_reverse, highReach]

namespace Layout

variable {l : Layout}

/-- The layout with its axes listed in reverse. -/
def transposed (l : Layout) : Layout :=
  { l with
    shape := l.shape.reverse
    strides := l.strides.reverse
    suboffsets := l.suboffsets.reverse }

theorem axes_transposed (hs : l.strides.length = l.shape.length)
    (ho : l.suboffsets = [] ∨ l.suboffsets.length = l.shape.length) :
    l.transposed.axes = l.axes.reverse :=
  axesOf_reverse hs ho

theorem isIndirect_transposed (l : Layout) : l.transposed.isIndirect = l.isIndirect :=
  List.any_reverse

theorem itemCount_transposed (l : Layout) : l.transposed.itemCount = l.itemCount := by
  rw [itemCount, itemCount]
  exact congrArg (· % modulus) (shapeSize_reverse l.shape)

/-- The extent is the same whatever the order of the axes: each end of it is a sum over them, and no sum
on the way lies further out. -/
theorem extent_transposed (hs : l.strides.length = l.shape.length)
    (ho : l.suboffsets = [] ∨ l.suboffsets.length = l.shape.length) {range : Option ByteRange} :
    l.transposed.extent = .ok range ↔ l.extent = .ok range := by
  have hd := isIndirect_transposed l
  have hc := itemCount_transposed l
  by_cases hindirect : l.isIndirect = true
  · rw [extent, extent, hd, if_pos hindirect, if_pos hindirect]
  · rw [Bool.not_eq_true] at hindirect
    by_cases hempty : l.itemCount = 0
    · rw [extent, extent, hd, hc, hempty]
      exact Iff.rfl
    · rw [extent_eq_ok_iff (hd.trans hindirect) (hc ▸ hempty), extent_eq_ok_iff hindirect hempty,
        axes_transposed hs ho, lowReach_reverse, highReach_reverse]
      simp only [List.mem_reverse]
      exact Iff.rfl

end Layout

/-! ### Parts in reverse -/

namespace LayoutParts

variable {p : LayoutParts} {strides : List Int}

/-- The same axes, listed in reverse. -/
def transposed (p : LayoutParts) : LayoutParts :=
  { p with
    shape := p.shape.reverse
    strides := p.strides.map List.reverse
    suboffsets := p.suboffsets.reverse }

@[simp] theorem transposed_transposed (p : LayoutParts) : p.transposed.transposed = p := by
  simp [transposed, Option.map_map]

/-- The parts make a layout. -/
def Accepted (p : LayoutParts) : Prop := ∃ l, Layout.ofParts p = .ok l

/-- The size of the items stays within a word on the way over the axes, from the first one on. -/
def SizesFit (p : LayoutParts) : Prop :=
  ∀ k < p.shape.length, p.itemSize * shapeSize (p.shape.take (k + 1)) < modulus

/-- The conditions on parts with strides of their own in which the order of the axes plays no role. -/
structure Consistent (p : LayoutParts) (strides : List Int) : Prop where
  rank_le : p.shape.length ≤ maxDimensions
  itemSize_ok : p.checkItemSize = .ok ()
  length_eq : p.length = p.itemSize * shapeSize p.shape
  length_le : (p.length : Int) ≤ maxSigned
  lists_ok : p.checkLists strides = .ok ()
  extent_ok : ∃ range, (p.layout strides).extent = .ok range

theorem accepted_iff (hs : p.strides = some strides) :
    p.Accepted ↔ p.SizesFit ∧ p.Consistent strides := by
  have heffective : p.effectiveStrides = .ok strides := by rw [effectiveStrides, hs]
  simp only [Accepted, Layout.ofParts_eq_ok_iff, heffective, checkRank_eq_ok_iff, checkLength_eq_ok_iff,
    checkedSize_eq_some_iff]
  constructor
  · rintro ⟨l, hrank, hitem, ⟨⟨hfit, hlength⟩, hle⟩, _, heq, hlists, hextent, -⟩
    cases heq
    exact ⟨hfit, hrank, hitem, hlength, hle, hlists, hextent⟩
  · rintro ⟨hfit, hrank, hitem, hlength, hle, hlists, hextent⟩
    exact ⟨_, hrank, hitem, ⟨⟨hfit, hlength⟩, hle⟩, _, rfl, hlists, hextent, rfl⟩

/-- Without an empty axis no product is larger than the length. -/
theorem Consistent.sizesFit (h : p.Consistent strides) (hz : 0 ∉ p.shape) : p.SizesFit := by
  intro k hk
  have hle := h.length_le
  have hpart : p.itemSize * shapeSize (p.shape.take (k + 1)) ≤ p.length := by
    rw [h.length_eq]
    exact Nat.mul_le_mul_left _ (shapeSize_take_le hz _)
  unfold maxSigned at hle
  unfold modulus
  omega

/-- All but the sizes on the way is checked alike of the axes in reverse. -/
theorem Consistent.transposed (h : p.Consistent strides) :
    p.transposed.Consistent strides.reverse := by
  obtain ⟨hrank, hitem, hlength, hle, hlists, range, hextent⟩ := h
  obtain ⟨hstrides, hsuboffsets⟩ := checkLists_eq_ok_iff.mp hlists
  have hback : (LayoutParts.transposed p).shape.length = p.shape.length := List.length_reverse
  refine ⟨hback.trans_le hrank, hitem, ?_, hle, checkLists_eq_ok_iff.mpr ⟨?_, ?_⟩, range, ?_⟩
  · exact hlength.trans (congrArg (p.itemSize * ·) (shapeSize_reverse p.shape).symm)
  · rw [List.length_reverse, hback, hstrides]
  · rw [hback]
    exact hsuboffsets.imp (fun h => by rw [LayoutParts.transposed, h, List.reverse_nil])
      (fun h => List.length_reverse.trans h)
  · exact (Layout.extent_transposed (l := p.layout strides) hstrides hsuboffsets).mpr hextent

/-- A product on the way that is no word is reported as an overflow, whatever the length is. -/
theorem checkLength_of_not_sizesFit (h : ¬ p.SizesFit) : p.checkLength = .error .lengthOverflow := by
  have hnone : checkedSize p.itemSize p.shape = none :=
    Option.eq_none_iff_forall_ne_some.mpr fun n hn => h (checkedSize_eq_some_iff.mp hn).1
  rw [checkLength, hnone]
  rfl

/-- Parts with strides of their own and without empty axes are accepted just if they are with their axes
in reverse. If there is an empty axis, then parts that are accepted are so in reverse, too, just if the
sizes on the way fit, now taken from the last axis on, and otherwise they are refused for an overflow
although their length is zero. -/
theorem accepted_transposed (hs : p.strides = some strides) :
    (0 ∉ p.shape → (p.Accepted ↔ p.transposed.Accepted)) ∧
      (p.Accepted →
        (p.transposed.Accepted ↔ p.transposed.SizesFit) ∧
        (¬ p.transposed.SizesFit →
          p.length = 0 ∧ Layout.ofParts p.transposed = .error .lengthOverflow)) := by
  have hs' : p.transposed.strides = some strides.reverse := by
    rw [LayoutParts.transposed, hs, Option.map_some]
  have hback : p.transposed.Consistent strides.reverse → p.Consistent strides := by
    intro h
    have h' := h.transposed
    rwa [transposed_transposed, List.reverse_reverse] at h'
  have hz : 0 ∉ p.shape → 0 ∉ p.transposed.shape := fun hz hmem => hz (List.mem_reverse.mp hmem)
  rw [accepted_iff hs, accepted_iff hs']
  refine ⟨fun hshape => ⟨?_, ?_⟩, ?_⟩
  · rintro ⟨-, h⟩
    exact ⟨h.transposed.sizesFit (hz hshape), h.transposed⟩
  · rintro ⟨-, h⟩
    exact ⟨(hback h).sizesFit hshape, hback h⟩
  · rintro ⟨-, h⟩
    refine ⟨⟨And.left, fun hfit => ⟨hfit, h.transposed⟩⟩, fun hfit => ⟨?_, ?_⟩⟩
    · have hempty : 0 ∈ p.shape := by
        by_contra hshape
        exact hfit (h.transposed.sizesFit (hz hshape))
      rw [h.length_eq, shapeSize_eq_zero_iff.mpr hempty, Nat.mul_zero]
    · have hrank := checkRank_eq_ok_iff.mpr h.transposed.rank_le
      have hitem := h.transposed.itemSize_ok
      rw [Layout.ofParts, bind_of_ok hrank, bind_of_ok hitem,
        bind_of_error (checkLength_of_not_sizesFit hfit)]

/-- Three axes of words, an empty one and then two along which there are more bytes than a word counts. -/
def emptyFirst : LayoutParts :=
  ⟨0, true, 4, "i", [0, 4611686018427387904, 4], some [4, 4, 4], [], 0⟩

/-- With the empty axis last, the same axes are refused. -/
theorem accepted_transposed_emptyFirst :
    emptyFirst.strides = some [4, 4, 4] ∧ emptyFirst.Accepted ∧ ¬ emptyFirst.transposed.SizesFit ∧
      Layout.ofParts emptyFirst.transposed = .error .lengthOverflow := by
  have haccepted : emptyFirst.Accepted := ⟨emptyFirst.layout [4, 4, 4], by decide⟩
  have hfit : ¬ emptyFirst.transposed.SizesFit := fun h => absurd (h 1 (by decide)) (by decide)
  obtain ⟨-, hrefused⟩ := (accepted_transposed rfl).2 haccepted
  exact ⟨rfl, haccepted, hfit, (hrefused hfit).2⟩

/-- So whether parts are accepted depends on the order in which their axes are listed. -/
theorem accepted_depends_on_order :
    ¬ ∀ (p : LayoutParts) (strides : List Int), p.strides = some strides →
      p.suboffsets = [] ∨ p.suboffsets.length = p.shape.length →
        (p.Accepted ↔ p.transposed.Accepted) := by
  intro h
  have haccepted : emptyFirst.Accepted := ⟨emptyFirst.layout [4, 4, 4], by decide⟩
  have hrefused : Layout.ofParts emptyFirst.transposed = .error .lengthOverflow := by decide
  obtain ⟨l, hl⟩ := (h emptyFirst _ rfl (.inl rfl)).mp haccepted
  rw [hrefused] at hl
  cases hl

end LayoutParts
end StridedViews
