import StridedViews.Layout.Strides
import StridedViews.Proofs.Layout.Offset

/-!
Row-major layouts without gaps. The scan of the strides compares each axis with a running product
and lets axes of length 1 carry any stride. If it accepts, item number `k` in row-major order lies
exactly `k` item sizes behind the start (`displacement_of_rowPacked`), and no item lies before the
start or beyond all items together. And it accepts wherever the items lie so: the stride of an axis
that is stepped along is a word, so the product that it has to equal has not overflowed on the way
(`isRowContiguous_iff_ranked`).
-/

namespace StridedViews

open Word (maxSigned minSigned)

theorem nextStride_eq_some_iff {expected : Option Int} {n : Nat} {w : Int} :
    nextStride expected n = some w ↔
      ∃ inner, expected = some inner ∧ (n : Int) ≤ maxSigned ∧ inner * n = w ∧
        minSigned ≤ w ∧ w ≤ maxSigned := by
  rw [nextStride]
  simp only [Option.bind_eq_bind, Option.bind_eq_some_iff, Word.distance?_eq_some_iff,
    Word.mul?_eq_some_iff]
  constructor
  · rintro ⟨inner, rfl, _, ⟨rfl, hn⟩, hw⟩
    exact ⟨inner, rfl, hn, hw⟩
  · rintro ⟨inner, rfl, hn, hw⟩
    exact ⟨inner, rfl, _, ⟨rfl, hn⟩, hw⟩

theorem rowStride_cons (itemSize : Nat) (a : Axis) (axes : List Axis) :
    rowStride itemSize (a :: axes) = nextStride (rowStride itemSize axes) a.length := rfl

/-- The stride that an axis outside some axes needs is the exact size of what they hold. -/
theorem rowStride_eq_some {itemSize : Nat} {axes : List Axis} {w : Int}
    (h : rowStride itemSize axes = some w) :
    w = itemSize * shapeSize (axes.map Axis.length) := by
  induction axes generalizing w with
  | nil =>
    obtain ⟨rfl, -⟩ := Word.distance?_eq_some_iff.mp h
    simp
  | cons a axes ih =>
    rw [rowStride_cons] at h
    obtain ⟨inner, hinner, -, rfl, -⟩ := nextStride_eq_some_iff.mp h
    rw [ih hinner, List.map_cons, shapeSize_cons]
    push_cast
    ring

/-- An accepted axis is never stepped along, or steps over the whole of what follows. -/
theorem rowPacked_cons {itemSize : Nat} {a : Axis} {axes : List Axis}
    (h : rowPacked itemSize (a :: axes) = true) :
    (a.length ≤ 1 ∨ a.stride = itemSize * shapeSize (axes.map Axis.length)) ∧
      rowPacked itemSize axes = true := by
  simp only [rowPacked, Axis.fits, Bool.and_eq_true, Bool.or_eq_true, decide_eq_true_eq,
    beq_iff_eq] at h
  exact ⟨h.1.imp_right fun hs => rowStride_eq_some hs.symm, h.2⟩

theorem displacement_of_rowPacked {itemSize : Nat} {axes : List Axis}
    (hp : rowPacked itemSize axes = true) {index : List Nat}
    (hx : InShape index (axes.map Axis.length)) :
    displacement index (axes.map Axis.stride) =
      itemSize * rowRank (axes.map Axis.length) index := by
  induction axes generalizing index with
  | nil =>
    obtain rfl := List.forall₂_nil_right_iff.mp hx
    simp [rowRank]
  | cons a axes ih =>
    obtain ⟨i, index, hi, hrest, rfl⟩ := List.forall₂_cons_right_iff.mp hx
    obtain ⟨ha, hp⟩ := rowPacked_cons hp
    rw [List.map_cons, List.map_cons, displacement_cons, ih hp hrest, rowRank]
    rcases ha with hle | hs
    · obtain rfl : i = 0 := by omega
      simp
    · rw [hs]
      push_cast
      ring

/-- An accepted axis leads from its first entry to its last over all but one of its entries. -/
theorem span_of_rowPacked {itemSize : Nat} {a : Axis} {axes : List Axis}
    (h : rowPacked itemSize (a :: axes) = true) (ha : 0 < a.length) :
    a.span = ((a.length : Int) - 1) * (itemSize * shapeSize (axes.map Axis.length)) := by
  rcases (rowPacked_cons h).1 with hle | hs
  · have hone : a.length = 1 := by omega
    simp [Axis.span, hone]
  · rw [Axis.span, hs]

/-- The items of an accepted layout without empty axes start between the start and one item size
before the end of them all. -/
theorem reach_of_rowPacked {itemSize : Nat} {axes : List Axis}
    (hp : rowPacked itemSize axes = true) (hz : 0 ∉ axes.map Axis.length) :
    lowReach axes = 0 ∧
      highReach axes = itemSize * shapeSize (axes.map Axis.length) - itemSize := by
  induction axes with
  | nil => simp
  | cons a axes ih =>
    obtain ⟨ha, hz⟩ := zero_notMem_cons.mp hz
    obtain ⟨hlow, hhigh⟩ := ih (rowPacked_cons hp).2 hz
    have hspan := span_of_rowPacked hp ha
    have hnonneg : 0 ≤ a.span := by
      rw [hspan]
      exact mul_nonneg (by omega) (by positivity)
    rw [lowReach_cons, highReach_cons, min_eq_left hnonneg, max_eq_right hnonneg, hlow, hhigh,
      hspan, List.map_cons, shapeSize_cons]
    refine ⟨by simp, ?_⟩
    push_cast
    ring

/-! ### Every layout whose items lie in row-major order is accepted -/

/-- A size that is a word is what the running product arrives at, as no product on the way is larger. -/
theorem rowStride_of_le {itemSize : Nat} {axes : List Axis} (hitem : 0 < itemSize)
    (hz : 0 ∉ axes.map Axis.length)
    (hle : ((itemSize * shapeSize (axes.map Axis.length) : Nat) : Int) ≤ maxSigned) :
    rowStride itemSize axes =
      some ((itemSize * shapeSize (axes.map Axis.length) : Nat) : Int) := by
  induction axes with
  | nil =>
    rw [List.map_nil, shapeSize_nil, Nat.mul_one] at hle ⊢
    exact Word.distance?_eq_some_iff.mpr ⟨rfl, hle⟩
  | cons a axes ih =>
    obtain ⟨ha, hz⟩ := zero_notMem_cons.mp hz
    have hrest : 0 < itemSize * shapeSize (axes.map Axis.length) :=
      Nat.mul_pos hitem (shapeSize_pos hz)
    have hprod : itemSize * shapeSize ((a :: axes).map Axis.length) =
        itemSize * shapeSize (axes.map Axis.length) * a.length := by
      rw [List.map_cons, shapeSize_cons]
      ring
    rw [hprod] at hle ⊢
    have hinner := Nat.le_mul_of_pos_right (itemSize * shapeSize (axes.map Axis.length)) ha
    have hlength := Nat.le_mul_of_pos_left a.length hrest
    rw [rowStride_cons, ih hz (by omega)]
    refine nextStride_eq_some_iff.mpr ⟨_, rfl, by omega, by push_cast; rfl, ?_, hle⟩
    unfold minSigned
    omega

/-- If every item lies where its row-major rank puts it, then the scan accepts. -/
theorem rowPacked_of_displacement {itemSize : Nat} {axes : List Axis} (hitem : 0 < itemSize)
    (hz : 0 ∉ axes.map Axis.length) (hword : ∀ a ∈ axes, a.stride ≤ maxSigned)
    (h : ∀ index, InShape index (axes.map Axis.length) →
      displacement index (axes.map Axis.stride) =
        itemSize * rowRank (axes.map Axis.length) index) :
    rowPacked itemSize axes = true := by
  induction axes with
  | nil => rfl
  | cons a axes ih =>
    obtain ⟨ha, hz⟩ := zero_notMem_cons.mp hz
    rw [List.forall_mem_cons] at hword
    simp only [List.map_cons] at h
    have hrest : ∀ index, InShape index (axes.map Axis.length) →
        displacement index (axes.map Axis.stride) =
          itemSize * rowRank (axes.map Axis.length) index := by
      intro index hx
      simpa [rowRank] using h (0 :: index) (List.Forall₂.cons ha hx)
    rw [rowPacked, Bool.and_eq_true]
    refine ⟨?_, ih hz hword.2 hrest⟩
    rw [Axis.fits, Bool.or_eq_true, decide_eq_true_eq, beq_iff_eq]
    refine or_iff_not_imp_left.mpr fun hlong => ?_
    -- one step along the axis leads over all that follows
    obtain ⟨index, hmem⟩ := List.exists_mem_of_ne_nil _ (indexes_ne_nil hz)
    have hx := mem_indexes.mp hmem
    have hstep := h (1 :: index) (List.Forall₂.cons (by omega) hx)
    rw [displacement_cons, hrest index hx, rowRank] at hstep
    have hstride : a.stride = ((itemSize * shapeSize (axes.map Axis.length) : Nat) : Int) := by
      push_cast at hstep ⊢
      linarith
    rw [rowStride_of_le hitem hz (hstride ▸ hword.1), hstride]

/-- An accepted axis that is stepped along has the exact size of what follows as its stride. -/
theorem stride_of_rowPacked {itemSize : Nat} {axes : List Axis}
    (h : rowPacked itemSize axes = true) {k : Nat} {a : Axis} (ha : axes[k]? = some a)
    (hlong : 1 < a.length) :
    a.stride = itemSize * shapeSize ((axes.map Axis.length).drop (k + 1)) := by
  induction axes generalizing k with
  | nil => cases ha
  | cons b axes ih =>
    obtain ⟨hb, hrest⟩ := rowPacked_cons h
    cases k with
    | zero =>
      cases ha
      exact hb.resolve_left (by omega)
    | succ k => exact ih hrest ha

/-- The stride of an axis of length 1 is never used. -/
theorem displacement_set {shape index : List Nat} (hx : InShape index shape) {k : Nat}
    (hk : shape[k]? = some 1) (s : Int) (strides : List Int) :
    displacement index (strides.set k s) = displacement index strides := by
  unfold InShape at hx
  induction hx generalizing k strides with
  | nil => rfl
  | @cons i n index shape hi _ ih =>
    cases strides with
    | nil => rfl
    | cons t strides =>
      cases k with
      | zero =>
        obtain rfl : n = 1 := Option.some.inj hk
        obtain rfl : i = 0 := by omega
        simp
      | succ k => rw [List.set_cons_succ, displacement_cons, displacement_cons, ih hk]

section Scan

variable {itemSize : Nat} {shape : List Nat} {strides suboffsets : List Int}

theorem isRowContiguous_eq_rowPacked (hz : 0 ∉ shape) (hd : hasIndirection suboffsets = false) :
    isRowContiguous itemSize shape strides suboffsets =
      rowPacked itemSize (axesOf shape strides suboffsets) := by
  have hempty : shape.contains 0 = false := by simpa using hz
  rw [isRowContiguous, hd, hempty, Bool.not_false, Bool.true_and, Bool.false_or]

theorem isRowContiguous_iff_displacement (hitem : 0 < itemSize) (hz : 0 ∉ shape)
    (hs : strides.length = shape.length) (hword : ∀ s ∈ strides, s ≤ maxSigned)
    (hd : hasIndirection suboffsets = false) :
    isRowContiguous itemSize shape strides suboffsets = true ↔
      ∀ index, InShape index shape →
        displacement index strides = itemSize * rowRank shape index := by
  have hshape := map_length_axesOf suboffsets hs
  have hstrides := map_stride_axesOf suboffsets hs
  rw [isRowContiguous_eq_rowPacked hz hd]
  constructor
  · intro hp index hx
    have h := displacement_of_rowPacked hp (hshape.symm ▸ hx)
    rwa [hshape, hstrides] at h
  · intro h
    refine rowPacked_of_displacement hitem (hshape.symm ▸ hz) (fun a ha => ?_) fun index hx => ?_
    · exact hword a.stride (hstrides ▸ List.mem_map_of_mem ha)
    · rw [hshape] at hx ⊢
      rw [hstrides]
      exact h index hx

/-- The scan is exact. Strides that are words are accepted just if every index lies as many item
sizes behind the start as there are indexes before it in row-major order. So an axis of length 1 may
carry any stride, and a layout is not accepted if an axis of it would have to step over more than a
word. -/
theorem isRowContiguous_iff_ranked (hitem : 0 < itemSize) (hz : 0 ∉ shape)
    (hs : strides.length = shape.length) (hword : ∀ s ∈ strides, s ≤ maxSigned)
    (hd : hasIndirection suboffsets = false) :
    (isRowContiguous itemSize shape strides suboffsets = true ↔
        ∀ index, InShape index shape →
          displacement index strides = itemSize * rowRank shape index) ∧
      (∀ k s, shape[k]? = some 1 → s ≤ maxSigned →
        isRowContiguous itemSize shape (strides.set k s) suboffsets =
          isRowContiguous itemSize shape strides suboffsets) ∧
      ∀ k n, shape[k]? = some n → 1 < n →
        maxSigned < itemSize * shapeSize (shape.drop (k + 1)) →
          isRowContiguous itemSize shape strides suboffsets = false := by
  have hiff := isRowContiguous_iff_displacement hitem hz hs hword hd
  refine ⟨hiff, fun k s hk hs' => ?_, fun k n hk hlong hover => ?_⟩
  · have hword' : ∀ t ∈ strides.set k s, t ≤ maxSigned := by
      intro t ht
      rcases List.mem_or_eq_of_mem_set ht with ht | rfl
      · exact hword t ht
      · exact hs'
    rw [Bool.eq_iff_iff, hiff,
      isRowContiguous_iff_displacement hitem hz (by rw [List.length_set, hs]) hword' hd]
    refine forall₂_congr fun index hx => ?_
    rw [displacement_set hx hk]
  · by_contra h
    rw [Bool.not_eq_false, isRowContiguous_eq_rowPacked hz hd] at h
    have hshape := map_length_axesOf suboffsets hs
    rw [← hshape, List.getElem?_map, Option.map_eq_some_iff] at hk
    obtain ⟨a, ha, rfl⟩ := hk
    have hstride := stride_of_rowPacked h ha hlong
    have hmem : a.stride ∈ strides :=
      map_stride_axesOf suboffsets hs ▸ List.mem_map_of_mem (List.mem_of_getElem? ha)
    have hle := hword a.stride hmem
    rw [hstride, hshape] at hle
    omega

/-- The middle one of three axes has length 1 and steps backwards over more than all items. -/
theorem isRowContiguous_iff_ranked_unitAxis :
    isRowContiguous 4 [2, 1, 3] [12, -700, 4] [] = true ∧
      ∀ index, InShape index [2, 1, 3] →
        displacement index [12, -700, 4] = (4 : Nat) * rowRank [2, 1, 3] index :=
  have h : isRowContiguous 4 [2, 1, 3] [12, -700, 4] [] = true := by decide
  ⟨h, (isRowContiguous_iff_ranked (by decide) (by decide) rfl (by decide) rfl).1.mp h⟩

end Scan

namespace Layout

variable {l : Layout}

theorem rowPacked_of_isRowContiguous (hc : l.isRowContiguous = true) (hz : 0 ∉ l.shape) :
    l.isIndirect = false ∧ rowPacked l.itemSize l.axes = true := by
  have hempty : l.shape.contains 0 = false := by simpa using hz
  simp only [isRowContiguous, StridedViews.isRowContiguous, hempty, Bool.false_or,
    Bool.and_eq_true, Bool.not_eq_true'] at hc
  exact hc

/-- The items of a row-major layout without gaps lie in a row, in row-major order. -/
theorem place_of_isRowContiguous (hs : l.strides.length = l.shape.length)
    (hc : l.isRowContiguous = true) (hz : 0 ∉ l.shape) {index : List Nat}
    (hx : InShape index l.shape) :
    l.place index = (l.byteOffset + l.itemSize * rowRank l.shape index : Nat) := by
  have hshape : l.axes.map Axis.length = l.shape := map_length_axesOf l.suboffsets hs
  have hstrides : l.axes.map Axis.stride = l.strides := map_stride_axesOf l.suboffsets hs
  have hp := (rowPacked_of_isRowContiguous hc hz).2
  rw [place, ← hstrides, displacement_of_rowPacked hp (hshape.symm ▸ hx), hshape]
  push_cast
  rfl

end Layout
end StridedViews
