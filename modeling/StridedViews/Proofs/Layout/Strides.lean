import StridedViews.Proofs.Layout.Mirror

/-!
Derived strides. Deriving the row-major strides of a shape gives the exact ones, and it fails just if a
word that goes into them does not fit (`rowMajorStrides_eq_some_iff`). The length of the first axis is not
among these words, since no axis steps over it. An empty axis makes all strides outside of it zero, but
it hides no length and no stride further inside that does not fit. Column-major strides are the row-major
ones of the reversed shape (`columnMajorStrides_eq_reverse`), and strides that were derived in either order
are recognised as those of a layout without gaps.
-/

namespace StridedViews

open Word (maxSigned minSigned)

variable {itemSize : Nat} {shape : List Nat} {strides : List Int}

/-! ### Row-major strides -/

/-- The exact row-major strides: each axis steps over the whole of what follows it. -/
def exactStrides (itemSize : Nat) : List Nat → List Int
  | [] => []
  | _ :: shape => (itemSize * shapeSize shape : Nat) :: exactStrides itemSize shape

@[simp] theorem length_exactStrides (itemSize : Nat) (shape : List Nat) :
    (exactStrides itemSize shape).length = shape.length := by
  induction shape with
  | nil => rfl
  | cons n shape ih => rw [exactStrides, List.length_cons, ih, List.length_cons]

/-- The words that go into the row-major strides of a shape are representable. -/
structure StridesFit (itemSize : Nat) (shape : List Nat) : Prop where
  itemSize_le : (itemSize : Int) ≤ maxSigned
  lengths_le : ∀ n ∈ shape.tail, (n : Int) ≤ maxSigned
  strides_le : ∀ i < shape.length, ((itemSize * shapeSize (shape.drop (i + 1)) : Nat) : Int) ≤ maxSigned

theorem stridesFit_singleton {n : Nat} : StridesFit itemSize [n] ↔ (itemSize : Int) ≤ maxSigned := by
  constructor
  · exact StridesFit.itemSize_le
  · intro h
    exact ⟨h, by simp, by simpa using h⟩

/-- One more axis steps over the length that was the first, and over all behind it. -/
theorem stridesFit_cons {m n : Nat} : StridesFit itemSize (m :: n :: shape) ↔
    StridesFit itemSize (n :: shape) ∧ (n : Int) ≤ maxSigned ∧
      ((itemSize * shapeSize (n :: shape) : Nat) : Int) ≤ maxSigned := by
  constructor
  · rintro ⟨hitem, hlengths, hstrides⟩
    rw [List.tail_cons, List.forall_mem_cons] at hlengths
    refine ⟨⟨hitem, hlengths.2, fun i hi => ?_⟩, hlengths.1, hstrides 0 (by simp)⟩
    exact hstrides (i + 1) (by simpa using hi)
  · rintro ⟨⟨hitem, hlengths, hstrides⟩, hn, houter⟩
    refine ⟨hitem, List.forall_mem_cons.mpr ⟨hn, hlengths⟩, fun i hi => ?_⟩
    cases i with
    | zero => exact houter
    | succ i => exact hstrides i (by simpa using hi)

/-- Each exact stride is the item size times the lengths of all axes further inside. -/
theorem getElem?_exactStrides {i : Nat} (hi : i < shape.length) :
    (exactStrides itemSize shape)[i]? = some ((itemSize * shapeSize (shape.drop (i + 1)) : Nat) : Int) := by
  induction shape generalizing i with
  | nil => cases hi
  | cons n shape ih =>
    cases i with
    | zero => rfl
    | succ i => exact ih (by simpa using hi)

/-- The derived strides are the exact ones, if all that goes into them fits. -/
theorem rowMajorStrides_eq_some_iff (hrank : shape ≠ []) :
    rowMajorStrides itemSize shape = some strides ↔
      StridesFit itemSize shape ∧ strides = exactStrides itemSize shape := by
  induction shape generalizing strides with
  | nil => exact absurd rfl hrank
  | cons m shape ih =>
    cases shape with
    | nil =>
      rw [stridesFit_singleton, rowMajorStrides, Option.map_eq_some_iff]
      simp only [Word.distance?_eq_some_iff, exactStrides, shapeSize_nil, Nat.mul_one]
      constructor
      · rintro ⟨_, ⟨rfl, hle⟩, rfl⟩
        exact ⟨hle, rfl⟩
      · rintro ⟨hle, rfl⟩
        exact ⟨_, ⟨rfl, hle⟩, rfl⟩
    | cons n shape =>
      have hstep : ((itemSize * shapeSize shape : Nat) : Int) * n =
          ((itemSize * shapeSize (n :: shape) : Nat) : Int) := by
        rw [shapeSize_cons]
        push_cast
        ring
      have hword : minSigned ≤ ((itemSize * shapeSize (n :: shape) : Nat) : Int) := by
        unfold minSigned
        omega
      rw [stridesFit_cons, rowMajorStrides]
      simp only [Option.bind_eq_bind, Option.bind_eq_some_iff, ih (List.cons_ne_nil _ _),
        Word.distance?_eq_some_iff, Word.mul?_eq_some_iff, Option.pure_def, Option.some.injEq]
      constructor
      · rintro ⟨_, ⟨hfit, rfl⟩, _, hhead, _, ⟨rfl, hn⟩, _, ⟨rfl, -, hle⟩, rfl⟩
        cases hhead
        rw [hstep] at hle ⊢
        exact ⟨⟨hfit, hn, hle⟩, rfl⟩
      · rintro ⟨⟨hfit, hn, hle⟩, rfl⟩
        exact ⟨_, ⟨hfit, rfl⟩, _, rfl, _, ⟨rfl, hn⟩, _, ⟨hstep, hword, hle⟩, rfl⟩

/-- Behind the first axis, derived strides are packed, and its own is the one that packs it. -/
theorem rowStride_of_rowMajorStrides {m : Nat} {s : Int}
    (h : rowMajorStrides itemSize (m :: shape) = some (s :: strides)) (suboffsets : List Int) :
    rowStride itemSize (axesOf shape strides suboffsets) = some s ∧
      rowPacked itemSize (axesOf shape strides suboffsets) = true := by
  induction shape generalizing m s strides suboffsets with
  | nil =>
    obtain ⟨_, hs, heq⟩ := Option.map_eq_some_iff.mp h
    cases heq
    exact ⟨hs, rfl⟩
  | cons n shape ih =>
    simp only [rowMajorStrides, Option.bind_eq_bind, Option.bind_eq_some_iff, Option.pure_def,
      Option.some.injEq] at h
    obtain ⟨inner, hinner, step, hstep, d, hd, outer, houter, heq⟩ := h
    cases heq
    cases strides with
    | nil => cases hstep
    | cons t strides =>
      cases hstep
      obtain ⟨hstride, hpacked⟩ := ih hinner suboffsets.tail
      rw [axesOf, rowStride_cons, rowPacked, hstride, hpacked]
      simp [nextStride, hd, houter, Axis.fits]

theorem rowPacked_of_rowMajorStrides (h : rowMajorStrides itemSize shape = some strides)
    (suboffsets : List Int) : rowPacked itemSize (axesOf shape strides suboffsets) = true := by
  cases shape with
  | nil => rfl
  | cons m shape =>
    cases strides with
    | nil => rfl
    | cons s strides =>
      obtain ⟨hstride, hpacked⟩ := rowStride_of_rowMajorStrides h suboffsets.tail
      rw [axesOf, rowPacked, hstride, hpacked]
      simp [Axis.fits]

/-- Derived strides are recognised as row-major without gaps, also those of a shape with empty axes. -/
theorem isRowContiguous_of_rowMajorStrides (h : rowMajorStrides itemSize shape = some strides)
    {suboffsets : List Int} (hd : hasIndirection suboffsets = false) :
    isRowContiguous itemSize shape strides suboffsets = true := by
  rw [isRowContiguous, hd, rowPacked_of_rowMajorStrides h, Bool.or_true]
  rfl

/-! ### Column-major strides -/

/-- An axis behind all others is stepped over by each of them. -/
theorem rowMajorStrides_concat_eq_some_iff (hrank : shape ≠ []) {n : Nat}
    (hitem : (itemSize : Int) ≤ maxSigned) :
    rowMajorStrides itemSize (shape ++ [n]) = some strides ↔
      (n : Int) ≤ maxSigned ∧ ∃ outer, rowMajorStrides (itemSize * n) shape = some outer ∧
        strides = outer ++ [(itemSize : Int)] := by
  have hunit : Word.distance? itemSize = some (itemSize : Int) :=
    Word.distance?_eq_some_iff.mpr ⟨rfl, hitem⟩
  have hmul : Word.mul? (itemSize : Int) n = Word.distance? (itemSize * n) := by
    rw [Word.mul?, Word.distance?, Nat.cast_mul]
  induction shape generalizing strides with
  | nil => exact absurd rfl hrank
  | cons m shape ih =>
    cases shape with
    | nil =>
      simp only [List.cons_append, List.nil_append, rowMajorStrides, hunit, Option.bind_eq_bind,
        Option.map_some, Option.bind_some, List.head?_cons, Option.bind_eq_some_iff,
        Option.map_eq_some_iff, Option.pure_def, Option.some.injEq]
      constructor
      · rintro ⟨_, hn, s, hs, rfl⟩
        obtain ⟨rfl, hle⟩ := Word.distance?_eq_some_iff.mp hn
        exact ⟨hle, [s], ⟨s, hmul ▸ hs, rfl⟩, rfl⟩
      · rintro ⟨hle, _, ⟨s, hs, rfl⟩, rfl⟩
        exact ⟨n, Word.distance?_eq_some_iff.mpr ⟨rfl, hle⟩, s, hmul ▸ hs, rfl⟩
    | cons k shape =>
      simp only [List.cons_append, rowMajorStrides, Option.bind_eq_bind, Option.bind_eq_some_iff,
        Option.pure_def, Option.some.injEq] at ih ⊢
      constructor
      · rintro ⟨inner, hinner, s, hhead, d, hd, t, ht, rfl⟩
        obtain ⟨hle, outer, houter, rfl⟩ := (ih (List.cons_ne_nil _ _)).mp hinner
        cases outer with
        | nil => cases length_rowMajorStrides houter
        | cons o outer => exact ⟨hle, _, ⟨_, houter, s, hhead, d, hd, t, ht, rfl⟩, rfl⟩
      · rintro ⟨hle, _, ⟨outer, houter, s, hhead, d, hd, t, ht, rfl⟩, rfl⟩
        have hinner := (ih (List.cons_ne_nil _ _)).mpr ⟨hle, outer, houter, rfl⟩
        refine ⟨_, hinner, s, ?_, d, hd, t, ht, rfl⟩
        rw [List.head?_append, hhead]
        rfl

/-- Column-major strides from an axis on are the row-major ones of the reversed shape. -/
theorem columnMajorFrom_eq_some_iff (hrank : shape ≠ []) (hitem : (itemSize : Int) ≤ maxSigned) :
    columnMajorFrom itemSize shape = some strides ↔
      rowMajorStrides itemSize shape.reverse = some strides.reverse := by
  induction shape generalizing itemSize strides with
  | nil => exact absurd rfl hrank
  | cons n shape ih =>
    cases shape with
    | nil =>
      have hunit : Word.distance? itemSize = some (itemSize : Int) :=
        Word.distance?_eq_some_iff.mpr ⟨rfl, hitem⟩
      simp [columnMajorFrom, rowMajorStrides, hunit, ← List.reverse_eq_iff]
    | cons k shape =>
      have hrest : (k :: shape).reverse ≠ [] := by simp
      rw [List.reverse_cons, rowMajorStrides_concat_eq_some_iff hrest hitem]
      simp only [columnMajorFrom, Option.bind_eq_bind, Option.bind_eq_some_iff, Option.pure_def,
        Option.some.injEq, Word.distance?_eq_some_iff, Word.mul?_eq_some_iff]
      constructor
      · rintro ⟨_, ⟨rfl, hn⟩, _, ⟨rfl, -, hle⟩, outer, houter, rfl⟩
        rw [← Nat.cast_mul] at hle houter
        exact ⟨hn, outer.reverse, (ih (List.cons_ne_nil _ _) hle).mp houter, List.reverse_cons⟩
      · rintro ⟨hn, inner, hinner, hstrides⟩
        have hle := ((rowMajorStrides_eq_some_iff hrest).mp hinner).1.itemSize_le
        have houter : columnMajorFrom ((itemSize * n : Nat) : Int) (k :: shape) = some inner.reverse :=
          (ih (List.cons_ne_nil _ _) hle).mpr (by rwa [List.reverse_reverse])
        have hword : minSigned ≤ ((itemSize * n : Nat) : Int) := by
          unfold minSigned
          omega
        refine ⟨_, ⟨rfl, hn⟩, _, ⟨(Nat.cast_mul ..).symm, hword, hle⟩, _, houter, ?_⟩
        rw [← List.reverse_inj, hstrides, List.reverse_cons, List.reverse_reverse]

/-- Column-major strides are the row-major ones of the reversed shape, and fail where these do. -/
theorem columnMajorStrides_eq_reverse (hrank : shape ≠ []) :
    columnMajorStrides itemSize shape = (rowMajorStrides itemSize shape.reverse).map List.reverse := by
  have hrank' : shape.reverse ≠ [] := by simpa using hrank
  ext1 strides
  rw [columnMajorStrides, Option.map_eq_some_iff]
  simp only [Option.bind_eq_bind, Option.bind_eq_some_iff, Word.distance?_eq_some_iff]
  constructor
  · rintro ⟨_, ⟨rfl, hitem⟩, h⟩
    exact ⟨_, (columnMajorFrom_eq_some_iff hrank hitem).mp h, List.reverse_reverse _⟩
  · rintro ⟨_, h, rfl⟩
    have hitem := ((rowMajorStrides_eq_some_iff hrank').mp h).1.itemSize_le
    exact ⟨_, ⟨rfl, hitem⟩,
      (columnMajorFrom_eq_some_iff hrank hitem).mpr (by rwa [List.reverse_reverse])⟩

/-- Derived strides are recognised as column-major without gaps, also those of a shape with empty
axes. -/
theorem isColumnContiguous_of_columnMajorStrides
    (h : columnMajorStrides itemSize shape = some strides) {suboffsets : List Int}
    (hd : hasIndirection suboffsets = false) :
    isColumnContiguous itemSize shape strides suboffsets = true := by
  rcases eq_or_ne shape [] with rfl | hrank
  · simp [isColumnContiguous, hd, axesOf, columnPackedFrom]
  · rw [columnMajorStrides_eq_reverse hrank, Option.map_eq_some_iff] at h
    obtain ⟨inner, hinner, rfl⟩ := h
    have hlength : inner.reverse.length = shape.length := by
      rw [List.length_reverse, length_rowMajorStrides hinner, List.length_reverse]
    rw [isColumnContiguous_eq_reverse hlength rfl, List.reverse_reverse]
    exact isRowContiguous_of_rowMajorStrides hinner hd

/-! ### Exactness -/

/-- Deriving strides is exact. For a shape with axes it succeeds just if the item size, the lengths behind
the first axis and the exact strides fit, each of which is the item size times the lengths of all axes
further inside; then it gives these strides. In column-major order it ends as it does in row-major order
for the reversed shape, with the strides reversed. What is derived is recognised as contiguous in its
order. -/
theorem derivedStrides_exact (hrank : 1 ≤ shape.length) :
    ((∃ strides, orOverflow (rowMajorStrides itemSize shape) = .ok strides) ↔
      StridesFit itemSize shape) ∧
    (∀ strides, orOverflow (rowMajorStrides itemSize shape) = .ok strides →
      strides.length = shape.length ∧ ∀ i < shape.length,
        strides[i]? = some ((itemSize * shapeSize (shape.drop (i + 1)) : Nat) : Int)) ∧
    orOverflow (columnMajorStrides itemSize shape) =
      (orOverflow (rowMajorStrides itemSize shape.reverse)).map List.reverse ∧
    ∀ strides suboffsets, hasIndirection suboffsets = false →
      (orOverflow (rowMajorStrides itemSize shape) = .ok strides →
        isRowContiguous itemSize shape strides suboffsets = true) ∧
      (orOverflow (columnMajorStrides itemSize shape) = .ok strides →
        isColumnContiguous itemSize shape strides suboffsets = true) := by
  have hne : shape ≠ [] := List.ne_nil_of_length_pos hrank
  simp only [orOverflow_eq_ok_iff, rowMajorStrides_eq_some_iff hne]
  refine ⟨⟨?_, ?_⟩, ?_, ?_, ?_⟩
  · rintro ⟨strides, hfit, -⟩
    exact hfit
  · intro hfit
    exact ⟨_, hfit, rfl⟩
  · rintro _ ⟨-, rfl⟩
    exact ⟨length_exactStrides .., fun i hi => getElem?_exactStrides hi⟩
  · rw [columnMajorStrides_eq_reverse hne]
    cases rowMajorStrides itemSize shape.reverse <;> rfl
  · intro strides suboffsets hd
    rw [← rowMajorStrides_eq_some_iff hne]
    exact ⟨fun h => isRowContiguous_of_rowMajorStrides h hd,
      fun h => isColumnContiguous_of_columnMajorStrides h hd⟩

/-- The middle one of three axes is empty, so that the outer one steps by nothing. An empty axis in front
hides no stride that does not fit, in neither order. -/
theorem derivedStrides_exact_emptyAxis :
    (∃ strides, orOverflow (rowMajorStrides 2 [7, 0, 5]) = .ok strides ∧ strides[0]? = some 0 ∧
      strides[1]? = some 10 ∧ isRowContiguous 2 [7, 0, 5] strides [] = true) ∧
    (¬ ∃ strides, orOverflow (rowMajorStrides 4 [0, 4611686018427387904, 4]) = .ok strides) ∧
    orOverflow (columnMajorStrides 4 [4, 4611686018427387904, 0]) = .error .lengthOverflow := by
  obtain ⟨hiff, hexact, -, hcontiguous⟩ := @derivedStrides_exact 2 [7, 0, 5] (by decide)
  obtain ⟨strides, hs⟩ := hiff.mpr ⟨by decide, by decide, by decide⟩
  refine ⟨⟨strides, hs, ?_, ?_, (hcontiguous strides [] rfl).1 hs⟩, ?_, ?_⟩
  · exact (hexact strides hs).2 0 (by decide)
  · exact (hexact strides hs).2 1 (by decide)
  · rw [(derivedStrides_exact (by decide)).1]
    intro hfit
    exact absurd (hfit.strides_le 0 (by decide)) (by decide)
  · rw [(derivedStrides_exact (by decide)).2.2.1]
    decide

end StridedViews
