import Mathlib.Algebra.BigOperators.Group.List.Basic
import Mathlib.Tactic.Linarith
import StridedViews.Layout.Offset
import StridedViews.Proofs.Layout.Index

/-!
Offsets of layouts that follow no pointers. There an index has the exact offset `displacement`
beyond the start. The checked computation either gives that number or fails (`offsetFrom_exact`),
and it does not fail where the hull of all displacements stays among the words
(`offsetFrom_of_inWords`).
-/

namespace StridedViews

open Word (maxSigned minSigned)

/-- How far an index is from index 0, over unbounded integers. -/
def displacement (index : List Nat) (strides : List Int) : Int :=
  (List.zipWith (fun i s => (i : Int) * s) index strides).sum

@[simp] theorem displacement_nil (strides : List Int) : displacement [] strides = 0 := rfl

@[simp] theorem displacement_cons (i : Nat) (index : List Nat) (s : Int) (strides : List Int) :
    displacement (i :: index) (s :: strides) = i * s + displacement index strides := rfl

/-- No axis follows stored pointers. -/
def AllDirect (axes : List Axis) : Prop := ∀ a ∈ axes, a.indirect? = none

theorem AllDirect.head {a : Axis} {axes : List Axis} (h : AllDirect (a :: axes)) :
    a.indirect? = none := h a (List.mem_cons_self ..)

theorem AllDirect.tail {a : Axis} {axes : List Axis} (h : AllDirect (a :: axes)) :
    AllDirect axes := fun b hb => h b (List.mem_cons_of_mem _ hb)

theorem allDirect_axesOf (shape : List Nat) (strides : List Int) {suboffsets : List Int}
    (h : hasIndirection suboffsets = false) : AllDirect (axesOf shape strides suboffsets) := by
  induction shape generalizing strides suboffsets with
  | nil => simp [axesOf, AllDirect]
  | cons n shape ih =>
    cases strides with
    | nil => simp [axesOf, AllDirect]
    | cons s strides =>
      intro a ha
      rcases List.mem_cons.mp ha with rfl | ha
      · cases suboffsets with
        | nil => rfl
        | cons o suboffsets =>
          simp only [hasIndirection, List.any_cons, Bool.or_eq_false_iff] at h
          simp [Axis.indirect?, Option.filter, h.1]
      · refine ih strides ?_ a ha
        cases suboffsets with
        | nil => exact h
        | cons o suboffsets =>
          simp only [hasIndirection, List.any_cons, Bool.or_eq_false_iff] at h
          exact h.2

/-- The axes keep the strides. -/
theorem map_stride_axesOf {shape : List Nat} {strides : List Int} (suboffsets : List Int)
    (h : strides.length = shape.length) :
    (axesOf shape strides suboffsets).map Axis.stride = strides := by
  induction shape generalizing strides suboffsets with
  | nil =>
    rw [List.length_nil, List.length_eq_zero_iff] at h
    rw [h]
    rfl
  | cons n shape ih =>
    cases strides with
    | nil => simp at h
    | cons s strides => simp [axesOf, ih suboffsets.tail (by simpa using h)]

/-! ### One step -/

theorem orOverflow_eq_ok_iff {α : Type} {x : Option α} {a : α} :
    orOverflow x = .ok a ↔ x = some a := by
  cases x <;> simp [orOverflow]

/-- A step ends where the exact sum says, and it is made just if its index, its length and its end
fit in a word. -/
theorem advance?_eq_ok_iff {offset stride place : Int} {i : Nat} :
    advance? offset i stride = .ok place ↔
      offset + i * stride = place ∧ (i : Int) ≤ maxSigned ∧
        (minSigned ≤ i * stride ∧ i * stride ≤ maxSigned) ∧
        (minSigned ≤ place ∧ place ≤ maxSigned) := by
  unfold advance?
  rw [orOverflow_eq_ok_iff]
  simp only [Option.bind_eq_bind, Option.bind_eq_some_iff, Word.distance?_eq_some_iff,
    Word.mul?_eq_some_iff, Word.add?_eq_some_iff]
  constructor
  · rintro ⟨_, ⟨rfl, hi⟩, _, ⟨rfl, hd⟩, rfl, hp⟩
    exact ⟨rfl, hi, hd, hp⟩
  · rintro ⟨rfl, hi, hd, hp⟩
    exact ⟨_, ⟨rfl, hi⟩, _, ⟨rfl, hd⟩, rfl, hp⟩

namespace Resolver

variable {ε : Type} (r : Resolver ε)

@[simp] theorem lift_ok {α : Type} (a : α) : r.lift (.ok a) = .ok a := rfl

theorem lift_eq_ok_iff {α : Type} {x : Except LayoutError α} {a : α} :
    r.lift x = .ok a ↔ x = .ok a := by
  cases x <;> simp [lift, Except.mapError]

theorem enter_direct {a : Axis} (h : a.indirect? = none) (offset : Int) (i : Nat) :
    r.enter a offset i = r.lift (advance? offset i a.stride) := by
  unfold enter
  rw [h]
  cases r.lift (advance? offset i a.stride) <;> rfl

theorem offsetFrom_cons {dimension i : Nat} {a : Axis} (axes : List Axis) (index : List Nat)
    (offset : Int) (hi : i < a.length) :
    r.offsetFrom dimension (a :: axes) (i :: index) offset =
      (r.enter a offset i).bind (r.offsetFrom (dimension + 1) axes index) := by
  rw [offsetFrom, if_pos hi]
  rfl

/-- Along direct axes an offset that is found is the exact one. -/
theorem offsetFrom_exact {axes : List Axis} (hd : AllDirect axes) {dimension : Nat}
    {index : List Nat} (hx : InShape index (axes.map Axis.length)) {offset place : Int}
    (h : r.offsetFrom dimension axes index offset = .ok place) :
    place = offset + displacement index (axes.map Axis.stride) := by
  induction axes generalizing dimension index offset with
  | nil =>
    obtain rfl := List.forall₂_nil_right_iff.mp hx
    simp only [offsetFrom, Except.ok.injEq] at h
    simp [h]
  | cons a axes ih =>
    obtain ⟨i, index, hi, hrest, rfl⟩ := List.forall₂_cons_right_iff.mp hx
    rw [r.offsetFrom_cons axes index offset hi, r.enter_direct hd.head] at h
    cases hp : advance? offset i a.stride with
    | error e => rw [hp] at h; simp [lift, Except.mapError, Except.bind] at h
    | ok p =>
      rw [hp] at h
      obtain ⟨rfl, -⟩ := advance?_eq_ok_iff.mp hp
      rw [ih hd.tail hrest h, List.map_cons, displacement_cons]
      ring

/-- Along direct axes it does not matter how pointers are followed. -/
theorem offsetFrom_congr {r' : Resolver ε} (h : r.ofLayout = r'.ofLayout) {axes : List Axis}
    (hd : AllDirect axes) (dimension : Nat) (index : List Nat) (offset : Int) :
    r.offsetFrom dimension axes index offset = r'.offsetFrom dimension axes index offset := by
  induction axes generalizing dimension index offset with
  | nil => rfl
  | cons a axes ih =>
    cases index with
    | nil => rfl
    | cons i index =>
      rw [offsetFrom, offsetFrom, r.enter_direct hd.head, r'.enter_direct hd.head, lift, lift, h]
      simp only [ih hd.tail]

end Resolver

/-! ### The hull of all displacements -/

/-- The way from the first entry of an axis to its last. -/
def Axis.span (a : Axis) : Int := ((a.length : Int) - 1) * a.stride

/-- How far an index can lie before index 0. -/
def lowReach (axes : List Axis) : Int := (axes.map fun a => min 0 a.span).sum

/-- How far an index can lie behind index 0. -/
def highReach (axes : List Axis) : Int := (axes.map fun a => max 0 a.span).sum

@[simp] theorem lowReach_nil : lowReach [] = 0 := rfl

@[simp] theorem highReach_nil : highReach [] = 0 := rfl

@[simp] theorem lowReach_cons (a : Axis) (axes : List Axis) :
    lowReach (a :: axes) = min 0 a.span + lowReach axes := rfl

@[simp] theorem highReach_cons (a : Axis) (axes : List Axis) :
    highReach (a :: axes) = max 0 a.span + highReach axes := rfl

theorem lowReach_nonpos (axes : List Axis) : lowReach axes ≤ 0 := by
  induction axes with
  | nil => simp
  | cons a axes ih => rw [lowReach_cons]; linarith [min_le_left 0 a.span]

theorem highReach_nonneg (axes : List Axis) : 0 ≤ highReach axes := by
  induction axes with
  | nil => simp
  | cons a axes ih => rw [highReach_cons]; linarith [le_max_left 0 a.span]

/-- A step along an axis stays between its two ends. -/
theorem Axis.step_mem_span {a : Axis} {i : Nat} (hi : i < a.length) :
    min 0 a.span ≤ i * a.stride ∧ i * a.stride ≤ max 0 a.span := by
  have hi' : (i : Int) ≤ (a.length : Int) - 1 := by omega
  have h0 : (0 : Int) ≤ i := by omega
  unfold Axis.span
  rcases le_total 0 a.stride with hs | hs
  · exact ⟨(min_le_left _ _).trans (mul_nonneg h0 hs),
      (mul_le_mul_of_nonneg_right hi' hs).trans (le_max_right _ _)⟩
  · exact ⟨(min_le_right _ _).trans (mul_le_mul_of_nonpos_right hi' hs),
      (mul_nonpos_of_nonneg_of_nonpos h0 hs).trans (le_max_left _ _)⟩

/-- The ways along the single axes lie between the reaches of them all. -/
theorem reach_span {axes : List Axis} {a : Axis} (ha : a ∈ axes) :
    lowReach axes ≤ a.span ∧ a.span ≤ highReach axes := by
  induction axes with
  | nil => cases ha
  | cons b axes ih =>
    have hlow := lowReach_nonpos axes
    have hhigh := highReach_nonneg axes
    rw [lowReach_cons, highReach_cons]
    rcases List.mem_cons.mp ha with rfl | ha
    · exact ⟨by linarith [min_le_right 0 a.span], by linarith [le_max_right 0 a.span]⟩
    · obtain ⟨hlo, hhi⟩ := ih ha
      exact ⟨by linarith [min_le_left 0 b.span], by linarith [le_max_left 0 b.span]⟩

/-- The length of an axis and the way from its first entry to its last are words. -/
structure Axis.InWords (a : Axis) : Prop where
  length_le : (a.length : Int) ≤ maxSigned
  span_mem : minSigned ≤ a.span ∧ a.span ≤ maxSigned

theorem inWords_of_hull {axes : List Axis} (hlen : ∀ a ∈ axes, (a.length : Int) ≤ maxSigned)
    {offset : Int} (hlo : 0 ≤ offset + lowReach axes)
    (hhi : offset + highReach axes ≤ maxSigned) : ∀ a ∈ axes, a.InWords := by
  intro a ha
  have hword : minSigned ≤ -maxSigned := by decide
  have hlow := lowReach_nonpos axes
  have hhigh := highReach_nonneg axes
  obtain ⟨hlo', hhi'⟩ := reach_span ha
  exact ⟨hlen a ha, by linarith, by linarith⟩

/-- Along axes whose lengths and ways are words, if the hull of all displacements from an offset
holds words only, then every index has an offset, which is the exact one. -/
theorem Resolver.offsetFrom_of_inWords {ε : Type} (r : Resolver ε) {axes : List Axis}
    (hd : AllDirect axes) (hw : ∀ a ∈ axes, a.InWords) {dimension : Nat}
    {index : List Nat} (hx : InShape index (axes.map Axis.length)) {offset : Int}
    (hlo : minSigned ≤ offset + lowReach axes) (hhi : offset + highReach axes ≤ maxSigned) :
    r.offsetFrom dimension axes index offset =
      .ok (offset + displacement index (axes.map Axis.stride)) := by
  induction axes generalizing dimension index offset with
  | nil =>
    obtain rfl := List.forall₂_nil_right_iff.mp hx
    simp [offsetFrom]
  | cons a axes ih =>
    obtain ⟨i, index, hi, hrest, rfl⟩ := List.forall₂_cons_right_iff.mp hx
    obtain ⟨hstep, hstep'⟩ := a.step_mem_span hi
    rw [lowReach_cons] at hlo
    rw [highReach_cons] at hhi
    have hlow := lowReach_nonpos axes
    have hhigh := highReach_nonneg axes
    obtain ⟨hn, hspan⟩ := hw a (List.mem_cons_self ..)
    -- the step stays between 0 and the span, both of which are words
    have hmin : minSigned ≤ min 0 a.span := le_min (by decide) hspan.1
    have hmax : max 0 a.span ≤ maxSigned := max_le (by decide) hspan.2
    have hplace : advance? offset i a.stride = .ok (offset + i * a.stride) :=
      advance?_eq_ok_iff.mpr
        ⟨rfl, by omega, ⟨by linarith, by linarith⟩, by linarith, by linarith⟩
    rw [r.offsetFrom_cons axes index offset hi, r.enter_direct hd.head, hplace, lift_ok]
    refine (ih hd.tail (fun b hb => hw b (List.mem_cons_of_mem _ hb)) hrest (by linarith)
      (by linarith)).trans ?_
    rw [List.map_cons, displacement_cons, add_assoc]

/-! ### Whole layouts -/

namespace Layout

/-- Where the item at an index lies by the definition of strides, over unbounded integers. -/
def place (l : Layout) (index : List Nat) : Int := l.byteOffset + displacement index l.strides

variable {ε : Type} {l : Layout} {index : List Nat}

theorem allDirect_axes (h : l.isIndirect = false) : AllDirect l.axes :=
  allDirect_axesOf l.shape l.strides h

theorem itemOffset_of_inShape (r : Resolver ε) (hx : InShape index l.shape) :
    l.itemOffset r index = (r.lift l.start).bind (r.offsetFrom 0 l.axes index) := by
  have hrank : ¬ index.length ≠ l.rank := not_not.mpr hx.length_eq
  rw [itemOffset, if_neg hrank]
  rfl

theorem itemOffset_congr (hd : l.isIndirect = false) {r r' : Resolver ε}
    (h : r.ofLayout = r'.ofLayout) (index : List Nat) :
    l.itemOffset r index = l.itemOffset r' index := by
  rw [itemOffset, itemOffset, Resolver.lift, Resolver.lift, h]
  simp only [r.offsetFrom_congr h (allDirect_axes hd)]

theorem itemOffset_exact (hs : l.strides.length = l.shape.length) (hd : l.isIndirect = false)
    (r : Resolver ε) (hx : InShape index l.shape) {p : Int}
    (h : l.itemOffset r index = .ok p) : p = l.place index := by
  rw [itemOffset_of_inShape r hx] at h
  cases hstart : r.lift l.start with
  | error e => rw [hstart] at h; cases h
  | ok start =>
    rw [hstart] at h
    have hword := (r.lift_eq_ok_iff).mp hstart
    obtain ⟨rfl, -⟩ := Word.distance?_eq_some_iff.mp (orOverflow_eq_ok_iff.mp hword)
    rw [r.offsetFrom_exact (allDirect_axes hd)
      ((map_length_axesOf l.suboffsets hs).symm ▸ hx) h, axes,
      map_stride_axesOf l.suboffsets hs, place]

theorem itemOffset_of_inWords (hs : l.strides.length = l.shape.length)
    (hd : l.isIndirect = false) (hw : ∀ a ∈ l.axes, a.InWords)
    (hlo : minSigned ≤ (l.byteOffset : Int) + lowReach l.axes)
    (hhi : (l.byteOffset : Int) + highReach l.axes ≤ maxSigned) (r : Resolver ε)
    (hx : InShape index l.shape) : l.itemOffset r index = .ok (l.place index) := by
  have hhigh := highReach_nonneg l.axes
  have hstart : l.start = .ok (l.byteOffset : Int) :=
    orOverflow_eq_ok_iff.mpr (Word.distance?_eq_some_iff.mpr ⟨rfl, by linarith⟩)
  rw [itemOffset_of_inShape r hx, hstart, r.lift_ok]
  refine (r.offsetFrom_of_inWords (allDirect_axes hd) hw
    ((map_length_axesOf l.suboffsets hs).symm ▸ hx) hlo hhi).trans ?_
  rw [axes, map_stride_axesOf l.suboffsets hs, place]

theorem itemOffset_of_hull (hs : l.strides.length = l.shape.length) (hd : l.isIndirect = false)
    (hlen : ∀ a ∈ l.axes, (a.length : Int) ≤ maxSigned)
    (hlo : 0 ≤ (l.byteOffset : Int) + lowReach l.axes)
    (hhi : (l.byteOffset : Int) + highReach l.axes ≤ maxSigned) (r : Resolver ε)
    (hx : InShape index l.shape) : l.itemOffset r index = .ok (l.place index) := by
  have hword : minSigned ≤ 0 := by decide
  exact itemOffset_of_inWords hs hd (inWords_of_hull hlen hlo hhi) (hword.trans hlo) hhi r hx

end Layout
end StridedViews
