import Mathlib.Data.List.TakeWhile
import StridedViews.Proofs.Layout.Extent
import StridedViews.Proofs.Layout.Walk

/-!
The walk over a layout without items. It goes along the axes from the outermost one on and ends where
it meets an empty axis: nothing is visited, but the axes outside of the empty one are stepped along
and their pointers followed. So the walk does just what finding the offset of every index of these
axes does (`Layout.visitItems_of_empty`), and it fails if one of them is not found. It cannot fail
where the outer axes follow no pointers and their hull holds words only (`Layout.OuterInWords`), in
particular where the first axis is the empty one.
-/

namespace StridedViews

open Word (maxSigned minSigned)

variable {ε σ α β : Type}

/-! ### The axes outside of an empty one -/

/-- The axes before the first empty one. -/
def outerAxes (axes : List Axis) : List Axis := axes.takeWhile (·.length ≠ 0)

theorem outerAxes_of_empty {a : Axis} (axes : List Axis) (ha : a.length = 0) :
    outerAxes (a :: axes) = [] := by
  simp [outerAxes, ha]

theorem outerAxes_cons {a : Axis} (axes : List Axis) (ha : a.length ≠ 0) :
    outerAxes (a :: axes) = a :: outerAxes axes := by
  simp [outerAxes, ha]

theorem zero_notMem_outerAxes (axes : List Axis) : 0 ∉ (outerAxes axes).map Axis.length := by
  intro h
  obtain ⟨a, ha, hzero⟩ := List.mem_map.mp h
  have hne := List.mem_takeWhile_imp ha
  simp [hzero] at hne

theorem AllDirect.outerAxes {axes : List Axis} (h : AllDirect axes) :
    AllDirect (outerAxes axes) := fun a ha =>
  h a (List.takeWhile_subset _ ha)

/-- Nothing is visited along axes of which one is empty, but those outside of it are gone along. -/
theorem visitFrom_of_empty (r : Resolver ε) (visit : Int → Visit ε σ Unit) {axes : List Axis}
    (hz : 0 ∈ axes.map Axis.length) (offset : Int) :
    visitFrom r visit axes offset = visitFrom r (fun _ => pure ()) (outerAxes axes) offset := by
  induction axes generalizing offset with
  | nil => cases hz
  | cons a axes ih =>
    by_cases ha : a.length = 0
    · -- the axis is left at once, and outside of it there is nothing to go along
      rw [outerAxes_of_empty axes ha, visitFrom.eq_2, ha]
      rfl
    · have hz' : 0 ∈ axes.map Axis.length :=
        (List.mem_cons.mp hz).resolve_left (Ne.symm ha)
      rw [outerAxes_cons axes ha, visitFrom, visitFrom]
      simp only [ih hz']

/-- Going through pure computations for nothing but their failures. -/
theorem forM_ofExcept (g : α → Except ε β) (xs : List α) :
    (forM xs fun x => Visit.ofExcept (g x) >>= fun _ => pure ()) =
      (Visit.ofExcept ((xs.mapM g).map fun _ => ()) : Visit ε σ Unit) := by
  induction xs with
  | nil => rfl
  | cons x xs ih =>
    rw [List.forM_cons, ih, List.mapM_cons]
    cases g x with
    | error e => rfl
    | ok y => cases xs.mapM g <;> rfl

/-! ### Whole layouts -/

namespace Layout

variable {l : Layout}

/-- The lengths of the axes before the first empty one. -/
def outerShape (l : Layout) : List Nat := (outerAxes l.axes).map Axis.length

/-- The offset of every index of the outer axes in row-major order. -/
def outerOffsets (l : Layout) (r : Resolver ε) : Except ε (List Int) := do
  let start ← r.lift l.start
  (indexes l.outerShape).mapM fun index => r.offsetFrom 0 (outerAxes l.axes) index start

/-- The walk over a layout with an empty axis visits nothing, and does what finding the offsets of
the outer axes does. -/
theorem visitItems_of_empty (hs : l.strides.length = l.shape.length) (hz : 0 ∈ l.shape)
    (r : Resolver ε) (visit : Int → Visit ε σ Unit) :
    l.visitItems r visit = Visit.ofExcept ((l.outerOffsets r).map fun _ => ()) := by
  have hshape : l.axes.map Axis.length = l.shape := map_length_axesOf l.suboffsets hs
  unfold visitItems outerOffsets
  cases r.lift l.start with
  | error e => rfl
  | ok start =>
    rw [Visit.ofExcept_ok_bind, visitFrom_of_empty r visit (hshape.symm ▸ hz),
      visitFrom_eq_visitIndexes r _ (zero_notMem_outerAxes _) 0, Resolver.visitIndexes,
      forM_ofExcept]
    rfl

theorem exists_outerOffsets_iff (r : Resolver ε) :
    (∃ offsets, l.outerOffsets r = .ok offsets) ↔
      (l.byteOffset : Int) ≤ maxSigned ∧ ∀ index, InShape index l.outerShape →
        ∃ place, r.offsetFrom 0 (outerAxes l.axes) index l.byteOffset = .ok place := by
  have hmap (start : Int) : (∃ offsets, (indexes l.outerShape).mapM (fun index =>
        r.offsetFrom 0 (outerAxes l.axes) index start) = .ok offsets) ↔
      ∀ index, InShape index l.outerShape →
        ∃ place, r.offsetFrom 0 (outerAxes l.axes) index start = .ok place := by
    simp only [exists_mapM_eq_ok_iff, mem_indexes]
  unfold outerOffsets
  constructor
  · rintro ⟨offsets, h⟩
    obtain ⟨start, hstart, h⟩ := bind_eq_ok_iff.mp h
    obtain ⟨rfl, hle⟩ := start_eq_ok_iff.mp (r.lift_eq_ok_iff.mp hstart)
    exact ⟨hle, (hmap _).mp ⟨offsets, h⟩⟩
  · rintro ⟨hle, h⟩
    obtain ⟨offsets, hoffsets⟩ := (hmap _).mpr h
    have hstart := r.lift_eq_ok_iff.mpr (start_eq_ok_iff.mpr ⟨rfl, hle⟩)
    exact ⟨offsets, bind_eq_ok_iff.mpr ⟨_, hstart, hoffsets⟩⟩

/-- The outer axes follow no pointers, and every offset along them is a word. -/
structure OuterInWords (l : Layout) : Prop where
  direct : AllDirect (outerAxes l.axes)
  axes : ∀ a ∈ outerAxes l.axes, a.InWords
  low : minSigned ≤ (l.byteOffset : Int) + lowReach (outerAxes l.axes)
  high : (l.byteOffset : Int) + highReach (outerAxes l.axes) ≤ maxSigned

/-- Nothing is outside of a first axis that is empty. -/
theorem outerInWords_of_head (hs : l.strides.length = l.shape.length)
    (hhead : l.shape.head? = some 0) (hstart : (l.byteOffset : Int) ≤ maxSigned) :
    l.OuterInWords := by
  have hnone : outerAxes l.axes = [] := by
    have hshape : l.axes.map Axis.length = l.shape := map_length_axesOf l.suboffsets hs
    rw [← hshape, List.head?_map, Option.map_eq_some_iff] at hhead
    obtain ⟨a, ha, hzero⟩ := hhead
    obtain ⟨axes, haxes⟩ := List.head?_eq_some_iff.mp ha
    rw [haxes, outerAxes_of_empty axes hzero]
  have hword : minSigned ≤ 0 := by decide
  constructor <;> rw [hnone]
  · exact fun _ h => nomatch h
  · exact fun _ h => nomatch h
  · rw [lowReach_nil]
    omega
  · rwa [highReach_nil, add_zero]

/-- Then the outer offsets are found, however pointers are followed. -/
theorem OuterInWords.exists_outerOffsets (h : l.OuterInWords) (r : Resolver ε) :
    ∃ offsets, l.outerOffsets r = .ok offsets := by
  have hhigh := highReach_nonneg (outerAxes l.axes)
  have hend := h.high
  refine (exists_outerOffsets_iff r).mpr ⟨by omega, fun index hx => ?_⟩
  exact ⟨_, r.offsetFrom_of_inWords h.direct h.axes hx h.low h.high⟩

/-- The walk that comes to an empty axis with words only ends well and has visited nothing. -/
theorem OuterInWords.visitItems (h : l.OuterInWords) (hs : l.strides.length = l.shape.length)
    (hz : 0 ∈ l.shape) (r : Resolver ε) (visit : Int → Visit ε σ Unit) :
    l.visitItems r visit = pure () := by
  obtain ⟨offsets, hoffsets⟩ := h.exists_outerOffsets r
  rw [visitItems_of_empty hs hz, hoffsets]
  rfl

end Layout
end StridedViews
