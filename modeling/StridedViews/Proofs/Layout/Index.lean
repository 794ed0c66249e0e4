import Mathlib.Data.List.Forall2
import Mathlib.Tactic.Ring
import StridedViews.Layout.Basic

/-!
The index space of a shape. `indexes` lists it in row-major order, the last axis running fastest:
the list has every index once (`mem_indexes`), it rises in the lexicographic order
(`pairwise_indexes`), and the place of an index in it is its mixed-radix number
(`map_rowRank_indexes`).
-/

namespace StridedViews

/-- An index of a shape picks one entry of each axis. -/
def InShape (index shape : List Nat) : Prop := List.Forall₂ (· < ·) index shape

/-- All indexes of a shape, in row-major order. -/
def indexes : List Nat → List (List Nat)
  | [] => [[]]
  | n :: shape => (List.range n).flatMap fun i => (indexes shape).map (i :: ·)

/-- How many indexes of a shape come before one of them in row-major order. -/
def rowRank : List Nat → List Nat → Nat
  | _ :: shape, i :: index => i * shapeSize shape + rowRank shape index
  | _, _ => 0

@[simp] theorem shapeSize_nil : shapeSize [] = 1 := rfl

@[simp] theorem shapeSize_cons (n : Nat) (shape : List Nat) :
    shapeSize (n :: shape) = n * shapeSize shape := rfl

theorem zero_notMem_cons {n : Nat} {shape : List Nat} : 0 ∉ n :: shape ↔ 0 < n ∧ 0 ∉ shape := by
  rw [List.mem_cons, not_or, Nat.pos_iff_ne_zero, ne_comm]

theorem shapeSize_pos {shape : List Nat} (h : 0 ∉ shape) : 0 < shapeSize shape := by
  induction shape with
  | nil => simp
  | cons n shape ih =>
    obtain ⟨hn, h⟩ := zero_notMem_cons.mp h
    exact Nat.mul_pos hn (ih h)

theorem shapeSize_eq_zero_iff {shape : List Nat} : shapeSize shape = 0 ↔ 0 ∈ shape := by
  constructor
  · intro h
    by_contra hz
    exact (shapeSize_pos hz).ne' h
  · intro h
    induction shape with
    | nil => simp at h
    | cons n shape ih =>
      rcases List.mem_cons.mp h with h | h
      · rw [shapeSize_cons, ← h, Nat.zero_mul]
      · rw [shapeSize_cons, ih h, Nat.mul_zero]

theorem shapeSize_append (shape shape' : List Nat) :
    shapeSize (shape ++ shape') = shapeSize shape * shapeSize shape' := by
  induction shape with
  | nil => simp
  | cons m shape ih => rw [List.cons_append, shapeSize_cons, ih, shapeSize_cons, Nat.mul_assoc]

/-- Without empty axes no part of a shape has more items than the whole. -/
theorem shapeSize_take_le {shape : List Nat} (hz : 0 ∉ shape) (k : Nat) :
    shapeSize (shape.take k) ≤ shapeSize shape := by
  have hrest : 0 < shapeSize (shape.drop k) := shapeSize_pos fun h => hz (List.mem_of_mem_drop h)
  nth_rewrite 2 [← List.take_append_drop k shape]
  rw [shapeSize_append]
  exact Nat.le_mul_of_pos_right _ hrest

theorem shapeSize_drop_le {shape : List Nat} (hz : 0 ∉ shape) (k : Nat) :
    shapeSize (shape.drop k) ≤ shapeSize shape := by
  have hfirst : 0 < shapeSize (shape.take k) := shapeSize_pos fun h => hz (List.mem_of_mem_take h)
  nth_rewrite 2 [← List.take_append_drop k shape]
  rw [shapeSize_append]
  exact Nat.le_mul_of_pos_left _ hfirst

/-- No axis of a shape without empty axes is longer than the shape has items. -/
theorem le_shapeSize {shape : List Nat} (hz : 0 ∉ shape) {n : Nat} (hn : n ∈ shape) :
    n ≤ shapeSize shape := by
  induction shape with
  | nil => simp at hn
  | cons a shape ih =>
    obtain ⟨ha, hrest⟩ := zero_notMem_cons.mp hz
    rcases List.mem_cons.mp hn with rfl | hn
    · exact Nat.le_mul_of_pos_right _ (shapeSize_pos hrest)
    · exact (ih hrest hn).trans (Nat.le_mul_of_pos_left _ ha)

theorem InShape.length_eq {index shape : List Nat} (h : InShape index shape) :
    index.length = shape.length := List.Forall₂.length_eq h

/-- A shape with an empty axis has no index. -/
theorem InShape.zero_notMem {index shape : List Nat} (h : InShape index shape) : 0 ∉ shape := by
  unfold InShape at h
  induction h with
  | nil => simp
  | cons hi _ ih =>
    rw [List.mem_cons, not_or]
    exact ⟨by omega, ih⟩

theorem mem_indexes {index shape : List Nat} : index ∈ indexes shape ↔ InShape index shape := by
  induction shape generalizing index with
  | nil => simp [indexes, InShape]
  | cons n shape ih =>
    cases index with
    | nil => simp [indexes, InShape]
    | cons i index => simp [indexes, InShape, List.forall₂_cons, ih]

/-- The list of indexes rises in the lexicographic order, so no index is in it twice. -/
theorem pairwise_indexes (shape : List Nat) : (indexes shape).Pairwise (· < ·) := by
  induction shape with
  | nil => simp [indexes]
  | cons n shape ih =>
    rw [indexes, List.pairwise_flatMap]
    constructor
    · intro i _
      rw [List.pairwise_map]
      exact ih.imp fun h => List.cons_lt_cons_iff.mpr (.inr ⟨rfl, h⟩)
    · refine List.pairwise_lt_range.imp fun {i j} hij x hx y hy => ?_
      obtain ⟨_, _, rfl⟩ := List.mem_map.mp hx
      obtain ⟨_, _, rfl⟩ := List.mem_map.mp hy
      exact List.cons_lt_cons_iff.mpr (.inl hij)

theorem nodup_indexes (shape : List Nat) : (indexes shape).Nodup := by
  rw [List.nodup_iff_pairwise_ne]
  refine (pairwise_indexes shape).imp ?_
  rintro i _ hlt rfl
  exact List.lt_irrefl i hlt

theorem indexes_ne_nil {shape : List Nat} (h : 0 ∉ shape) : indexes shape ≠ [] := by
  induction shape with
  | nil => simp [indexes]
  | cons n shape ih =>
    obtain ⟨hn, hrest⟩ := zero_notMem_cons.mp h
    obtain ⟨m, rfl⟩ := Nat.exists_eq_succ_of_ne_zero hn.ne'
    simp [indexes, List.range_succ_eq_map, ih hrest]

/-- Blocks of `m` numbers, `n` of them, count to `n * m`. -/
theorem flatMap_range_blocks (n m : Nat) :
    ((List.range n).flatMap fun i => (List.range m).map (i * m + ·)) = List.range (n * m) := by
  induction n with
  | zero => simp
  | succ n ih => simp [List.range_succ, List.flatMap_append, ih, Nat.succ_mul, List.range_add]

/-- Row-major order numbers the indexes from 0 on. -/
theorem map_rowRank_indexes (shape : List Nat) :
    (indexes shape).map (rowRank shape) = List.range (shapeSize shape) := by
  induction shape with
  | nil => rfl
  | cons n shape ih =>
    rw [shapeSize_cons, ← flatMap_range_blocks, indexes, List.map_flatMap]
    congr 1
    funext i
    rw [← ih, List.map_map, List.map_map]
    rfl

theorem length_indexes (shape : List Nat) : (indexes shape).length = shapeSize shape := by
  rw [← List.length_map (rowRank shape), map_rowRank_indexes, List.length_range]

theorem rowRank_lt {index shape : List Nat} (h : InShape index shape) :
    rowRank shape index < shapeSize shape := by
  rw [← List.mem_range, ← map_rowRank_indexes]
  exact List.mem_map_of_mem (mem_indexes.mpr h)

/-- An index stands in the list of all indexes where its rank says. -/
theorem getElem?_rowRank {index shape : List Nat} (h : InShape index shape) :
    (indexes shape)[rowRank shape index]? = some index := by
  obtain ⟨k, hk⟩ := List.getElem?_of_mem (mem_indexes.mpr h)
  have hrank : ((indexes shape).map (rowRank shape))[k]? = some (rowRank shape index) := by
    rw [List.getElem?_map, hk]
    rfl
  rw [map_rowRank_indexes] at hrank
  obtain ⟨hlt, heq⟩ := List.getElem?_eq_some_iff.mp hrank
  rw [List.getElem_range] at heq
  rw [← heq, hk]

theorem rowRank_inj {shape i j : List Nat} (hi : InShape i shape) (hj : InShape j shape)
    (h : rowRank shape i = rowRank shape j) : i = j := by
  have heq := getElem?_rowRank hi
  rw [h, getElem?_rowRank hj] at heq
  exact (Option.some.inj heq).symm

/-- A shape without empty axes has a last index. -/
theorem exists_last_index {shape : List Nat} (h : 0 ∉ shape) :
    ∃ index, InShape index shape ∧ rowRank shape index + 1 = shapeSize shape := by
  have hpos := shapeSize_pos h
  have hlast : shapeSize shape - 1 ∈ (indexes shape).map (rowRank shape) := by
    rw [map_rowRank_indexes, List.mem_range]
    omega
  obtain ⟨index, hi, hr⟩ := List.mem_map.mp hlast
  exact ⟨index, mem_indexes.mp hi, by omega⟩

example : indexes [2, 3] = [[0, 0], [0, 1], [0, 2], [1, 0], [1, 1], [1, 2]] := by decide

end StridedViews
