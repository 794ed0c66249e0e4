import StridedViews.Proofs.Layout.Packed
import StridedViews.Proofs.Layout.Recipe
import StridedViews.Proofs.Layout.Walk
import StridedViews.View.Region

/-!
Reading all items at once agrees with reading them one by one. `itemwise` is the plain way: the
items at all indexes in row-major order, up to the first that cannot be read. The walk is equal to
it (`walk_eq_itemwise`), and so is the slice that is taken of a contiguous layout wherever one of
the two succeeds (`gather_eq_ok_iff`).
-/

namespace StridedViews

open Word (maxSigned minSigned)

namespace Region

variable {l : Layout} {region : List UInt8}

theorem bytesAt_eq_ok_iff {offset : Int} {n : Nat} {bs : List UInt8} :
    bytesAt region offset n = .ok bs ↔
      (0 ≤ offset ∧ offset + n ≤ region.length) ∧ bs = (region.drop offset.toNat).take n := by
  unfold bytesAt span
  split
  · next h => simp [h, bind, Except.bind, pure, Except.pure, eq_comm]
  · next h => simp [h, bind, Except.bind]

/-! ### The walk -/

/-- The items at all indexes in row-major order, read one by one. -/
def itemwise (l : Layout) (region : List UInt8) : Except ViewError (List UInt8) :=
  ((indexes l.shape).mapM (readItem l region)).map List.flatten

/-- One visit puts its item on top of those read before, unless it cannot be read. -/
theorem run_collect (index : List Nat) (items : List (List UInt8)) :
    (Visit.ofExcept (l.itemOffset (resolver region) index) >>= collect l region).run.run items =
      match readItem l region index with
      | .ok item => (.ok (), item :: items)
      | .error e => (.error e, items) := by
  unfold readItem
  cases l.itemOffset (resolver region) index with
  | error e => rfl
  | ok place =>
    rw [Visit.ofExcept_ok_bind]
    change (Visit.ofExcept (bytesAt region place l.itemSize) >>= _).run.run items =
      match bytesAt region place l.itemSize with
      | .ok item => (.ok (), item :: items)
      | .error e => (.error e, items)
    cases bytesAt region place l.itemSize <;> rfl

/-- Visiting some indexes collects what reading them one by one gives, newest first. -/
theorem run_forM_collect (l : Layout) (region : List UInt8) (xs : List (List Nat))
    (items : List (List UInt8)) :
    ∃ after, ((forM xs fun index =>
        Visit.ofExcept (l.itemOffset (resolver region) index) >>= collect l region).run.run items) =
      ((xs.mapM (readItem l region)).map fun _ => (), after) ∧
        ∀ ys, xs.mapM (readItem l region) = .ok ys → after = ys.reverse ++ items := by
  induction xs generalizing items with
  | nil => exact ⟨items, rfl, fun ys h => by cases h; rfl⟩
  | cons index xs ih =>
    rw [List.forM_cons, List.mapM_cons, Visit.run_bind, run_collect]
    cases readItem l region index with
    | error e => exact ⟨items, rfl, fun ys h => by cases h⟩
    | ok item =>
      obtain ⟨after, hrun, hafter⟩ := ih (item :: items)
      refine ⟨after, hrun.trans ?_, fun ys h => ?_⟩
      · cases xs.mapM (readItem l region) <;> rfl
      · obtain ⟨_, hitem, h⟩ := bind_eq_ok_iff.mp h
        obtain ⟨rest, hrest, h⟩ := bind_eq_ok_iff.mp h
        cases hitem
        cases h
        simp [hafter rest hrest]

theorem walk_eq_itemwise (hs : l.strides.length = l.shape.length) (hz : 0 ∉ l.shape) :
    walk l region = itemwise l region := by
  unfold walk itemwise
  rw [Layout.visitItems_eq_forM hs hz]
  obtain ⟨after, hrun, hafter⟩ := run_forM_collect l region (indexes l.shape) []
  rw [hrun]
  cases hm : (indexes l.shape).mapM (readItem l region) with
  | error e => rfl
  | ok ys => simp [hafter ys hm, Except.map]

/-! ### The slice of a contiguous layout -/

/-- Consecutive chunks of equal length make up a prefix. -/
theorem flatten_chunks {α : Type} (xs : List α) (m n : Nat) :
    ((List.range n).map fun k => (xs.drop (m * k)).take m).flatten = xs.take (m * n) := by
  induction n with
  | zero => simp
  | succ n ih =>
    rw [List.range_succ, List.map_append, List.flatten_append, ih, Nat.mul_succ, List.take_add]
    simp

/-- Where a contiguous layout fits into the region, every item can be read, and lies in its row. -/
theorem readItem_of_isRowContiguous (hs : l.Sound) (hc : l.isRowContiguous = true)
    (hz : 0 ∉ l.shape) (hr : (region.length : Int) ≤ maxSigned)
    (hfit : l.byteOffset + l.length ≤ region.length) {index : List Nat}
    (hx : InShape index l.shape) :
    readItem l region index =
      .ok (((region.drop l.byteOffset).drop (l.itemSize * rowRank l.shape index)).take
        l.itemSize) := by
  obtain ⟨hd, hp⟩ := Layout.rowPacked_of_isRowContiguous hc hz
  obtain ⟨hlow, hhigh⟩ := reach_of_rowPacked hp (hs.map_length_axes.symm ▸ hz)
  have hlength := hs.length_eq
  have hplace := Layout.place_of_isRowContiguous hs.strides_length hc hz hx
  have hrank : l.itemSize * rowRank l.shape index + l.itemSize ≤ l.length := by
    rw [hlength, ← Nat.mul_succ]
    exact Nat.mul_le_mul_left _ (rowRank_lt hx)
  have hoffset : l.itemOffset (resolver region) index = .ok (l.place index) := by
    refine Layout.itemOffset_of_hull hs.strides_length hd (fun a ha => ?_) ?_ ?_ _ hx
    · have hle := hs.axis_length_le hz ha
      omega
    · omega
    · rw [hhigh, hs.map_length_axes]
      have hcast : (l.length : Int) = l.itemSize * shapeSize l.shape := by exact_mod_cast hlength
      omega
  unfold readItem
  rw [hoffset, hplace]
  refine bytesAt_eq_ok_iff.mpr ⟨⟨Int.natCast_nonneg _, by omega⟩, ?_⟩
  rw [List.drop_drop, Int.toNat_natCast]

/-- Where a contiguous layout fits into the region, reading item by item gives the slice. -/
theorem itemwise_of_isRowContiguous (hs : l.Sound) (hc : l.isRowContiguous = true)
    (hz : 0 ∉ l.shape) (hr : (region.length : Int) ≤ maxSigned)
    (hfit : l.byteOffset + l.length ≤ region.length) :
    itemwise l region = .ok ((region.drop l.byteOffset).take l.length) := by
  have hitems : (indexes l.shape).mapM (readItem l region) =
      .ok (((indexes l.shape).map (rowRank l.shape)).map fun k =>
        ((region.drop l.byteOffset).drop (l.itemSize * k)).take l.itemSize) := by
    rw [mapM_eq_ok_iff, List.map_map, List.forall₂_map_right_iff, List.forall₂_same]
    intro index hx
    exact readItem_of_isRowContiguous hs hc hz hr hfit (mem_indexes.mp hx)
  rw [itemwise, hitems, map_rowRank_indexes, hs.length_eq, ← flatten_chunks]
  rfl

theorem gather_eq_slice (hc : l.isRowContiguous = true) {bs : List UInt8} :
    gather l region = .ok bs ↔ (l.byteOffset : Int) ≤ maxSigned ∧
      l.byteOffset + l.length ≤ region.length ∧ bs = (region.drop l.byteOffset).take l.length := by
  have hstart : ∀ start, l.start.mapError ViewError.layout = .ok start ↔
      (l.byteOffset : Int) = start ∧ start ≤ maxSigned := by
    intro start
    rw [← Word.distance?_eq_some_iff, ← orOverflow_eq_ok_iff, Layout.start]
    cases orOverflow (Word.distance? l.byteOffset) <;> simp [Except.mapError]
  rw [gather, if_pos hc, bind_eq_ok_iff]
  simp only [hstart, bytesAt_eq_ok_iff]
  constructor
  · rintro ⟨_, ⟨rfl, hword⟩, ⟨-, hfit⟩, rfl⟩
    exact ⟨hword, by omega, by rw [Int.toNat_natCast]⟩
  · rintro ⟨hword, hfit, rfl⟩
    exact ⟨_, ⟨rfl, hword⟩, ⟨Int.natCast_nonneg _, by omega⟩, by rw [Int.toNat_natCast]⟩

/-- The last item of a contiguous layout ends where all items end, so if it can be read, the layout
fits. -/
theorem fits_of_readItem (hs : l.Sound) (hc : l.isRowContiguous = true) (hz : 0 ∉ l.shape)
    (hitems : ∀ index ∈ indexes l.shape, ∃ item, readItem l region index = .ok item) :
    l.byteOffset + l.length ≤ region.length := by
  obtain ⟨index, hx, hlast⟩ := exists_last_index hz
  obtain ⟨item, hitem⟩ := hitems index (mem_indexes.mpr hx)
  obtain ⟨p, hp, hitem⟩ := bind_eq_ok_iff.mp hitem
  obtain ⟨⟨-, hend⟩, -⟩ := bytesAt_eq_ok_iff.mp hitem
  rw [Layout.itemOffset_exact hs.strides_length (Layout.rowPacked_of_isRowContiguous hc hz).1 _ hx hp,
    Layout.place_of_isRowContiguous hs.strides_length hc hz hx] at hend
  rw [hs.length_eq, ← hlast, Nat.mul_succ]
  omega

theorem exists_itemwise_eq_ok_iff :
    (∃ bs, itemwise l region = .ok bs) ↔
      ∀ index ∈ indexes l.shape, ∃ item, readItem l region index = .ok item := by
  rw [← exists_mapM_eq_ok_iff, itemwise]
  cases (indexes l.shape).mapM (readItem l region) <;> simp [Except.map]

/-- However the items are read, it succeeds in the same cases and with the same bytes. -/
theorem gather_eq_ok_iff (hs : l.Sound) (hz : 0 ∉ l.shape)
    (hr : (region.length : Int) ≤ maxSigned) {bs : List UInt8} :
    gather l region = .ok bs ↔ itemwise l region = .ok bs := by
  by_cases hc : l.isRowContiguous = true
  · rw [gather_eq_slice hc]
    constructor
    · rintro ⟨-, hfit, rfl⟩
      exact itemwise_of_isRowContiguous hs hc hz hr hfit
    · intro h
      have hfit := fits_of_readItem hs hc hz (exists_itemwise_eq_ok_iff.mp ⟨bs, h⟩)
      rw [itemwise_of_isRowContiguous hs hc hz hr hfit] at h
      exact ⟨by omega, hfit, (Except.ok.inj h).symm⟩
  · rw [gather, if_neg hc, walk_eq_itemwise hs.strides_length hz]

theorem length_item {index : List Nat} {item : List UInt8}
    (h : readItem l region index = .ok item) : item.length = l.itemSize := by
  obtain ⟨p, -, h⟩ := bind_eq_ok_iff.mp h
  exact length_bytesAt h

theorem length_flatten_items {xs : List (List Nat)} {items : List (List UInt8)}
    (h : List.Forall₂ (fun index item => readItem l region index = .ok item) xs items) :
    items.flatten.length = l.itemSize * xs.length := by
  induction h with
  | nil => simp
  | cons hx _ ih =>
    rw [List.flatten_cons, List.length_append, length_item hx, ih, List.length_cons,
      Nat.mul_succ, Nat.add_comm]

/-- The first index in row-major order at which reading fails. -/
theorem exists_first_of_itemwise_eq_error {e : ViewError} (h : itemwise l region = .error e) :
    ∃ index, InShape index l.shape ∧ readItem l region index = .error e ∧
      ∀ before, InShape before l.shape → before < index →
        ∃ item, readItem l region before = .ok item := by
  have hm : (indexes l.shape).mapM (readItem l region) = .error e := by
    rw [itemwise] at h
    cases hm : (indexes l.shape).mapM (readItem l region) with
    | ok ys => rw [hm] at h; cases h
    | error e' => rw [hm] at h; cases h; rfl
  obtain ⟨earlier, index, later, hsplit, hearlier, hindex⟩ := exists_first_of_mapM_eq_error hm
  have hsorted := pairwise_indexes l.shape
  rw [hsplit, List.pairwise_append, List.pairwise_cons] at hsorted
  refine ⟨index, mem_indexes.mp (by rw [hsplit]; simp), hindex, fun before hx hlt => ?_⟩
  have hmem := mem_indexes.mpr hx
  rw [hsplit, List.mem_append, List.mem_cons] at hmem
  rcases hmem with hmem | rfl | hmem
  · exact hearlier before hmem
  · exact absurd hlt (List.lt_irrefl before)
  · exact absurd (hsorted.2.1.1 before hmem) (List.lt_asymm hlt)

/-- Reading all items of a built layout with items, by a slice or by the walk, agrees with reading
them one by one: it succeeds just if every item can be read, and gives their bytes in row-major
order, of the layout's length. If it fails on the walk, it does so as the first item in row-major
order that cannot be read. -/
theorem gather_agrees_with_items {r : LayoutRecipe} (hl : r.build = .ok l) (hz : 0 ∉ l.shape)
    (hr : (region.length : Int) ≤ maxSigned) :
    ((∃ bs, gather l region = .ok bs) ↔
        ∀ index, InShape index l.shape → ∃ item, readItem l region index = .ok item) ∧
      (∀ bs, gather l region = .ok bs → bs.length = l.length ∧
        ∃ items, bs = items.flatten ∧
          List.Forall₂ (fun index item => readItem l region index = .ok item) (indexes l.shape)
            items) ∧
      (l.isRowContiguous = false → ∀ e, gather l region = .error e →
        ∃ index, InShape index l.shape ∧ readItem l region index = .error e ∧
          ∀ before, InShape before l.shape → before < index →
            ∃ item, readItem l region before = .ok item) := by
  have hs := r.sound hl
  refine ⟨?_, fun bs h => ?_, fun hc e h => ?_⟩
  · simp only [gather_eq_ok_iff hs hz hr, exists_itemwise_eq_ok_iff, mem_indexes]
  · rw [gather_eq_ok_iff hs hz hr, itemwise] at h
    cases hm : (indexes l.shape).mapM (readItem l region) with
    | error e => rw [hm] at h; cases h
    | ok items =>
      rw [hm] at h
      cases h
      have hitems := mapM_eq_ok_iff.mp hm
      refine ⟨?_, items, rfl, hitems⟩
      rw [length_flatten_items hitems, length_indexes, hs.length_eq]
  · rw [gather, if_neg (by simp [hc]), walk_eq_itemwise hs.strides_length hz] at h
    exact exists_first_of_itemwise_eq_error h

/-- The rows of a matrix taken from the last to the first, behind a byte that is left out. -/
theorem gather_agrees_with_items_backwards :
    ∃ l, (LayoutRecipe.moved (.parts ⟨4, true, 1, "B", [2, 2], some [-2, 1], [], 2⟩) 3).build =
        .ok l ∧ 0 ∉ l.shape ∧ l.isRowContiguous = false ∧
      ((∃ bs, gather l [9, 1, 2, 3, 4] = .ok bs) ↔ ∀ index, InShape index l.shape →
        ∃ item, readItem l [9, 1, 2, 3, 4] index = .ok item) :=
  have hl : (LayoutRecipe.moved (.parts ⟨4, true, 1, "B", [2, 2], some [-2, 1], [], 2⟩) 3).build =
      .ok (Layout.withByteOffset ⟨4, 1, .uint8, "B", [2, 2], [-2, 1], [], true, 2⟩ 3) := by decide
  ⟨_, hl, by decide, by decide, (gather_agrees_with_items hl (by decide) (by decide)).1⟩

end Region
end StridedViews
