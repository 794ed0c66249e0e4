import StridedViews.Proofs.Layout.Extent
import StridedViews.Proofs.Layout.Tiles
import StridedViews.Proofs.Storage.Windows
import StridedViews.Proofs.View.Gather

/-!
Writing one item of a direct layout is exact (`Region.writeItem_exact`). Only the bytes of that item
change; it is read back as it was written, and every item that lies apart from it as before. Where no
two items overlap, all items together change in one slot, the one of the item's row-major rank, in
whatever order the layout stores them.
-/

namespace StridedViews

section Runs

variable {α : Type} {new : List α} {k n : Nat}

theorem splice_append (xs ys : List α) (k : Nat) (new : List α) :
    splice (xs ++ ys) (xs.length + k) new = xs ++ splice ys k new := by
  rw [splice, splice, List.take_length_add_append, Nat.add_assoc, List.drop_length_add_append]
  simp only [List.append_assoc]

/-- Replacing one of several runs of equal length replaces its slot in all of them together. -/
theorem flatten_set {runs : List (List α)} (hruns : ∀ run ∈ runs, run.length = n)
    (hnew : new.length = n) (hk : k < runs.length) :
    (runs.set k new).flatten = splice runs.flatten (n * k) new := by
  induction runs generalizing k with
  | nil => cases hk
  | cons run runs ih =>
    rw [List.forall_mem_cons] at hruns
    rw [List.flatten_cons]
    cases k with
    | zero =>
      rw [List.set_cons_zero, List.flatten_cons, Nat.mul_zero, splice, List.take_zero,
        List.nil_append, Nat.zero_add, List.drop_left' (hruns.1.trans hnew.symm)]
    | succ k =>
      rw [List.set_cons_succ, List.flatten_cons, ih hruns.2 (Nat.lt_of_succ_lt_succ hk),
        Nat.mul_succ, Nat.add_comm, ← hruns.1, splice_append]

end Runs

section Traversal

variable {ε α β : Type} {f g : α → Except ε β} {xs : List α}

theorem mapM_congr (h : ∀ x ∈ xs, f x = g x) : xs.mapM f = xs.mapM g := by
  induction xs with
  | nil => rfl
  | cons x xs ih =>
    rw [List.forall_mem_cons] at h
    rw [List.mapM_cons, List.mapM_cons, h.1, ih h.2]

/-- If a function differs from another at one member of a list only, where both succeed, then the
traversals differ in the result of that member only. -/
theorem mapM_eq_set (hxs : xs.Nodup) {k : Nat} {x : α} {y : β} (hk : xs[k]? = some x)
    (hf : ∃ y', f x = .ok y') (hg : g x = .ok y) (hrest : ∀ z ∈ xs, z ≠ x → g z = f z) :
    xs.mapM g = (xs.mapM f).map (·.set k y) := by
  induction xs generalizing k with
  | nil => cases hk
  | cons a xs ih =>
    obtain ⟨ha, hxs⟩ := List.nodup_cons.mp hxs
    rw [List.forall_mem_cons] at hrest
    rw [List.mapM_cons, List.mapM_cons]
    cases k with
    | zero =>
      -- the member does not return behind its place, so that the rest is traversed alike
      obtain rfl : a = x := Option.some.inj hk
      obtain ⟨y', hf⟩ := hf
      have hsame : xs.mapM g = xs.mapM f :=
        mapM_congr fun z hz => hrest.2 z hz (by rintro rfl; exact ha hz)
      rw [hg, hf, hsame]
      cases xs.mapM f <;> rfl
    | succ k =>
      have hne : a ≠ x := by
        rintro rfl
        exact ha (List.mem_of_getElem? hk)
      rw [hrest.1 hne, ih hxs hk hrest.2]
      cases f a with
      | error e => rfl
      | ok b => cases xs.mapM f <;> rfl

end Traversal

namespace Region

variable {l : Layout} {region new item : List UInt8} {index other : List Nat} {o : Nat}

/-! ### One range -/

/-- Reading a range depends on the length of the region and on the bytes of the range only. -/
theorem bytesAt_congr {region' : List UInt8} (hlength : region'.length = region.length)
    {offset : Int} {n : Nat}
    (h : 0 ≤ offset → window region' offset.toNat n = window region offset.toNat n) :
    bytesAt region' offset n = bytesAt region offset n := by
  rw [bytesAt, bytesAt, span, span, hlength]
  split
  · next hin => exact congrArg Except.ok (h hin.1)
  · rfl

theorem bytesAt_splice_self (h : o + item.length ≤ region.length) :
    bytesAt (splice region o item) o item.length = .ok item := by
  have hwindow := window_splice_self h
  rw [bytesAt_eq_ok_iff, length_splice (by omega), Int.toNat_natCast]
  exact ⟨⟨Int.natCast_nonneg _, by omega⟩, hwindow.symm⟩

theorem bytesAt_splice_of_apart {offset : Int} {n : Nat} (h : o + item.length ≤ region.length)
    (hoffset : offset + n ≤ o ∨ o + item.length ≤ offset) :
    bytesAt (splice region o item) offset n = bytesAt region offset n :=
  bytesAt_congr (length_splice (by omega)) fun _ => window_splice_of_apart h (by omega)

/-- A range around the new bytes is read with them in it, or cannot be read as before. -/
theorem bytesAt_splice {start k n : Nat} (hitem : k + item.length ≤ n)
    (h : start + k + item.length ≤ region.length) :
    bytesAt (splice region (start + k) item) start n =
      (bytesAt region start n).map (splice · k item) := by
  rw [bytesAt, bytesAt, span, span, length_splice (by omega)]
  split
  · next hin => exact congrArg Except.ok (window_splice hitem (by omega))
  · rfl

/-! ### One item -/

/-- A write that succeeds replaces the bytes of the item at its index. -/
theorem writeItem_eq_ok (hs : l.Sound) (hd : l.isIndirect = false) (hx : InShape index l.shape)
    (h : writeItem l region index item = .ok new) :
    item.length = l.itemSize ∧ ∃ o : Nat, l.place index = o ∧
      l.itemOffset (resolver region) index = .ok (o : Int) ∧ o + l.itemSize ≤ region.length ∧
      new = splice region o item := by
  rw [writeItem] at h
  split at h
  · cases h
  · next hitem =>
    obtain ⟨start, hstart, heq⟩ := bind_eq_ok_iff.mp h
    obtain ⟨offset, hoffset, hspan⟩ := bind_eq_ok_iff.mp hstart
    have hplace := Layout.itemOffset_exact hs.strides_length hd _ hx hoffset
    rw [span] at hspan
    split at hspan
    · next hin =>
      cases hspan
      cases heq
      lift offset to Nat using hin.1
      exact ⟨not_not.mp hitem, offset, hplace.symm, hoffset, by omega, by rw [Int.toNat_natCast]⟩
    · cases hspan

/-- A direct layout has the same offsets in every region. -/
theorem itemOffset_region (hd : l.isIndirect = false) (region region' : List UInt8)
    (index : List Nat) :
    l.itemOffset (resolver region') index = l.itemOffset (resolver region) index :=
  Layout.itemOffset_congr hd (by rfl) index

theorem readItem_eq_bytesAt (hd : l.isIndirect = false) (region' : List UInt8) {offset : Int}
    (h : l.itemOffset (resolver region) index = .ok offset) :
    readItem l region' index = bytesAt region' offset l.itemSize := by
  rw [readItem, itemOffset_region hd region, h]
  rfl

/-- What is written at an index is read there. -/
theorem readItem_splice_self (hd : l.isIndirect = false) (hitem : item.length = l.itemSize)
    (hoffset : l.itemOffset (resolver region) index = .ok (o : Int))
    (hin : o + l.itemSize ≤ region.length) :
    readItem l (splice region o item) index = .ok item := by
  rw [readItem_eq_bytesAt hd _ hoffset, ← hitem, bytesAt_splice_self (by omega)]

/-- What lies apart from the new bytes is read as before, or cannot be read as before. -/
theorem readItem_splice_of_apart (hs : l.Sound) (hd : l.isIndirect = false)
    (hx : InShape other l.shape) (hitem : item.length = l.itemSize) (hplace : l.place index = o)
    (hin : o + l.itemSize ≤ region.length) (h : l.Apart index other) :
    readItem l (splice region o item) other = readItem l region other := by
  rw [Layout.Apart, hplace] at h
  cases hoffset : l.itemOffset (resolver region) other with
  | ok offset =>
    obtain rfl := Layout.itemOffset_exact hs.strides_length hd _ hx hoffset
    rw [readItem_eq_bytesAt hd _ hoffset, readItem_eq_bytesAt hd _ hoffset]
    exact bytesAt_splice_of_apart (by omega) (by omega)
  | error e =>
    rw [readItem, readItem, itemOffset_region hd region, hoffset]
    rfl

/-! ### All items -/

theorem length_of_mem_items {xs : List (List Nat)} {items : List (List UInt8)}
    (h : List.Forall₂ (fun index item => readItem l region index = .ok item) xs items) :
    ∀ item ∈ items, item.length = l.itemSize := by
  induction h with
  | nil => simp
  | cons hx _ ih => exact List.forall_mem_cons.mpr ⟨length_item hx, ih⟩

/-- The slot of an item lies inside the image of all items. -/
theorem slot_le (hs : l.Sound) (hx : InShape index l.shape) :
    l.itemSize * rowRank l.shape index + l.itemSize ≤ l.length := by
  rw [hs.length_eq, ← Nat.mul_succ]
  exact Nat.mul_le_mul_left _ (rowRank_lt hx)

/-- Reading one by one differs in the written item only. -/
theorem itemwise_splice (hs : l.Sound) (hd : l.isIndirect = false) (hx : InShape index l.shape)
    (hitem : item.length = l.itemSize) (hplace : l.place index = o)
    (hoffset : l.itemOffset (resolver region) index = .ok (o : Int))
    (hin : o + l.itemSize ≤ region.length) (hapart : l.ItemsApart) :
    itemwise l (splice region o item) =
      (itemwise l region).map (splice · (l.itemSize * rowRank l.shape index) item) := by
  have hitems : (indexes l.shape).mapM (readItem l (splice region o item)) =
      ((indexes l.shape).mapM (readItem l region)).map (·.set (rowRank l.shape index) item) := by
    refine mapM_eq_set (nodup_indexes l.shape) (getElem?_rowRank hx) ?_
      (readItem_splice_self hd hitem hoffset hin) fun other hother hne => ?_
    · rw [readItem_eq_bytesAt hd _ hoffset]
      exact ⟨_, bytesAt_eq_ok_iff.mpr ⟨⟨Int.natCast_nonneg _, by omega⟩, rfl⟩⟩
    · have hother := mem_indexes.mp hother
      exact readItem_splice_of_apart hs hd hother hitem hplace hin
        (hapart index other hx hother (Ne.symm hne))
  rw [itemwise, itemwise, hitems]
  cases hm : (indexes l.shape).mapM (readItem l region) with
  | error e => rfl
  | ok items =>
    have hread := mapM_eq_ok_iff.mp hm
    have hk : rowRank l.shape index < items.length := by
      rw [← hread.length_eq, length_indexes]
      exact rowRank_lt hx
    exact congrArg Except.ok (flatten_set (length_of_mem_items hread) hitem hk)

/-- The slice of a contiguous layout differs in the written item only. -/
theorem gather_splice_of_isRowContiguous (hs : l.Sound) (hc : l.isRowContiguous = true)
    (hx : InShape index l.shape) (hitem : item.length = l.itemSize) (hplace : l.place index = o)
    (hin : o + l.itemSize ≤ region.length) :
    gather l (splice region o item) =
      (gather l region).map (splice · (l.itemSize * rowRank l.shape index) item) := by
  have hslot := slot_le hs hx
  rw [Layout.place_of_isRowContiguous hs.strides_length hc hx.zero_notMem hx] at hplace
  obtain rfl := Int.ofNat_inj.mp hplace
  rw [gather, gather, if_pos hc, if_pos hc]
  cases hstart : l.start.mapError ViewError.layout with
  | error e => rfl
  | ok start =>
    obtain ⟨rfl, -⟩ := Layout.start_eq_ok_iff.mp (mapError_eq_ok_iff.mp hstart)
    exact bytesAt_splice (by omega) (by omega)

theorem gather_splice (hs : l.Sound) (hd : l.isIndirect = false) (hx : InShape index l.shape)
    (hitem : item.length = l.itemSize) (hplace : l.place index = o)
    (hoffset : l.itemOffset (resolver region) index = .ok (o : Int))
    (hin : o + l.itemSize ≤ region.length) (hapart : l.ItemsApart) :
    gather l (splice region o item) =
      (gather l region).map (splice · (l.itemSize * rowRank l.shape index) item) := by
  by_cases hc : l.isRowContiguous = true
  · exact gather_splice_of_isRowContiguous hs hc hx hitem hplace hin
  · rw [gather, gather, if_neg hc, if_neg hc, walk_eq_itemwise hs.strides_length hx.zero_notMem,
      walk_eq_itemwise hs.strides_length hx.zero_notMem]
    exact itemwise_splice hs hd hx hitem hplace hoffset hin hapart

/-- Writing an item of a built direct layout is exact. The region keeps its length, has the new
bytes at the offset of the index and its old ones everywhere else. So the new bytes are read at that
index, and every item that lies apart is read as before. Where no two items overlap, as in a
contiguous layout of either order, all items together differ in the slot of that index only. -/
theorem writeItem_exact {r : LayoutRecipe} (hl : r.build = .ok l) (hd : l.isIndirect = false)
    (hx : InShape index l.shape) (h : writeItem l region index item = .ok new) :
    ∃ o : Nat, l.itemOffset (resolver region) index = .ok (o : Int) ∧ l.place index = o ∧
      o + l.itemSize ≤ region.length ∧ new.length = region.length ∧
      (∀ k, new[k]? = if o ≤ k ∧ k < o + l.itemSize then item[k - o]? else region[k]?) ∧
      readItem l new index = .ok item ∧
      (∀ other, InShape other l.shape → l.Apart index other →
        readItem l new other = readItem l region other) ∧
      (l.ItemsApart → l.itemSize * rowRank l.shape index + l.itemSize ≤ l.length ∧
        gather l new =
          (gather l region).map (splice · (l.itemSize * rowRank l.shape index) item)) ∧
      (l.isRowContiguous = true ∨ l.isColumnContiguous = true → l.ItemsApart) := by
  have hs := r.sound hl
  obtain ⟨hitem, o, hplace, hoffset, hin, rfl⟩ := writeItem_eq_ok hs hd hx h
  refine ⟨o, hoffset, hplace, hin, length_splice (by omega), fun k => ?_,
    readItem_splice_self hd hitem hoffset hin,
    fun other hother => readItem_splice_of_apart hs hd hother hitem hplace hin,
    fun hapart => ⟨slot_le hs hx, gather_splice hs hd hx hitem hplace hoffset hin hapart⟩, ?_⟩
  · rw [getElem?_splice (by omega), hitem]
  · rintro (hc | hc)
    · exact Layout.itemsApart_of_isRowContiguous hs.strides_length hc
    · exact Layout.itemsApart_of_isColumnContiguous hs.strides_length hc

/-- A matrix stored column by column, behind a byte that is left out: the last item of the first row
is the fifth one stored and the third one read. -/
theorem writeItem_exact_columnMajor :
    ∃ l, (LayoutRecipe.moved (.parts ⟨6, false, 1, "B", [2, 3], some [1, 2], [], 0⟩) 1).build =
        .ok l ∧ l.isIndirect = false ∧ InShape [0, 2] l.shape ∧
      writeItem l [0, 1, 2, 3, 4, 5, 6] [0, 2] [9] = .ok [0, 1, 2, 3, 4, 9, 6] ∧
      gather l [0, 1, 2, 3, 4, 9, 6] =
        (gather l [0, 1, 2, 3, 4, 5, 6]).map (splice · 2 [9]) := by
  have hl : (LayoutRecipe.moved (.parts ⟨6, false, 1, "B", [2, 3], some [1, 2], [], 0⟩) 1).build =
      .ok (Layout.withByteOffset ⟨6, 1, .uint8, "B", [2, 3], [1, 2], [], false, 0⟩ 1) := by decide
  have hx : InShape [0, 2] [2, 3] := by simp [InShape]
  have hwrite : writeItem (Layout.withByteOffset ⟨6, 1, .uint8, "B", [2, 3], [1, 2], [], false, 0⟩ 1)
      [0, 1, 2, 3, 4, 5, 6] [0, 2] [9] = .ok [0, 1, 2, 3, 4, 9, 6] := by decide
  obtain ⟨_, -, -, -, -, -, -, -, hgather, hapart⟩ := writeItem_exact hl rfl hx hwrite
  exact ⟨_, hl, rfl, hx, hwrite, (hgather (hapart (.inr (by decide)))).2⟩

end Region
end StridedViews
