import StridedViews.Proofs.Layout.Recipe

/-!
The walk over all items visits the index space. For a layout without empty axes it does, index by
index in row-major order, what computing the offset of the index alone and visiting it there does
(`visitItems_eq_forM`). A run over a list ends well exactly if every step of it does, and otherwise
with the failure of one step, before which all went well (`Visit.run_forM_eq_error_iff`); so a walk
visits every index once, or stops at the first that fails (`visitItems_enumerates`).
-/

namespace StridedViews

variable {ε σ α β : Type}

theorem forM_congr {f g : α → Visit ε σ Unit} {xs : List α} (h : ∀ x ∈ xs, f x = g x) :
    forM xs f = forM xs g := by
  induction xs with
  | nil => rfl
  | cons x xs ih =>
    rw [List.forM_cons, List.forM_cons, h x (List.mem_cons_self ..),
      ih fun y hy => h y (List.mem_cons_of_mem _ hy)]

theorem forM_flatMap (f : β → Visit ε σ Unit) (g : α → List β) (xs : List α) :
    forM (xs.flatMap g) f = forM xs fun x => forM (g x) f := by
  induction xs with
  | nil => rfl
  | cons x xs ih => rw [List.flatMap_cons, List.forM_append, List.forM_cons, ih]

/-- Counting from `first` is going through the numbers from `first` on. -/
theorem visitRange_eq_forM (act : Nat → Visit ε σ Unit) (first count : Nat) :
    visitRange act first count = forM (List.range' first count) act := by
  induction count generalizing first with
  | zero => rfl
  | succ count ih => rw [visitRange, List.range'_succ, List.forM_cons, ih]

theorem Visit.ofExcept_ok_bind (a : α) (f : α → Visit ε σ β) :
    Visit.ofExcept (.ok a) >>= f = f a := rfl

/-- A computation goes on from the state that its first part leaves, or fails with it. -/
theorem Visit.run_bind (x : Visit ε σ α) (f : α → Visit ε σ β) (s : σ) :
    (x >>= f).run.run s =
      match x.run.run s with
      | (.ok a, s) => (f a).run.run s
      | (.error e, s) => (.error e, s) := by
  rw [ExceptT.run_bind, StateT.run_bind]
  cases h : x.run.run s with
  | mk result s' => cases result <;> simp <;> rfl

namespace Visit

variable {s s' : σ} {e : ε}

theorem run_bind_eq_ok_iff {x : Visit ε σ α} {f : α → Visit ε σ β} {b : β} :
    (x >>= f).run.run s = (.ok b, s') ↔
      ∃ a s₁, x.run.run s = (.ok a, s₁) ∧ (f a).run.run s₁ = (.ok b, s') :=
  StridedViews.run_bind_eq_ok_iff

theorem run_bind_eq_error_iff {x : Visit ε σ α} {f : α → Visit ε σ β} :
    (x >>= f).run.run s = (.error e, s') ↔
      x.run.run s = (.error e, s') ∨
        ∃ a s₁, x.run.run s = (.ok a, s₁) ∧ (f a).run.run s₁ = (.error e, s') := by
  rw [run_bind]
  rcases x.run.run s with ⟨_ | a, s₁⟩
  · constructor
    · rintro ⟨⟩
      exact .inl rfl
    · rintro (h | ⟨_, _, h, _⟩)
      · cases h
        rfl
      · cases h
  · constructor
    · intro h
      exact .inr ⟨a, s₁, rfl, h⟩
    · rintro (h | ⟨_, _, h, hf⟩)
      · cases h
      · cases h
        exact hf

/-- A step that starts from a pure computation succeeds from the value of it. -/
theorem run_ofExcept_bind_eq_ok_iff {x : Except ε α} {f : α → Visit ε σ β} {b : β} :
    (Visit.ofExcept x >>= f).run.run s = (.ok b, s') ↔
      ∃ a, x = .ok a ∧ (f a).run.run s = (.ok b, s') := by
  rw [run_bind_eq_ok_iff]
  constructor
  · rintro ⟨a, _, ⟨⟩, h⟩
    exact ⟨a, rfl, h⟩
  · rintro ⟨a, rfl, h⟩
    exact ⟨a, s, rfl, h⟩

/-- A step that starts from a pure computation fails with it and leaves the state, or after it. -/
theorem run_ofExcept_bind_eq_error_iff {x : Except ε α} {f : α → Visit ε σ β} :
    (Visit.ofExcept x >>= f).run.run s = (.error e, s') ↔
      (x = .error e ∧ s' = s) ∨ ∃ a, x = .ok a ∧ (f a).run.run s = (.error e, s') := by
  rw [run_bind_eq_error_iff]
  constructor
  · rintro (h | ⟨a, _, h, hf⟩)
    · cases h
      exact .inl ⟨rfl, rfl⟩
    · cases h
      exact .inr ⟨a, rfl, hf⟩
  · rintro (⟨rfl, hs⟩ | ⟨a, rfl, h⟩)
    · exact .inl (hs ▸ rfl)
    · exact .inr ⟨a, s, rfl, h⟩

/-- A run over a list fails exactly as one step of it does, after the steps before that one have
succeeded; the steps behind it are not run. -/
theorem run_forM_eq_error_iff {f : α → Visit ε σ Unit} {xs : List α} :
    (forM xs f).run.run s = (.error e, s') ↔
      ∃ before x after s₁, xs = before ++ x :: after ∧
        (forM before f).run.run s = (.ok (), s₁) ∧ (f x).run.run s₁ = (.error e, s') := by
  induction xs generalizing s with
  | nil =>
    constructor
    · intro h
      cases h
    · rintro ⟨before, x, after, _, h, -⟩
      cases before <;> cases h
  | cons y ys ih =>
    -- the step that fails is the first one, or one of the run that starts where the first one ends
    rw [List.forM_cons, run_bind_eq_error_iff]
    constructor
    · rintro (hfail | ⟨_, s₁, hy, hrest⟩)
      · exact ⟨[], y, ys, s, rfl, rfl, hfail⟩
      · obtain ⟨before, x, after, s₂, rfl, hbefore, hx⟩ := ih.mp hrest
        refine ⟨y :: before, x, after, s₂, rfl, ?_, hx⟩
        rw [List.forM_cons, run_bind_eq_ok_iff]
        exact ⟨(), s₁, hy, hbefore⟩
    · rintro ⟨before, x, after, s₂, hsplit, hbefore, hx⟩
      rcases List.cons_eq_append_iff.mp hsplit with ⟨rfl, hhead⟩ | ⟨before, rfl, rfl⟩
      · cases hhead
        cases hbefore
        exact .inl hx
      · rw [List.forM_cons, run_bind_eq_ok_iff] at hbefore
        obtain ⟨_, s₁, hy, hbefore⟩ := hbefore
        exact .inr ⟨(), s₁, hy, ih.mpr ⟨before, x, after, s₂, rfl, hbefore, hx⟩⟩

/-- Steps that each start from a pure computation all succeed if the computations do and the rest
of the steps do, run over their values. -/
theorem run_forM_ofExcept_eq_ok_iff {g : α → Except ε β} {f : β → Visit ε σ Unit} {xs : List α} :
    (forM xs fun x => Visit.ofExcept (g x) >>= f).run.run s = (.ok (), s') ↔
      ∃ ys, List.Forall₂ (fun x y => g x = .ok y) xs ys ∧
        (forM ys f).run.run s = (.ok (), s') := by
  induction xs generalizing s with
  | nil => simp
  | cons x xs ih =>
    rw [List.forM_cons, run_bind_eq_ok_iff]
    constructor
    · rintro ⟨_, s₁, hx, hrest⟩
      obtain ⟨y, hy, hvisit⟩ := run_ofExcept_bind_eq_ok_iff.mp hx
      obtain ⟨ys, hys, hvisits⟩ := ih.mp hrest
      refine ⟨y :: ys, .cons hy hys, ?_⟩
      rw [List.forM_cons, run_bind_eq_ok_iff]
      exact ⟨(), s₁, hvisit, hvisits⟩
    · rintro ⟨_, hys, hvisits⟩
      cases hys with
      | cons hy hys =>
        rw [List.forM_cons, run_bind_eq_ok_iff] at hvisits
        obtain ⟨_, s₁, hvisit, hvisits⟩ := hvisits
        exact ⟨(), s₁, run_ofExcept_bind_eq_ok_iff.mpr ⟨_, hy, hvisit⟩, ih.mpr ⟨_, hys, hvisits⟩⟩

end Visit

/-- The offset of every index along some axes, visited in row-major order. -/
def Resolver.visitIndexes (r : Resolver ε) (visit : Int → Visit ε σ Unit) (dimension : Nat)
    (axes : List Axis) (offset : Int) : Visit ε σ Unit :=
  forM (indexes (axes.map Axis.length)) fun index =>
    Visit.ofExcept (r.offsetFrom dimension axes index offset) >>= visit

/-- The indexes with entry `i` along the first axis: if that entry is not found, the first of them
fails as the entry does. -/
theorem forM_enter (r : Resolver ε) (visit : Int → Visit ε σ Unit) (dimension : Nat) {a : Axis}
    {axes : List Axis} (hz : 0 ∉ axes.map Axis.length) (offset : Int) {i : Nat}
    (hi : i < a.length) :
    (forM ((indexes (axes.map Axis.length)).map (i :: ·)) fun index =>
        Visit.ofExcept (r.offsetFrom dimension (a :: axes) index offset) >>= visit) =
      Visit.ofExcept (r.enter a offset i) >>= r.visitIndexes visit (dimension + 1) axes := by
  rw [List.forM_map]
  cases he : r.enter a offset i with
  | ok place =>
    rw [Visit.ofExcept_ok_bind]
    refine forM_congr ?_
    intro index _
    rw [Resolver.offsetFrom, if_pos hi, he]
    rfl
  | error e =>
    obtain ⟨index, rest, hx⟩ := List.exists_cons_of_ne_nil (indexes_ne_nil hz)
    rw [hx, List.forM_cons, Resolver.offsetFrom, if_pos hi, he]
    rfl

/-- The recursive walk along some axes visits their indexes in row-major order. -/
theorem visitFrom_eq_visitIndexes (r : Resolver ε) (visit : Int → Visit ε σ Unit)
    {axes : List Axis} (hz : 0 ∉ axes.map Axis.length) (dimension : Nat) (offset : Int) :
    visitFrom r visit axes offset = r.visitIndexes visit dimension axes offset := by
  induction axes generalizing dimension offset with
  | nil => exact (bind_pure_unit (x := visit offset)).symm
  | cons a axes ih =>
    obtain ⟨-, hz⟩ := zero_notMem_cons.mp hz
    rw [visitFrom, visitRange_eq_forM, ← List.range_eq_range', Resolver.visitIndexes,
      List.map_cons, indexes, forM_flatMap]
    refine forM_congr ?_
    intro i hi
    rw [forM_enter r visit dimension hz offset (List.mem_range.mp hi)]
    congr 1
    funext place
    exact ih hz (dimension + 1) place

/-- The walk over a layout without empty axes visits the offset of every index in row-major
order. -/
theorem Layout.visitItems_eq_forM {l : Layout} (hs : l.strides.length = l.shape.length)
    (hz : 0 ∉ l.shape) (r : Resolver ε) (visit : Int → Visit ε σ Unit) :
    l.visitItems r visit =
      forM (indexes l.shape) fun index => Visit.ofExcept (l.itemOffset r index) >>= visit := by
  have hshape : l.axes.map Axis.length = l.shape := map_length_axesOf l.suboffsets hs
  unfold Layout.visitItems
  cases hstart : r.lift l.start with
  | ok start =>
    rw [Visit.ofExcept_ok_bind, visitFrom_eq_visitIndexes r visit (hshape ▸ hz) 0,
      Resolver.visitIndexes, hshape]
    refine forM_congr ?_
    intro index hx
    rw [Layout.itemOffset_of_inShape r (mem_indexes.mp hx), hstart]
    rfl
  | error e =>
    obtain ⟨index, rest, hx⟩ := List.exists_cons_of_ne_nil (indexes_ne_nil hz)
    have hmem : index ∈ indexes l.shape := hx ▸ List.mem_cons_self ..
    rw [hx, List.forM_cons, Layout.itemOffset_of_inShape r (mem_indexes.mp hmem), hstart]
    rfl

/-- The walk over a built layout without empty axes enumerates its index space. It has the indexes
of the shape in row-major order, each once and as many as the layout counts items. It succeeds
exactly if the offset of each is found and the visitor succeeds on these offsets in turn; and it
fails exactly as the first index does whose offset is not found or where the visitor fails, in the
state that the visits before it have left. -/
theorem Layout.visitItems_enumerates {recipe : LayoutRecipe} {l : Layout}
    (hl : recipe.build = .ok l) (hw : recipe.InWords) (hz : 0 ∉ l.shape) {ε σ : Type}
    (r : Resolver ε) (visit : Int → Visit ε σ Unit) (s : σ) :
    ((indexes l.shape).Pairwise (· < ·) ∧
        (∀ index, index ∈ indexes l.shape ↔ InShape index l.shape) ∧
        (indexes l.shape).length = l.itemCount) ∧
      (∀ s', (l.visitItems r visit).run.run s = (.ok (), s') ↔
        ∃ offsets,
          List.Forall₂ (fun index offset => l.itemOffset r index = .ok offset)
            (indexes l.shape) offsets ∧
          (forM offsets visit).run.run s = (.ok (), s')) ∧
      ∀ e s', (l.visitItems r visit).run.run s = (.error e, s') ↔
        ∃ before index after offsets s₁,
          indexes l.shape = before ++ index :: after ∧
          List.Forall₂ (fun index offset => l.itemOffset r index = .ok offset) before offsets ∧
          (forM offsets visit).run.run s = (.ok (), s₁) ∧
          (l.itemOffset r index = .error e ∧ s' = s₁ ∨
            ∃ offset, l.itemOffset r index = .ok offset ∧
              (visit offset).run.run s₁ = (.error e, s')) := by
  have hs := LayoutRecipe.sound hl
  have hcount := hs.itemCount_eq (recipe.length_lt hw hl)
  refine ⟨⟨pairwise_indexes _, fun _ => mem_indexes, ?_⟩, fun s' => ?_, fun e s' => ?_⟩
  · rw [length_indexes, hcount]
  · rw [visitItems_eq_forM hs.strides_length hz, Visit.run_forM_ofExcept_eq_ok_iff]
  · rw [visitItems_eq_forM hs.strides_length hz, Visit.run_forM_eq_error_iff]
    simp only [Visit.run_forM_ofExcept_eq_ok_iff, Visit.run_ofExcept_bind_eq_error_iff]
    constructor
    · rintro ⟨before, index, after, s₁, hsplit, ⟨offsets, hfound, hvisits⟩, hfail⟩
      exact ⟨before, index, after, offsets, s₁, hsplit, hfound, hvisits, hfail⟩
    · rintro ⟨before, index, after, offsets, s₁, hsplit, hfound, hvisits, hfail⟩
      exact ⟨before, index, after, s₁, hsplit, ⟨offsets, hfound, hvisits⟩, hfail⟩

/-- Two rows behind pointers, of which only the first can be followed: the walk visits the items of
that row and ends with the failure of the second pointer. -/
theorem Layout.visitItems_enumerates_secondRowUnfound :
    ∃ l, (LayoutRecipe.parts ⟨4, true, 1, "B", [2, 2], some [8, 1], [0, -1], 0⟩).build = .ok l ∧
      0 ∉ l.shape ∧ l.isIndirect = true ∧
      (l.visitItems
          ⟨some, fun place => if place = 0 then .ok 100 else .error none⟩
          (fun offset => (modify (offset :: ·) : Visit (Option LayoutError) (List Int) Unit))
          ).run.run [] = (.error none, [101, 100]) := by
  have hl : (LayoutRecipe.parts ⟨4, true, 1, "B", [2, 2], some [8, 1], [0, -1], 0⟩).build =
      .ok ⟨4, 1, .uint8, "B", [2, 2], [8, 1], [0, -1], true, 0⟩ := by decide
  have hw : (LayoutRecipe.parts ⟨4, true, 1, "B", [2, 2], some [8, 1], [0, -1], 0⟩).InWords := by
    unfold LayoutRecipe.InWords
    decide
  have hwalk := visitItems_enumerates hl hw (by decide)
    ⟨some, fun place => if place = 0 then .ok 100 else .error none⟩
    (fun offset => (modify (offset :: ·) : Visit (Option LayoutError) (List Int) Unit)) []
  refine ⟨_, hl, by decide, by decide, (hwalk.2.2 _ _).mpr ?_⟩
  refine ⟨[[0, 0], [0, 1]], [1, 0], [[1, 1]], [100, 101], [101, 100], rfl, ?_, rfl, .inl ⟨rfl, rfl⟩⟩
  exact .cons rfl (.cons rfl .nil)

end StridedViews
