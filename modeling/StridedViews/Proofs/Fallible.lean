import Mathlib.Data.List.Forall2

/-!
Computations that may fail. A sequence of two succeeds just if both do, and a traversal of a list just
if all its members do one by one; otherwise it fails as the first of them that fails. A computation
that keeps a state, too, goes on from the state of its first part, or fails with it.
-/

namespace StridedViews

theorem bind_eq_ok_iff {ε α β : Type} {x : Except ε α} {f : α → Except ε β} {b : β} :
    x >>= f = .ok b ↔ ∃ a, x = .ok a ∧ f a = .ok b := by
  cases x <;> simp [bind, Except.bind]

theorem bind_of_ok {ε α β : Type} {x : Except ε α} {f : α → Except ε β} {a : α} (h : x = .ok a) :
    x >>= f = f a := by
  rw [h]
  rfl

theorem bind_of_error {ε α β : Type} {x : Except ε α} {f : α → Except ε β} {e : ε} (h : x = .error e) :
    x >>= f = .error e := by
  rw [h]
  rfl

theorem mapError_eq_ok_iff {ε ε' α : Type} {x : Except ε α} {f : ε → ε'} {a : α} :
    x.mapError f = .ok a ↔ x = .ok a := by
  cases x <;> simp [Except.mapError]

theorem mapError_of_error {ε ε' α : Type} {x : Except ε α} {f : ε → ε'} {e : ε} (h : x = .error e) :
    x.mapError f = .error (f e) := by
  rw [h]
  rfl

/-! ### Traversals -/

section Traversal

variable {ε α β : Type} {f : α → Except ε β}

/-- A traversal succeeds with the results that its members have one by one. -/
theorem mapM_eq_ok_iff {xs : List α} {ys : List β} :
    xs.mapM f = .ok ys ↔ List.Forall₂ (fun x y => f x = .ok y) xs ys := by
  induction xs generalizing ys with
  | nil =>
    rw [List.forall₂_nil_left_iff]
    exact ⟨fun h => by cases h; rfl, fun h => by rw [h]; rfl⟩
  | cons x xs ih =>
    rw [List.mapM_cons, bind_eq_ok_iff, List.forall₂_cons_left_iff]
    constructor
    · rintro ⟨y, hy, h⟩
      obtain ⟨rest, hrest, h⟩ := bind_eq_ok_iff.mp h
      cases h
      exact ⟨y, rest, hy, ih.mp hrest, rfl⟩
    · rintro ⟨y, rest, hy, hrest, rfl⟩
      exact ⟨y, hy, bind_eq_ok_iff.mpr ⟨rest, ih.mpr hrest, rfl⟩⟩

/-- A traversal fails as the first of its members that fails. -/
theorem exists_first_of_mapM_eq_error {xs : List α} {e : ε} (h : xs.mapM f = .error e) :
    ∃ before x after, xs = before ++ x :: after ∧ (∀ a ∈ before, ∃ b, f a = .ok b) ∧
      f x = .error e := by
  induction xs with
  | nil => cases h
  | cons x xs ih =>
    rw [List.mapM_cons] at h
    cases hx : f x with
    | error e' =>
      rw [hx] at h
      cases h
      exact ⟨[], x, xs, rfl, by simp, hx⟩
    | ok y =>
      rw [hx] at h
      cases hxs : xs.mapM f with
      | ok ys => rw [hxs] at h; cases h
      | error e' =>
        rw [hxs] at h
        cases h
        obtain ⟨before, z, after, rfl, hbefore, hz⟩ := ih hxs
        refine ⟨x :: before, z, after, rfl, fun a ha => ?_, hz⟩
        rcases List.mem_cons.mp ha with rfl | ha
        · exact ⟨y, hx⟩
        · exact hbefore a ha

theorem exists_mapM_eq_ok_iff {xs : List α} :
    (∃ ys, xs.mapM f = .ok ys) ↔ ∀ x ∈ xs, ∃ y, f x = .ok y := by
  constructor
  · rintro ⟨ys, h⟩
    induction mapM_eq_ok_iff.mp h with
    | nil => simp
    | cons hx hrest ih =>
      exact List.forall_mem_cons.mpr ⟨⟨_, hx⟩, ih (mapM_eq_ok_iff.mpr hrest)⟩
  · intro h
    cases hm : xs.mapM f with
    | ok ys => exact ⟨ys, rfl⟩
    | error e =>
      obtain ⟨before, x, after, rfl, -, hx⟩ := exists_first_of_mapM_eq_error hm
      obtain ⟨y, hy⟩ := h x (by simp)
      rw [hx] at hy
      cases hy

end Traversal

/-! ### With a state -/

section State

variable {ε σ α β : Type} {x : ExceptT ε (StateM σ) α} {f : α → ExceptT ε (StateM σ) β} {s s' : σ}

/-- After a first part that succeeds, the second goes on from the state that it leaves. -/
theorem run_bind_of_ok {a : α} (h : x.run s = (.ok a, s')) : (x >>= f).run s = (f a).run s' := by
  have hrun : (x >>= f).run s = (ExceptT.bindCont f (x.run s).1).run (x.run s).2 := rfl
  rw [hrun, h]
  rfl

/-- A first part that fails ends it all, in the state that it leaves. -/
theorem run_bind_of_error {e : ε} (h : x.run s = (.error e, s')) :
    (x >>= f).run s = (.error e, s') := by
  have hrun : (x >>= f).run s = (ExceptT.bindCont f (x.run s).1).run (x.run s).2 := rfl
  rw [hrun, h]
  rfl

/-- A run of two parts passes if the first one passes and then the second one. -/
theorem run_bind_eq_ok_iff {b : β} :
    (x >>= f).run s = (.ok b, s') ↔ ∃ a s₁, x.run s = (.ok a, s₁) ∧ (f a).run s₁ = (.ok b, s') := by
  constructor
  · intro h
    rcases hx : x.run s with ⟨e | a, s₁⟩
    · rw [run_bind_of_error hx] at h
      cases h
    · rw [run_bind_of_ok hx] at h
      exact ⟨a, s₁, rfl, h⟩
  · rintro ⟨a, s₁, hx, h⟩
    rw [run_bind_of_ok hx, h]

end State

end StridedViews
