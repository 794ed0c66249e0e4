/-!
Lists that only ever grow at the front, with their members numbered by age: the first one made is
number 1 and keeps that number. A member can mention only members older than itself, so a function
that follows such mentions recurses on the list.
-/

namespace StridedViews.Numbered

variable {α : Type}

/-- The number that the next member gets. -/
def next (xs : List α) : Nat := xs.length + 1

/-- The member of a number. -/
def get? : List α → Nat → Option α
  | [], _ => none
  | x :: older, n => if n = next older then some x else get? older n

/-- Changes the member of a number. -/
def update (f : α → α) : List α → Nat → List α
  | [], _ => []
  | x :: older, n => if n = next older then f x :: older else x :: update f older n

@[simp] theorem length_update (f : α → α) (xs : List α) (n : Nat) :
    (update f xs n).length = xs.length := by
  induction xs with
  | nil => rfl
  | cons x older ih =>
    unfold update
    split <;> simp [ih]

/-- A new member has the next number. -/
theorem get?_cons_next (x : α) (xs : List α) : get? (x :: xs) (next xs) = some x := by
  simp [get?]

/-- Only members that were made have a number. -/
theorem get?_eq_none {xs : List α} {n : Nat} (h : xs.length < n) : get? xs n = none := by
  induction xs with
  | nil => rfl
  | cons x older ih =>
    simp only [List.length_cons] at h
    rw [get?, if_neg (by unfold next; omega), ih (by omega)]

theorem get?_isSome_iff {xs : List α} {n : Nat} : (get? xs n).isSome ↔ 0 < n ∧ n ≤ xs.length := by
  induction xs with
  | nil => simp [get?]; omega
  | cons x older ih =>
    rw [get?, List.length_cons]
    split
    · next hn => simp [hn, next]
    · next hn =>
      rw [ih]
      simp only [next] at hn
      omega

/-- What has a number is one of those that were made. -/
theorem le_length_of_get? {xs : List α} {n : Nat} {x : α} (h : get? xs n = some x) :
    n ≤ xs.length :=
  (get?_isSome_iff.mp (Option.isSome_of_eq_some h)).2

theorem pos_of_get? {xs : List α} {n : Nat} {x : α} (h : get? xs n = some x) : 0 < n :=
  (get?_isSome_iff.mp (Option.isSome_of_eq_some h)).1

/-- A number that is still free is past all those that are taken. -/
theorem lt_of_get? {xs : List α} {m n : Nat} {x : α} (hm : get? xs m = some x) (hn : get? xs n = none)
    (hpos : 0 < n) : m < n := by
  refine Nat.lt_of_not_le fun hle => ?_
  have hsome := get?_isSome_iff.mpr ⟨hpos, Nat.le_trans hle (le_length_of_get? hm)⟩
  rw [hn] at hsome
  cases hsome

/-- Making a new member changes no older one. -/
theorem get?_cons_of_le {xs : List α} {n : Nat} (x : α) (h : n ≤ xs.length) :
    get? (x :: xs) n = get? xs n := by
  rw [get?, if_neg (by unfold next; omega)]

theorem get?_cons_of_get? {xs : List α} {n : Nat} {y : α} (x : α) (h : get? xs n = some y) :
    get? (x :: xs) n = some y := by
  rw [get?_cons_of_le x (le_length_of_get? h), h]

/-- The members of the list are those that have a number. -/
theorem mem_iff_get? {xs : List α} {x : α} : x ∈ xs ↔ ∃ n, get? xs n = some x := by
  induction xs with
  | nil => simp [get?]
  | cons y older ih =>
    rw [List.mem_cons, ih]
    constructor
    · rintro (rfl | ⟨n, hn⟩)
      · exact ⟨_, get?_cons_next ..⟩
      · exact ⟨n, get?_cons_of_get? y hn⟩
    · rintro ⟨n, hn⟩
      rw [get?] at hn
      split at hn
      · exact .inl (Option.some.inj hn).symm
      · exact .inr ⟨n, hn⟩

theorem next_update (f : α → α) (xs : List α) (n : Nat) : next (update f xs n) = next xs := by
  simp [next]

theorem get?_update (f : α → α) (xs : List α) (m n : Nat) :
    get? (update f xs m) n = if n = m then (get? xs n).map f else get? xs n := by
  induction xs with
  | nil => simp [update, get?]
  | cons x older ih =>
    by_cases hm : m = next older
    · subst hm
      by_cases hn : n = next older <;> simp [update, get?, hn]
    · by_cases hn : n = next older
      · subst hn
        simp [update, get?, hm, next_update, Ne.symm hm]
      · simp [update, get?, hm, hn, next_update, ih]

/-- A change that leaves a function of the member as it is leaves what it gives for all of them. -/
theorem flatMap_update {β : Type} {f : α → α} {g : α → List β} {xs : List α} {n : Nat}
    (h : ∀ x, get? xs n = some x → g (f x) = g x) : (update f xs n).flatMap g = xs.flatMap g := by
  induction xs with
  | nil => rfl
  | cons x older ih =>
    rw [update]
    split
    · next hn => rw [List.flatMap_cons, h x (by rw [get?, if_pos hn]), List.flatMap_cons]
    · rw [List.flatMap_cons, ih fun y hy => h y (get?_cons_of_get? x hy), List.flatMap_cons]

end StridedViews.Numbered
