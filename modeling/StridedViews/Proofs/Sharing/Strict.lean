import StridedViews.Proofs.Sharing.Lifecycle

/-!
Views that must not be released while they are exported. As long as no export is ended that was not
begun, a view counts its guards and the exports that were begun without one
(`View.History.exports`). So a view of the strict policy is released just when there are none of
either, and no guard of it is left then (`Client.Run.strict_release`).
-/

namespace StridedViews

/-- Without guards, no more exports are ended than were begun before. -/
def ViewChange.Paired (changes : List ViewChange) : Prop :=
  ∀ past, past <+: changes → past.count .ended ≤ past.count .begun

theorem ViewChange.count_concat (past : List ViewChange) (change other : ViewChange) :
    (past ++ [change]).count other = past.count other + if change = other then 1 else 0 := by
  simp [List.count_singleton]

theorem ViewChange.Paired.of_append {past later : List ViewChange} (h : Paired (past ++ later)) :
    Paired past :=
  fun _ hpast => h _ (hpast.trans (List.prefix_append past later))

theorem View.exports_of_checkReleasable {v : View} (hstrict : v.policy = .rejectWhileExported)
    (h : v.checkReleasable = .ok ()) : v.exports = 0 := by
  by_contra hne
  rw [checkReleasable, if_pos ⟨hstrict, Nat.pos_of_ne_zero hne⟩] at h
  cases h

namespace View.History

variable {first v : View} {past : List ViewChange}

theorem dropped_le (h : first.History past v) : past.count .dropped ≤ past.count .acquired := by
  cases h with
  | new => exact le_rfl
  | change _ _ hguards => exact hguards

/-- A view counts the exports that were begun, with a guard or without, and not ended. -/
theorem exports (h : first.History past v) (hpaired : ViewChange.Paired past) :
    v.exports + past.count .ended + past.count .dropped =
      past.count .begun + past.count .acquired := by
  induction h with
  | new h => exact h.exports
  | @change past v change h _ hguards ih =>
    have hcount := ih hpaired.of_append
    have hended := hpaired _ (List.prefix_refl _)
    have hdropped := h.dropped_le
    cases change with
    | hashed | released =>
      simp only [ViewChange.count_concat, reduceCtorEq, if_false]
      exact hcount
    | begun | acquired | ended | dropped =>
      -- an export that ends is one of those that were counted
      simp only [ViewChange.apply, View.exported, View.unexported, ViewChange.count_concat,
        reduceCtorEq, if_true, if_false] at hended hguards ⊢
      omega

/-- No guard is left of a strict view that is released. -/
theorem acquired_eq_dropped (h : first.History past v) (hpaired : ViewChange.Paired past)
    (hstrict : v.policy = .rejectWhileExported) (hr : v.isReleased = true) :
    past.count .acquired = past.count .dropped := by
  induction h with
  | new h => rfl
  | @change past v change h hsuits hguards ih =>
    cases change with
    | released =>
      have hcount := h.exports hpaired.of_append
      have hended := hpaired.of_append _ (List.prefix_refl _)
      have hdropped := h.dropped_le
      have hnone : v.exports = 0 := exports_of_checkReleasable hstrict hsuits.2
      simp only [ViewChange.count_concat, reduceCtorEq, if_false]
      omega
    | acquired => cases hr.symm.trans hsuits
    | dropped =>
      have hnone := ih hpaired.of_append hstrict hr
      simp only [ViewChange.count_concat, reduceCtorEq, if_true, if_false] at hguards
      omega
    | hashed | begun | ended =>
      simp only [ViewChange.count_concat, reduceCtorEq, if_false]
      exact ih hpaired.of_append hstrict hr

end View.History

namespace Client.Run

variable {ops : List Op} {i : ItemId} {v : View}

/-- The exports of a view that are not ended: its guards, and what was begun and not ended without
one. -/
def outstanding (run : Run) (i : ItemId) : Nat :=
  run.client.guards i + ((run.changes i).count .begun - (run.changes i).count .ended)

/-- As long as no export is ended without a guard that was not begun without one, a view that must not
be released while it is exported counts just its guards and the exports begun without one. A call for
its release answers that it released it if there are none, and the view is released then; else it tells
their number and changes nothing; and once the view is released it has no guard. -/
theorem strict_release (hv : (of ops).client.memory.view? i = some v)
    (hstrict : v.policy = .rejectWhileExported) (hpaired : ViewChange.Paired ((of ops).changes i)) :
    v.exports = (of ops).outstanding i ∧
      (v.isReleased = false →
        ((∃ m', (Call.release i).run (of ops).client.memory = (.ok true, m')) ↔
          (of ops).outstanding i = 0) ∧
        (∀ m', (Call.release i).run (of ops).client.memory = (.ok true, m') →
          m'.view? i = some v.released) ∧
        ((of ops).outstanding i ≠ 0 →
          (Call.release i).run (of ops).client.memory =
            (.error (.exportsOutstanding ((of ops).outstanding i)), (of ops).client.memory))) ∧
      (v.isReleased = true → (of ops).client.guards i = 0) := by
  obtain ⟨first, -, hhistory⟩ := (recorded ops i).present v hv
  have hguards := guardsCounted ops i
  rw [GuardsCounted] at hguards
  have hcount := hhistory.exports hpaired
  have hended := hpaired _ (List.prefix_refl _)
  have hexports : v.exports = (of ops).outstanding i := by
    rw [outstanding]
    omega
  have hrun := run_call_of_owner ops (show (Call.release i).owner = none from rfl)
  have hview : (of ops).client.memory.viewAt i = .ok v := by rw [Memory.viewAt, hv]
  refine ⟨hexports, fun hlive => ?_, fun hr => ?_⟩
  · have hoperation : (Call.release i).operation (of ops).client.memory =
        v.checkReleasable >>= fun _ => .ok (true, _) :=
      (bind_of_ok hview).trans (if_neg (by simp [hlive]))
    by_cases hnone : v.exports = 0
    · have hcheck : v.checkReleasable = .ok () := if_neg fun h => h.2.ne' hnone
      have hreleased := Staged.atOnce_ok (hoperation.trans (bind_of_ok hcheck))
      rw [← hexports, hrun, hreleased]
      refine ⟨iff_of_true ⟨_, rfl⟩ hnone, ?_, fun hne => absurd hnone hne⟩
      rintro _ ⟨⟩
      have hafter := Memory.view?_releaseView hv i
      rw [if_pos rfl, hv] at hafter
      exact hafter
    · have hcheck : v.checkReleasable = .error (.exportsOutstanding v.exports) :=
        if_pos ⟨hstrict, Nat.pos_of_ne_zero hnone⟩
      have hfailed := Staged.atOnce_error (hoperation.trans (bind_of_error hcheck))
      rw [← hexports, hrun, hfailed]
      refine ⟨iff_of_false ?_ hnone, ?_, fun _ => rfl⟩
      · rintro ⟨_, ⟨⟩⟩
      · rintro _ ⟨⟩
  · have hdropped := hhistory.acquired_eq_dropped hpaired hstrict hr
    omega

/-- A strict view that is exported twice, once without a guard. -/
def exportedTwice : List Op :=
  [.ownStore [7], .makeBuffer (.owned [7]) none, .viewOver oneByte 1 none .rejectWhileExported,
    .acquire 1, .beginExport 1]

theorem strict_release_exportedTwice :
    (Call.release 1).run (of exportedTwice).client.memory =
      (.error (.exportsOutstanding 2), (of exportedTwice).client.memory) := by
  have hv : (of exportedTwice).client.memory.view? 1 = some _ := rfl
  have hpaired : ViewChange.Paired ((of exportedTwice).changes 1) :=
    fun past h => (h.sublist.count_le .ended).trans (Nat.zero_le _)
  obtain ⟨-, hrelease, -⟩ := strict_release hv rfl hpaired
  exact (hrelease rfl).2.2 (by decide)

end Client.Run

end StridedViews
