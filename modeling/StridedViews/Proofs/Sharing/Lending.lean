import StridedViews.Proofs.Sharing.Order
import StridedViews.Proofs.View.Build

/-!
Lent owners. An operation that makes a view is handed a share of the owner, and gives it up where it
refuses the view. If it is another share than that which keeps the owner, a refusal leaves no trace of
it; and the view that is made takes its shares as if it were a thing like any other
(`Memory.viewOver_lend_cases`, `Memory.newView_lend_cases`). To hand over the share that one has comes to
handing over another and giving up one's own (`Memory.viewOver_eq_giveUp_lend`).
-/

namespace StridedViews

open Numbered (next update)

/-- Of several shares of an item one is given up, and nothing goes with it. -/
theorem settleAll_share {xs : List Item} {i : ItemId} {x : Item} (hget : Numbered.get? xs i = some x)
    (hx : 1 < x.shares) :
    settleAll xs [.share i] = (update (fun x => { x with shares := x.shares - 1 }) xs i, []) := by
  induction xs with
  | nil => cases hget
  | cons y older ih =>
    rw [Numbered.get?] at hget
    rw [settleAll, update]
    by_cases hi : i = next older
    · rw [if_pos hi] at hget
      cases hget
      simp [Item.settle, hi, hx.ne', settleAll_nil]
    · rw [if_neg hi] at hget
      simp [Item.settle, hi, ih hget]

namespace Memory

variable {m : Memory} {l : Layout} {source : ViewSource} {id : BufferId} {i : ItemId}
  {owner : Option ItemId} {policy : ReleasePolicy} {requested : ViewFlags}

/-- An item that has more shares than one. -/
def Shared (m : Memory) (i : ItemId) : Prop := ∃ x, m.item? i = some x ∧ 1 < x.shares

theorem giveUp_share (h : m.Shared i) : m.giveUp [.share i] =
    { m with items := update (fun x => { x with shares := x.shares - 1 }) m.items i } := by
  obtain ⟨x, hget, hx⟩ := h
  rw [giveUp, settleAll_share hget hx]
  rfl

/-- No buffer and no books tell of a share that is given up of an owner who has others. -/
theorem pool_giveUp_ofOwner (h : ∀ i, owner = some i → m.Shared i) :
    (m.giveUp (Hold.ofOwner owner)).pool = m.pool := by
  cases owner with
  | none => exact congrArg pool m.giveUp_nil
  | some i => exact (congrArg pool (giveUp_share (h i rfl))).trans rfl

/-- Nothing goes away with a share that is given up of an owner who has others. -/
theorem Living.giveUp_ofOwner {j : ItemId} (hj : m.Living j) (h : ∀ i, owner = some i → m.Shared i) :
    (m.giveUp (Hold.ofOwner owner)).Living j := by
  cases owner with
  | none => exact m.giveUp_nil.symm ▸ hj
  | some i =>
    obtain ⟨y, hy, hshares⟩ := h i rfl
    obtain ⟨x, hx, hne⟩ := hj
    have hgive : m.giveUp (Hold.ofOwner (some i)) = _ := giveUp_share (h i rfl)
    rw [item?] at hx hy
    rw [hgive, Living, item?, Numbered.get?_update]
    by_cases hji : j = i
    · subst hji
      rw [if_pos rfl, hy]
      exact ⟨_, rfl, Nat.sub_ne_zero_of_lt hshares⟩
    · rw [if_neg hji]
      exact ⟨x, hx, hne⟩

theorem pool_lend (m : Memory) (owner : Option ItemId) : (m.lend owner).pool = m.pool :=
  m.pool_shareAll _

theorem next_lend (m : Memory) (owner : Option ItemId) : next (m.lend owner).items = next m.items := by
  cases owner with
  | none => rfl
  | some i => exact Numbered.next_update ..

/-- The share that was added for an operation is given up again. -/
theorem giveUp_lend (h : ∀ i, owner = some i → m.Living i) :
    (m.lend owner).giveUp (Hold.ofOwner owner) = m := by
  cases owner with
  | none => exact m.giveUp_nil
  | some i =>
    obtain ⟨x, hget, hx⟩ := h i rfl
    have hshared : (m.share i).Shared i := by
      refine ⟨{ x with shares := x.shares + 1 }, ?_, Nat.succ_lt_succ (Nat.pos_of_ne_zero hx)⟩
      rw [item?, share, Numbered.get?_update, if_pos rfl, ← item?, hget, Option.map_some]
    refine (giveUp_share hshared).trans ?_
    rw [share, Numbered.update_update]
    exact congrArg (Memory.mk m.pool) (Numbered.update_id ..)

/-- A view takes over the share that was added for it: it might have added it itself. -/
theorem put_lend (m : Memory) (pool : Pool) : put { m.lend owner with pool }
      (.view (.fresh l source owner policy requested)) =
    add { m with pool } (.view (.fresh l source owner policy requested)) := by
  rcases source with (_ | _) | _ <;> cases owner <;> rfl

theorem newView_lend_eq_ok_iff {m' : Memory} :
    (m.lend owner).newView l source owner policy requested = (.ok i, m') ↔
      View.build m.pool l source owner policy requested = .ok (.fresh l source owner policy requested) ∧
        (i, m') = m.add (.view (.fresh l source owner policy requested)) := by
  have hput : (m.lend owner).put (.view (.fresh l source owner policy requested)) =
      add { m with pool := (m.lend owner).pool } _ := m.put_lend _
  rw [newView_eq_ok_iff, hput, pool_lend]

/-- A view that is refused costs the source its reference and the owner nothing. -/
theorem newView_lend_cases (h : ∀ i, owner = some i → m.Living i) (l : Layout) (source : ViewSource)
    (policy : ReleasePolicy) (requested : ViewFlags) :
    (∃ e, (m.lend owner).newView l source owner policy requested =
        (.error e, m.giveUp source.holds)) ∨
      View.build m.pool l source owner policy requested =
          .ok (.fresh l source owner policy requested) ∧
        (m.lend owner).newView l source owner policy requested =
          (.ok (m.add (.view (.fresh l source owner policy requested))).1,
            (m.add (.view (.fresh l source owner policy requested))).2) := by
  cases hmade : (m.lend owner).newView l source owner policy requested with
  | mk result m' =>
    cases result with
    | error e =>
      obtain ⟨-, rfl⟩ := orGiveUp_eq_error_iff.mp hmade
      exact .inl ⟨e, by rw [giveUp_append, giveUp_lend h]⟩
    | ok i =>
      obtain ⟨hbuild, heq⟩ := newView_lend_eq_ok_iff.mp hmade
      obtain ⟨rfl, rfl⟩ := Prod.mk.inj heq
      exact .inr ⟨hbuild, rfl⟩

/-- A view of bytes that is refused leaves no trace. -/
theorem viewAliased_lend_cases (h : ∀ i, owner = some i → m.Living i) (l : Layout) (bytes : List UInt8)
    (policy : ReleasePolicy) (requested : ViewFlags) :
    (∃ e, (m.lend owner).viewAliased l bytes owner policy requested = (.error e, m)) ∨
      let made := m.add (.view (.fresh l (.aliased bytes) owner policy requested))
      (m.lend owner).viewAliased l bytes owner policy requested = (.ok made.1, made.2) := by
  rcases newView_lend_cases h l (.aliased bytes) policy requested with ⟨e, heq⟩ | ⟨-, heq⟩
  · rw [ViewSource.holds, giveUp_nil] at heq
    exact .inl ⟨e, heq⟩
  · exact .inr heq

theorem viewOver_lend_eq_ok_iff {m' : Memory} :
    (m.lend owner).viewOver l id owner policy = (.ok i, m') ↔
      View.checkBuffer m.pool id l = .ok () ∧ ∃ pool, m.pool.attach id = .ok pool ∧
        (i, m') = add { m with pool }
          (.view (.fresh l (.managed (some id)) owner policy (ViewFlags.ofLayout l))) := by
  rw [viewOver_eq_ok_iff, pool_lend]
  simp only [put_lend]

/-- Whether a view is made over a buffer, and by which number, is no matter of who keeps the owner. -/
theorem exists_viewOver_lend {m' : Memory} (h : m.viewOver l id owner policy = (.ok i, m')) :
    ∃ m₁, (m.lend owner).viewOver l id owner policy = (.ok i, m₁) ∧
      m₁.view? i = some (.fresh l (.managed (some id)) owner policy (ViewFlags.ofLayout l)) := by
  obtain ⟨hcheck, pool, hattach, heq⟩ := viewOver_eq_ok_iff.mp h
  obtain rfl : i = (add { m with pool }
      (.view (.fresh l (.managed (some id)) owner policy (ViewFlags.ofLayout l)))).1 := by
    refine (congrArg Prod.fst heq).trans ?_
    rw [← put_lend]
    exact (m.next_lend owner).symm
  exact ⟨_, viewOver_lend_eq_ok_iff.mpr ⟨hcheck, pool, hattach, rfl⟩, view?_add_self ..⟩

/-- A view over a buffer that is refused leaves no trace. -/
theorem viewOver_lend_cases (h : ∀ i, owner = some i → m.Living i) (l : Layout) (id : BufferId)
    (policy : ReleasePolicy) :
    (∃ e, (m.lend owner).viewOver l id owner policy = (.error e, m)) ∨
      ∃ pool, View.checkBuffer m.pool id l = .ok () ∧ m.pool.attach id = .ok pool ∧
        let made := add { m with pool }
          (.view (.fresh l (.managed (some id)) owner policy (ViewFlags.ofLayout l)))
        (m.lend owner).viewOver l id owner policy = (.ok made.1, made.2) := by
  cases hmade : (m.lend owner).viewOver l id owner policy with
  | mk result m' =>
    cases result with
    | error e =>
      rw [eq_of_viewOver_error hmade, giveUp_lend h]
      exact .inl ⟨e, rfl⟩
    | ok i =>
      obtain ⟨hcheck, pool, hattach, heq⟩ := viewOver_lend_eq_ok_iff.mp hmade
      obtain ⟨rfl, rfl⟩ := Prod.mk.inj heq
      exact .inr ⟨pool, hcheck, hattach, rfl⟩

/-! ### Handing over one's own share -/

/-- A share of another item is given up past a new one. -/
theorem giveUp_put (hi : i ≠ next m.items) (t : Thing) :
    (m.put t).2.giveUp [.share i] = ((m.giveUp [.share i]).put t).2 := by
  simp [giveUp, put, settleAll, Item.settle, hi]

/-- Where a share is given up once a thing is there, it might have been handed over to the thing. -/
theorem giveUp_put_lend (h : ∀ i, owner = some i → m.Living i) (t : Thing) :
    ((m.lend owner).put t).2.giveUp (Hold.ofOwner owner) = (m.put t).2 := by
  cases owner with
  | none => exact giveUp_nil _
  | some i =>
    obtain ⟨x, hget, -⟩ := h i rfl
    have hne : i ≠ next (m.lend (some i)).items := by
      rw [m.next_lend]
      exact (Nat.lt_succ_of_le (Numbered.le_length_of_get? hget)).ne
    exact (giveUp_put hne t).trans (congrArg (fun m => (put m t).2) (giveUp_lend h))

/-- To hand over one's own share of an owner is to lend another one, and to give up one's own in the
end. -/
theorem viewOver_eq_giveUp_lend (h : ∀ i, owner = some i → m.Living i) :
    m.viewOver l id owner policy =
      (((m.lend owner).viewOver l id owner policy).1,
        ((m.lend owner).viewOver l id owner policy).2.giveUp (Hold.ofOwner owner)) := by
  -- where a check fails, the share that was lent is given up first, and then one's own
  have hfailed : ∀ e : ViewError, m.orGiveUp (Hold.ofOwner owner) (.error e) =
      ((.error e : Except ViewError ItemId),
        ((m.lend owner).giveUp (Hold.ofOwner owner)).giveUp (Hold.ofOwner owner)) := by
    intro e
    rw [giveUp_lend h]
    rfl
  rw [viewOver, viewOver, pool_lend]
  cases View.checkBuffer m.pool id l with
  | error e => exact hfailed e
  | ok _ =>
    dsimp only [bind, Except.bind]
    cases (m.pool.attach id).mapError ViewError.buffer with
    | error e => exact hfailed e
    | ok pool =>
      dsimp only
      cases View.build pool l (.managed (some id)) owner policy (ViewFlags.ofLayout l) with
      | error e => exact hfailed e
      | ok v =>
        have hlend : { m.lend owner with pool } = lend { m with pool } owner := by
          cases owner <;> rfl
        have hput := giveUp_put_lend (m := { m with pool }) h (.view v)
        rw [hlend]
        exact Prod.ext (congrArg Except.ok (next_lend _ owner).symm) hput.symm

theorem viewAliased_eq_giveUp_lend {bytes : List UInt8} (h : ∀ i, owner = some i → m.Living i) :
    m.viewAliased l bytes owner policy requested =
      (((m.lend owner).viewAliased l bytes owner policy requested).1,
        ((m.lend owner).viewAliased l bytes owner policy requested).2.giveUp
          (Hold.ofOwner owner)) := by
  rw [viewAliased, viewAliased, newView, newView, pool_lend, ViewSource.holds, List.append_nil]
  cases View.build m.pool l (.aliased bytes) owner policy requested with
  | error e =>
    refine Prod.ext rfl ?_
    change m.giveUp _ = ((m.lend owner).giveUp _).giveUp _
    rw [giveUp_lend h]
  | ok v =>
    exact Prod.ext (congrArg Except.ok (m.next_lend owner).symm) (giveUp_put_lend h (.view v)).symm

end Memory

end StridedViews
