import StridedViews.Proofs.Sharing.Client
import StridedViews.Proofs.Sharing.Moves
import StridedViews.Proofs.Storage.Order

/-!
The order in which holds are given up. Holds given up in turn are given up together
(`Memory.giveUp_append`), and in any order they leave the same buffers and the same books
(`Memory.giveUp_perm`). An operation that closes something marks a view, as released or as exported
once less, and gives up holds; what a row of them marks and gives up does not depend on the order of
the row, and neither does it matter whether a view is marked before or after other holds are given up
(`Memory.mark_giveUp`).
-/

namespace StridedViews

open Numbered (next update)

/-! ### Members that are changed -/

namespace Numbered

variable {α : Type} {f g : α → α} {xs : List α} {i j : Nat}

theorem update_congr (h : ∀ x, get? xs i = some x → f x = g x) : update f xs i = update g xs i := by
  induction xs with
  | nil => rfl
  | cons x older ih =>
    rw [update, update]
    split
    · next hi => rw [h x (by rw [get?, if_pos hi])]
    · next hi => rw [ih fun y hy => h y (by rw [get?, if_neg hi, hy])]

theorem update_id (xs : List α) (i : Nat) : update (fun x => x) xs i = xs := by
  induction xs with
  | nil => rfl
  | cons x older ih => rw [update, ih, ite_self]

theorem update_update (f g : α → α) (xs : List α) (i : Nat) :
    update f (update g xs i) i = update (fun x => f (g x)) xs i := by
  induction xs with
  | nil => rfl
  | cons x older ih => by_cases hi : i = next older <;> simp [update, hi, next_update, ih]

/-- Changes of different members commute, and so do changes that commute. -/
theorem update_comm (h : i ≠ j ∨ ∀ x, f (g x) = g (f x)) :
    update f (update g xs j) i = update g (update f xs i) j := by
  induction xs with
  | nil => rfl
  | cons x older ih =>
    by_cases hi : i = next older <;> by_cases hj : j = next older
    · have hx := h.resolve_left (fun hne => hne (hi.trans hj.symm))
      simp [update, hi, hj, hx]
    · simp [update, hi, hj, next_update]
    · simp [update, hi, hj, next_update]
    · simp [update, hi, hj, next_update, ih]

end Numbered

/-! ### Holds given up together -/

namespace Item

variable {x : Item} {id : ItemId} {holds holds' : List Hold}

theorem settle_append (id : ItemId) (x : Item) (holds holds' : List Hold) :
    x.settle id (holds ++ holds') =
      (((x.settle id holds).1.settle id holds').1,
        (x.settle id holds).2 ++ ((x.settle id holds).1.settle id holds').2) := by
  induction holds generalizing x with
  | nil => rfl
  | cons h rest ih =>
    rw [List.cons_append, settle, settle]
    split
    · simp [ih]
    · simp [ih]

/-- What leaves an item: all but its shares, and its own holds if the last share goes. -/
theorem settle_left (id : ItemId) (x : Item) (holds : List Hold) :
    ((x.settle id holds).2 : Multiset Hold) =
      (if x.shares ≠ 0 ∧ x.shares ≤ holds.count (.share id) then (x.thing.holds : Multiset Hold)
        else 0) + (holds.filter (· ≠ .share id) : List Hold) := by
  induction holds generalizing x with
  | nil =>
    rw [List.count_nil, if_neg (by omega)]
    rfl
  | cons h rest ih =>
    rw [settle]
    split
    · next hh =>
      subst hh
      rw [List.count_cons_self, List.filter_cons_of_neg (by simp), ← Multiset.coe_add, ih]
      dsimp only
      by_cases h₁ : x.shares = 1
      · rw [if_pos h₁, if_neg (by omega), if_pos (by omega), zero_add]
      · rw [if_neg h₁, Multiset.coe_nil, zero_add]
        congr 1
        exact if_congr (by omega) rfl rfl
    · next hh =>
      rw [List.count_cons_of_ne hh, List.filter_cons_of_pos (by simpa using hh),
        ← Multiset.cons_coe, ih, ← Multiset.cons_coe, Multiset.add_cons]

theorem settle_perm (id : ItemId) (x : Item) (hperm : holds.Perm holds') :
    (x.settle id holds).1 = (x.settle id holds').1 ∧
      (x.settle id holds).2.Perm (x.settle id holds').2 := by
  constructor
  · have hshares : (x.settle id holds).1.shares = (x.settle id holds').1.shares := by
      rw [x.shares_settle, x.shares_settle, hperm.count_eq]
    have hthing : (x.settle id holds).1.thing = (x.settle id holds').1.thing := by
      rw [x.thing_settle, x.thing_settle]
    cases hx : (x.settle id holds).1
    cases hx' : (x.settle id holds').1
    rw [hx, hx'] at hshares hthing
    cases hshares
    cases hthing
    rfl
  · rw [← Multiset.coe_eq_coe, settle_left, settle_left, hperm.count_eq,
      Multiset.coe_eq_coe.mpr (hperm.filter _)]

/-- The item with another view, if it is one. -/
def onView (f : View → View) (x : Item) : Item :=
  match x.thing with
  | .view v => { x with thing := .view (f v) }
  | .object _ | .text _ | .integer _ => x

@[simp] theorem shares_onView (f : View → View) (x : Item) : (x.onView f).shares = x.shares := by
  rw [onView]
  split <;> rfl

/-- The view of an item does not depend on its shares. -/
theorem onView_withShares (f : View → View) (x : Item) (n : Nat) :
    onView f { x with shares := n } = { x.onView f with shares := n } := by
  simp only [onView]
  split <;> rfl

/-- Changing the view of an item makes no difference to what leaves the item, if the view holds the
same or stays. -/
theorem settle_onView {f : View → View}
    (h : (x.onView f).thing.holds = x.thing.holds ∨ (x.settle id holds).1.shares ≠ 0) :
    (x.onView f).settle id holds = ((x.settle id holds).1.onView f, (x.settle id holds).2) := by
  induction holds generalizing x with
  | nil => rfl
  | cons hold rest ih =>
    rw [settle] at h
    rw [settle, settle]
    split
    · next hshare =>
      rw [if_pos hshare] at h
      have hrest := ih (x := { x with shares := x.shares - 1 }) (by rwa [onView_withShares])
      have hfreed : (if (x.onView f).shares = 1 then (x.onView f).thing.holds else []) =
          if x.shares = 1 then x.thing.holds else [] := by
        rw [shares_onView]
        split
        · next hone =>
          refine h.resolve_right fun hne => hne ?_
          rw [shares_settle, hone]
          exact Nat.zero_sub _
        · rfl
      rw [onView_withShares] at hrest
      simp only [shares_onView] at hrest hfreed ⊢
      rw [hrest, hfreed]
    · next hshare =>
      rw [if_neg hshare] at h
      rw [ih h]

end Item

theorem settleAll_append (xs : List Item) (holds holds' : List Hold) :
    settleAll xs (holds ++ holds') =
      ((settleAll (settleAll xs holds).1 holds').1,
        (settleAll xs holds).2 ++ (settleAll (settleAll xs holds).1 holds').2) := by
  induction xs generalizing holds holds' with
  | nil => rfl
  | cons x older ih => simp only [settleAll, Item.settle_append, ih, next_settleAll]

theorem settleAll_perm {holds holds' : List Hold} (xs : List Item) (hperm : holds.Perm holds') :
    (settleAll xs holds).1 = (settleAll xs holds').1 ∧
      (settleAll xs holds).2.Perm (settleAll xs holds').2 := by
  induction xs generalizing holds holds' with
  | nil => exact ⟨rfl, hperm⟩
  | cons x older ih =>
    obtain ⟨hitem, hleft⟩ := x.settle_perm (next older) hperm
    obtain ⟨hitems, hrest⟩ := ih hleft
    exact ⟨congrArg₂ List.cons hitem hitems, hrest⟩

theorem settleAll_update {f : View → View} {xs : List Item} {i : ItemId} {holds : List Hold}
    (h : ∀ x y, Numbered.get? xs i = some x → Numbered.get? (settleAll xs holds).1 i = some y →
      (x.onView f).thing.holds = x.thing.holds ∨ y.shares ≠ 0) :
    settleAll (update (Item.onView f) xs i) holds =
      (update (Item.onView f) (settleAll xs holds).1 i, (settleAll xs holds).2) := by
  induction xs generalizing holds with
  | nil => rfl
  | cons x older ih =>
    by_cases hi : i = next older
    · subst hi
      have hx := h x _ (Numbered.get?_cons_next ..)
        (by rw [settleAll, Numbered.get?, next_settleAll, if_pos rfl])
      simp only [update, if_true, settleAll, next_settleAll, Item.settle_onView hx]
    · have hrest : settleAll (update (Item.onView f) older i) (x.settle (next older) holds).2 = _ :=
        ih fun y z hy hz => h y z (by rwa [Numbered.get?, if_neg hi])
          (by rwa [settleAll, Numbered.get?, next_settleAll, if_neg hi])
      simp only [update, if_neg hi, settleAll, next_settleAll, Numbered.next_update, hrest]

/-! ### Closing operations -/

namespace View

/-- The view after its release, which changes nothing if it was released before. -/
def closed (v : View) : View := if v.isReleased then v else v.released

/-- The holds that a release gives up. -/
def closing (v : View) : List Hold := if v.isReleased then [] else v.holds

theorem closed_unexported (v : View) : v.unexported.closed = v.closed.unexported := by
  rw [closed, closed, show v.unexported.isReleased = v.isReleased from rfl]
  split <;> rfl

theorem policy_closed (v : View) : v.closed.policy = v.policy := by
  rw [closed]
  split <;> rfl

end View

namespace Client.Op

/-- What an operation changes in a view before it gives up holds, if it closes something. -/
def mark : Op → Option (ItemId × (View → View))
  | .drop (.guard i _) => some (i, View.unexported)
  | .releaseView i => some (i, View.closed)
  | _ => none

end Client.Op

namespace Memory

open Client (Op)

variable {m : Memory} {i : ItemId} {op op' : Op} {holds holds' : List Hold}

/-- Changes the view of a number, if there is one. -/
def alterView (m : Memory) (i : ItemId) (f : View → View) : Memory :=
  { m with items := update (Item.onView f) m.items i }

/-- Changes the view that an operation marks. -/
def mark (m : Memory) (op : Op) : Memory :=
  match op.mark with
  | some (i, f) => m.alterView i f
  | none => m

/-- The holds that an operation gives up, if it closes something. -/
def yield (m : Memory) : Op → List Hold
  | .drop h => h.holds
  | .detach id => [.buffer id .reference]
  | .releaseView i => ((m.view? i).map View.closing).getD []
  | _ => []

/-- The operation closes something, and what it closes lets it. -/
def Closes (m : Memory) : Op → Prop
  | .drop _ | .detach _ => True
  | .releaseView i => ∀ v, m.view? i = some v → v.policy = .bestEffort
  | _ => False

theorem view?_alterView (m : Memory) (i j : ItemId) (f : View → View) :
    (m.alterView i f).view? j = if j = i then (m.view? j).map f else m.view? j := by
  simp only [view?, item?, alterView, Numbered.get?_update]
  by_cases hj : j = i
  · rw [if_pos hj, if_pos hj]
    rcases Numbered.get? m.items j with _ | ⟨_ | _ | _ | _, n⟩ <;> rfl
  · rw [if_neg hj, if_neg hj]

theorem setView_eq_alterView {v : View} (hv : m.view? i = some v) (f : View → View) :
    m.setView i (f v) = m.alterView i f := by
  obtain ⟨n, hget⟩ := view?_eq_some_iff.mp hv
  rw [setView, alterView]
  congr 1
  refine Numbered.update_congr fun x hx => ?_
  cases hget.symm.trans hx
  rfl

theorem alterView_eq_self {f : View → View} (h : ∀ v, m.view? i = some v → f v = v) :
    m.alterView i f = m := by
  have hitems : update (Item.onView f) m.items i = m.items := by
    refine (Numbered.update_congr fun x hx => ?_).trans (Numbered.update_id m.items i)
    rcases x with ⟨v | _ | _ | _, n⟩
    · exact congrArg (fun v => Item.mk (.view v) n) (h v (view?_eq_some_iff.mpr ⟨n, hx⟩))
    · rfl
    · rfl
    · rfl
  rw [alterView, hitems]

theorem alterView_alterView (m : Memory) (i : ItemId) (f g : View → View) :
    (m.alterView i g).alterView i f = m.alterView i fun v => f (g v) := by
  have hitems : ∀ x : Item, (x.onView g).onView f = x.onView fun v => f (g v) := by
    rintro ⟨v | _ | _ | _, n⟩ <;> rfl
  simp only [alterView, Numbered.update_update, hitems]

theorem unexport_eq_mark (m : Memory) (h : Handle) : m.unexport h = m.mark (.drop h) := by
  cases h with
  | guard i pinned =>
    rw [unexport, mark, Op.mark]
    cases hv : m.view? i with
    | none => exact (alterView_eq_self fun v hv' => nomatch hv.symm.trans hv').symm
    | some v => exact setView_eq_alterView hv _
  | buffer | reference | pin | view | owner | object => rfl

/-! #### Marks -/

theorem eq_of_mark {f : View → View} (h : op.mark = some (i, f)) :
    f = .unexported ∨ op = .releaseView i ∧ f = .closed := by
  unfold Op.mark at h
  split at h
  · cases h
    exact .inl rfl
  · cases h
    exact .inr ⟨rfl, rfl⟩
  · cases h

theorem alterView_comm {f g : View → View} {j : ItemId} (h : i ≠ j ∨ ∀ v, f (g v) = g (f v)) :
    (m.alterView j g).alterView i f = (m.alterView i f).alterView j g := by
  have hitems : ∀ x : Item, (∀ v, f (g v) = g (f v)) → (x.onView g).onView f = (x.onView f).onView g := by
    intro x hcomm
    rcases x with ⟨v | _ | _ | _, n⟩
    · exact congrArg (fun v => Item.mk (.view v) n) (hcomm v)
    · rfl
    · rfl
    · rfl
  simp only [alterView, Numbered.update_comm (h.imp_right fun hcomm x => hitems x hcomm)]

/-- Marks commute: releasing a view does not change how often it is exported. -/
theorem mark_comm (m : Memory) (op op' : Op) : (m.mark op).mark op' = (m.mark op').mark op := by
  cases h : op.mark with
  | none => simp only [mark, h]
  | some marked =>
    cases h' : op'.mark with
    | none => simp only [mark, h, h']
    | some marked' =>
      obtain ⟨i, f⟩ := marked
      obtain ⟨j, g⟩ := marked'
      simp only [mark, h, h']
      refine alterView_comm (.inr fun v => ?_)
      rcases eq_of_mark h with rfl | ⟨-, rfl⟩ <;> rcases eq_of_mark h' with rfl | ⟨-, rfl⟩
      · rfl
      · exact v.closed_unexported
      · exact v.closed_unexported.symm
      · rfl

/-- A mark leaves a view as it is but for its exports, except that of its own release. -/
theorem view?_mark (m : Memory) (op : Op) (j : ItemId) :
    (m.mark op).view? j = m.view? j ∨ (m.mark op).view? j = (m.view? j).map View.unexported ∨
      op = .releaseView j ∧ (m.mark op).view? j = (m.view? j).map View.closed := by
  rw [mark]
  cases h : op.mark with
  | none => exact .inl rfl
  | some marked =>
    obtain ⟨i, f⟩ := marked
    simp only [view?_alterView]
    by_cases hj : j = i
    · rw [if_pos hj]
      rcases eq_of_mark h with rfl | ⟨rfl, rfl⟩
      · exact .inr (.inl rfl)
      · exact .inr (.inr ⟨by rw [hj], rfl⟩)
    · exact .inl (if_neg hj)

theorem yield_mark (hne : op ≠ op') : (m.mark op).yield op' = m.yield op' := by
  cases op' with
  | releaseView j =>
    rw [yield, yield]
    rcases m.view?_mark op j with h | h | ⟨rfl, -⟩
    · rw [h]
    · rw [h, Option.map_map]
      rfl
    · exact absurd rfl hne
  | _ => rfl

theorem Closes.mark (h : m.Closes op') (op : Op) : (m.mark op).Closes op' := by
  cases op' with
  | releaseView j =>
    intro v' hv'
    rcases m.view?_mark op j with heq | heq | ⟨-, heq⟩
    · exact h v' (heq ▸ hv')
    · obtain ⟨v, hv, rfl⟩ := Option.map_eq_some_iff.mp (heq ▸ hv')
      exact h v hv
    · obtain ⟨v, hv, rfl⟩ := Option.map_eq_some_iff.mp (heq ▸ hv')
      exact v.policy_closed.trans (h v hv)
  | _ => exact h

/-! #### Giving up holds -/

theorem giveUp_append (m : Memory) (holds holds' : List Hold) :
    m.giveUp (holds ++ holds') = (m.giveUp holds).giveUp holds' := by
  simp only [giveUp, settleAll_append, List.foldl_append]

theorem view?_giveUp (m : Memory) (holds : List Hold) (i : ItemId) :
    (m.giveUp holds).view? i = m.view? i := by
  cases hx : m.item? i with
  | none =>
    have hnone : (m.giveUp holds).item? i = none := by
      have hlen : (m.giveUp holds).items.length = m.items.length := length_settleAll ..
      rw [item?, ← Option.not_isSome_iff_eq_none, Numbered.get?_isSome_iff] at hx ⊢
      rwa [hlen]
    rw [view?, view?, hx, hnone]
  | some x =>
    obtain ⟨n, hn⟩ := get?_settleAll holds hx
    have hitem : (m.giveUp holds).item? i = some { x with shares := n } := hn
    rw [view?, view?, hx, hitem]
    rcases x with ⟨_ | _ | _ | _, _⟩ <;> rfl

/-- A view can be changed before the holds are given up instead of afterwards if it holds the same or
is not among what goes away. -/
theorem alterView_giveUp {f : View → View}
    (h : (∀ v, (f v).holds = v.holds) ∨ (m.giveUp holds).Living i) :
    (m.giveUp holds).alterView i f = (m.alterView i f).giveUp holds := by
  have hsettle : settleAll (update (Item.onView f) m.items i) holds =
      (update (Item.onView f) (settleAll m.items holds).1 i, (settleAll m.items holds).2) := by
    refine settleAll_update fun x y hx hy => ?_
    rcases h with h | ⟨z, hz, hne⟩
    · refine .inl ?_
      rcases x with ⟨v | _ | _ | _, n⟩
      · exact h v
      · rfl
      · rfl
      · rfl
    · cases hz.symm.trans hy
      exact .inr hne
  simp only [giveUp, alterView, hsettle]

theorem mark_giveUp (h : ∀ i, op = .releaseView i → (m.giveUp holds).Living i) :
    (m.giveUp holds).mark op = (m.mark op).giveUp holds := by
  rw [mark, mark]
  cases hmark : op.mark with
  | none => rfl
  | some marked =>
    obtain ⟨i, f⟩ := marked
    refine alterView_giveUp ?_
    rcases eq_of_mark hmark with rfl | ⟨hop, -⟩
    · exact .inl fun v => rfl
    · exact .inr (h i hop)

theorem yield_giveUp (m : Memory) (holds : List Hold) (op : Op) :
    (m.giveUp holds).yield op = m.yield op := by
  cases op with
  | releaseView i => rw [yield, yield, view?_giveUp]
  | _ => rfl

theorem closes_giveUp : (m.giveUp holds).Closes op ↔ m.Closes op := by
  cases op with
  | releaseView i => rw [Closes, Closes, view?_giveUp]
  | _ => exact Iff.rfl

/-- Holds that are given up in any order leave the same items, the same buffers and the same
books. -/
theorem giveUp_perm (hv : ∀ b ∈ m.pool.buffers, b.Viewed) (hperm : holds.Perm holds') :
    (m.giveUp holds).pool.buffers = (m.giveUp holds').pool.buffers ∧
      (m.giveUp holds).pool.registries = (m.giveUp holds').pool.registries :=
  foldl_letGo_perm hv (settleAll_perm m.items hperm).2

/-! #### Rows of closing operations -/

/-- Marks what an operation closes, and sets aside the holds that it gives up. -/
def collect (s : Memory × Multiset Hold) (op : Op) : Memory × Multiset Hold :=
  (s.1.mark op, s.2 + s.1.yield op)

/-- What a row of operations marks and sets aside does not depend on their order. -/
instance : RightCommutative collect where
  right_comm s op op' := by
    rcases eq_or_ne op op' with rfl | hne
    · rfl
    · simp only [collect, yield_mark hne, yield_mark hne.symm, mark_comm, Prod.mk.injEq, true_and]
      exact add_right_comm ..

theorem pool_collect (ops : List Op) (s : Memory × Multiset Hold) :
    (ops.foldl collect s).1.pool = s.1.pool := by
  induction ops generalizing s with
  | nil => rfl
  | cons op rest ih =>
    rw [List.foldl_cons, ih, collect, mark]
    split <;> rfl

end Memory

end StridedViews
