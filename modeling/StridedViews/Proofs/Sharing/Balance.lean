import StridedViews.Proofs.Sharing.Items
import StridedViews.Proofs.Storage.Accounts
import StridedViews.Sharing.Memory

/-!
Balanced memories. A memory is balanced for the holds from outside if every item counts its shares
and every buffer its holds, those of all living items and stores included. All operations keep the
balance: each says which holds it takes from outside and which it leaves there. The main one is
`Balanced.giveUp`, where one hold can end many.
-/

namespace StridedViews

open Numbered (next)

variable {id : BufferId} {i : ItemId} {outside outside' : Multiset Hold} {p : Pool}

/-! ### Giving up holds -/

/-- Giving up holds one after the other: holds on items are none of the pool's. -/
theorem Pool.Sound.letGoAll {holds : List Hold} (hp : p.Sound ((holds : Multiset Hold) + outside)) :
    (holds.foldl Memory.letGo p).Sound outside := by
  induction holds generalizing p with
  | nil => simpa using hp
  | cons h rest ih =>
    rw [List.foldl_cons]
    rw [← Multiset.cons_coe, ← Multiset.singleton_add, add_assoc] at hp
    cases h with
    | buffer id sort => exact ih (hp.bring (e := .hold sort))
    | share i =>
      exact ih (hp.congr fun n h _ => count_buffer_share n h)

theorem settleAll_nil (xs : List Item) : settleAll xs [] = (xs, []) := by
  induction xs with
  | nil => rfl
  | cons x older ih => rw [settleAll, Item.settle, ih]

/-- Nothing to give up changes nothing. -/
theorem Memory.giveUp_nil (m : Memory) : m.giveUp [] = m := by
  rw [giveUp, settleAll_nil]
  rfl

theorem settleAll_buffer (xs : List Item) (id : BufferId) (h : BufferHold) :
    settleAll xs [.buffer id h] = (xs, [.buffer id h]) := by
  induction xs with
  | nil => rfl
  | cons x older ih => simp [settleAll, Item.settle, ih]

theorem Memory.giveUp_buffer (m : Memory) (id : BufferId) (h : BufferHold) :
    m.giveUp [.buffer id h] = { m with pool := m.pool.letGo id h } := by
  rw [giveUp, settleAll_buffer]
  rfl

theorem length_letGoAll (p : Pool) (holds : List Hold) :
    (holds.foldl Memory.letGo p).buffers.length = p.buffers.length := by
  induction holds generalizing p with
  | nil => rfl
  | cons h rest ih =>
    rw [List.foldl_cons, ih]
    cases h with
    | buffer id sort => rw [Memory.letGo, Pool.letGo, Pool.buffers_bring, length_endBuffer]
    | share i => rfl

/-! ### Memories -/

namespace Memory

variable {m m' : Memory}

/-- The hold is on a buffer or an item that was made. -/
def Knows (m : Memory) : Hold → Prop
  | .buffer id _ => 0 < id ∧ id ≤ m.pool.buffers.length
  | .share i => 0 < i ∧ i ≤ m.items.length

/-- An item that has shares. -/
def Living (m : Memory) (i : ItemId) : Prop := ∃ x, m.item? i = some x ∧ x.shares ≠ 0

/-- Adding shares ends no life. -/
theorem Living.share {j : ItemId} (hj : m.Living j) (i : ItemId) : (m.share i).Living j := by
  obtain ⟨x, hget, hx⟩ := hj
  rw [item?] at hget
  by_cases hji : j = i
  · refine ⟨{ x with shares := x.shares + 1 }, ?_, Nat.succ_ne_zero _⟩
    rw [item?, Memory.share, Numbered.get?_update, if_pos hji, hget, Option.map_some]
  · refine ⟨x, ?_, hx⟩
    rw [item?, Memory.share, Numbered.get?_update, if_neg hji, hget]

/-- A memory whose counts are those of the holds from outside and of its own. -/
structure Balanced (m : Memory) (outside : Multiset Hold) : Prop where
  items : SoundItems m.items outside
  pool : m.pool.Sound (outside + holdsOf m.items)
  known : ∀ h ∈ outside + holdsOf m.items, m.Knows h

theorem Knows.of_length {h : Hold} (hk : m.Knows h)
    (hb : m.pool.buffers.length ≤ m'.pool.buffers.length)
    (hi : m.items.length ≤ m'.items.length) : m'.Knows h := by
  cases h with
  | buffer id sort => exact ⟨hk.1, hk.2.trans hb⟩
  | share i => exact ⟨hk.1, hk.2.trans hi⟩

namespace Balanced

/-- Nothing holds a buffer that is not made yet. -/
theorem count_buffer_eq_zero (hm : m.Balanced outside) (hlt : m.pool.buffers.length < id)
    (h : BufferHold) : (outside + holdsOf m.items).count (.buffer id h) = 0 :=
  Multiset.count_eq_zero.mpr fun hmem => Nat.not_le.mpr hlt (hm.known _ hmem).2

theorem count_share_eq_zero (hm : m.Balanced outside) (hlt : m.items.length < i) :
    outside.count (.share i) = 0 :=
  Multiset.count_eq_zero.mpr fun hmem =>
    Nat.not_le.mpr hlt (hm.known _ (Multiset.mem_add.mpr (.inl hmem))).2

/-- What something is a share of lives. -/
theorem living_of_mem (hm : m.Balanced outside) (h : .share i ∈ outside + holdsOf m.items) :
    m.Living i := by
  obtain ⟨x, hget⟩ := Option.isSome_iff_exists.mp (Numbered.get?_isSome_iff.mpr (hm.known _ h))
  exact ⟨x, hget, hm.items.shares_ne_zero hget h⟩

/-- What something is a hold on counts it. -/
theorem count_pos_of_mem {h : BufferHold} (hm : m.Balanced outside)
    (hmem : .buffer id h ∈ outside + holdsOf m.items) :
    ∃ b, m.pool.get? id = some b ∧ 0 < b.count h := by
  obtain ⟨b, hget⟩ := Option.isSome_iff_exists.mp (Numbered.get?_isSome_iff.mpr (hm.known _ hmem))
  obtain ⟨outside', hle, hsound⟩ := hm.pool.buffers.soundAt hget
  refine ⟨b, hget, ?_⟩
  rw [hsound.counted]
  exact Multiset.count_pos.mpr (Multiset.mem_of_le hle hmem)

theorem held_of_mem {h : BufferHold} (hm : m.Balanced outside)
    (hmem : .buffer id h ∈ outside + holdsOf m.items) :
    ∃ b, m.pool.get? id = some b ∧ b.isHeld = true := by
  obtain ⟨b, hget, hpos⟩ := hm.count_pos_of_mem hmem
  exact ⟨b, hget, Buffer.isHeld_of_count_pos hpos⟩

/-- Changing the pool keeps the balance if the pool counts the holds that come or go. -/
theorem withPool (hm : m.Balanced outside) {pool : Pool}
    (hp : pool.Sound (outside' + holdsOf m.items))
    (hlen : m.pool.buffers.length ≤ pool.buffers.length)
    (hshare : ∀ i, outside.count (.share i) = outside'.count (.share i))
    (hknown : ∀ h ∈ outside', h ∉ outside → Knows { m with pool } h) :
    Balanced { m with pool } outside' := by
  refine ⟨hm.items.congr fun i _ => hshare i, hp, fun h hmem => ?_⟩
  by_cases hold : h ∈ outside + holdsOf m.items
  · exact (hm.known h hold).of_length hlen le_rfl
  · rw [Multiset.mem_add, not_or] at hold
    exact hknown h ((Multiset.mem_add.mp hmem).resolve_right hold.2) hold.1

/-- Giving up holds, with all that goes away with them, keeps the balance for the holds that are
left. -/
theorem giveUp {holds : List Hold} (hm : m.Balanced ((holds : Multiset Hold) + outside)) :
    (m.giveUp holds).Balanced outside := by
  have hpool : m.pool.Sound (((settleAll m.items holds).2 : Multiset Hold) +
      (outside + holdsOf (settleAll m.items holds).1)) := by
    refine hm.pool.congr ?_
    intro n h _
    have hcount := count_settleAll n h m.items holds
    simp only [Multiset.count_add, Multiset.coe_count, holdsOf]
    omega
  refine ⟨soundItems_settleAll hm.items, hpool.letGoAll, fun h hmem => ?_⟩
  have hold : h ∈ (holds : Multiset Hold) + outside + holdsOf m.items := by
    rcases Multiset.mem_add.mp hmem with hmem | hmem
    · exact Multiset.mem_add.mpr (.inl (Multiset.mem_add.mpr (.inr hmem)))
    · exact Multiset.mem_add.mpr (.inr (holdsOf_settleAll_subset _ _ hmem))
  refine (hm.known h hold).of_length ?_ ?_
  · rw [Memory.giveUp, length_letGoAll]
  · rw [Memory.giveUp, length_settleAll]

theorem gain {h : BufferHold} (hm : m.Balanced outside) {b : Buffer} (hb : m.pool.get? id = some b)
    (hl : h = .handle ∧ b.isHeld = true ∨ b.isReleased = false) :
    Balanced { m with pool := { m.pool with buffers := Numbered.update (·.gain h) m.pool.buffers id } }
      ({.buffer id h} + outside) := by
  refine hm.withPool ?_ (Numbered.length_update ..).ge (fun i => ?_) fun h' hmem hnot => ?_
  · rw [add_assoc]
    refine hm.pool.gain ?_
    intro b' hb'
    rw [hb] at hb'
    cases hb'
    exact hl
  · rw [Multiset.count_add, Multiset.count_singleton, if_neg (by simp), Nat.zero_add]
  · rcases Multiset.mem_add.mp hmem with hmem | hmem
    · rw [Multiset.mem_singleton.mp hmem]
      obtain ⟨hpos, hle⟩ := Numbered.get?_isSome_iff.mp (Option.isSome_of_eq_some hb)
      exact ⟨hpos, hle.trans (Numbered.length_update ..).ge⟩
    · exact absurd hmem hnot

/-- A new hold is one from outside. -/
theorem hold {h : BufferHold} {pool : Pool} (hm : m.Balanced outside)
    (hp : m.pool.hold id h = .ok pool) :
    Balanced { m with pool } ({.buffer id h} + outside) := by
  obtain ⟨b, hb, hl, rfl⟩ := Pool.hold_eq_ok_iff.mp hp
  exact hm.gain hb (.inr hl)

theorem overwrite (hm : m.Balanced outside) (id : BufferId) (new : List UInt8) :
    Balanced { m with pool := m.pool.overwrite id new } outside :=
  hm.withPool (hm.pool.overwrite id new) (length_writeBytes ..).ge (fun _ => rfl)
    fun _ hmem hnot => absurd hmem hnot

theorem bringRelease (hm : m.Balanced outside) (id : BufferId) :
    Balanced { m with pool := m.pool.bring id .release } outside := by
  refine hm.withPool (Pool.Sound.bring ?_) ?_ (fun _ => rfl) fun _ hmem hnot => absurd hmem hnot
  · rw [Ending.given, zero_add]
    exact hm.pool
  · rw [Pool.buffers_bring, length_endBuffer]

/-- A new buffer takes over the holds of its store. -/
theorem create {s : Store} (hm : m.Balanced ((s.holds : Multiset Hold) + outside))
    (r : Option RegistryId) :
    Balanced { m with pool := (m.pool.create s r).2 }
      ({.buffer (m.pool.create s r).1 .handle} + outside) := by
  have hlen : (m.pool.create s r).2.buffers.length = m.pool.buffers.length + 1 := by
    rw [Pool.create, Pool.buffers_book]
    rfl
  have hshares : ∀ i, (s.holds : Multiset Hold).count (.share i) = 0 := by
    intro i
    rw [Multiset.coe_count, List.count_eq_zero, Store.holds]
    cases s.source <;> simp [Source.holds]
  refine hm.withPool ?_ (by omega) (fun i => ?_) fun h hmem hnot => ?_
  · rw [add_assoc]
    have hpool := hm.pool
    rw [add_assoc] at hpool
    refine Pool.Sound.create r (fun h => ?_) hpool
    have hzero := hm.count_buffer_eq_zero (Nat.lt_succ_self _) h
    rw [add_assoc, Multiset.count_add] at hzero
    exact Nat.eq_zero_of_add_eq_zero_left hzero
  · rw [Multiset.count_add, Multiset.count_add, hshares, Multiset.count_singleton,
      if_neg (by simp)]
  · rcases Multiset.mem_add.mp hmem with hmem | hmem
    · rw [Multiset.mem_singleton.mp hmem]
      exact ⟨Nat.succ_pos _, hlen.ge⟩
    · exact absurd (Multiset.mem_add.mpr (.inr hmem)) hnot

/-! #### Items -/

/-- A new share of a living item. -/
theorem share (hm : m.Balanced outside) (hi : m.Living i) :
    (m.share i).Balanced ({.share i} + outside) := by
  obtain ⟨x, hget, hx⟩ := hi
  obtain ⟨_, -, hthing, helder⟩ := hm.items.soundAt hget
  have hholds : ({ x with shares := x.shares + 1 } : Item).holds = x.holds := by
    rw [Item.holds, Item.holds, if_neg hx, if_neg (Nat.succ_ne_zero _)]
  have hall : holdsOf m.items = holdsOf (m.share i).items := by
    have h : holdsOf m.items = 0 + holdsOf (m.share i).items :=
      holdsOf_update hget (by rw [hholds, zero_add])
    rwa [zero_add] at h
  have hother : ∀ j, j ≠ i → Multiset.count (.share j) {Hold.share i} = 0 := by
    intro j hj
    rw [Multiset.count_singleton, if_neg fun heq => hj (by injection heq)]
  refine ⟨soundItems_update hm.items hget hthing helder ?_ ?_ ?_, ?_, fun h hmem => ?_⟩
  · rw [Multiset.count_singleton_self]
  · intro j hlt
    exact hother j (Nat.ne_of_gt hlt)
  · intro j hlt
    rw [hother j (Nat.ne_of_lt hlt), hholds, Nat.zero_add]
  · rw [← hall, add_assoc]
    exact hm.pool.congr fun n h _ => (count_buffer_share n h).symm
  · have hlen : m.items.length ≤ (m.share i).items.length := (Numbered.length_update ..).ge
    rw [← hall, add_assoc] at hmem
    rcases Multiset.mem_add.mp hmem with hmem | hmem
    · rw [Multiset.mem_singleton.mp hmem]
      obtain ⟨hpos, hle⟩ := Numbered.get?_isSome_iff.mp (Option.isSome_of_eq_some hget)
      exact ⟨hpos, hle.trans hlen⟩
    · exact (hm.known h hmem).of_length le_rfl hlen

/-- Replacing a view leaves outside what the new view does not hold; that of an item without shares
holds nothing. -/
theorem setView {v v' : View} {n : Nat} {left : Multiset Hold} (hm : m.Balanced outside)
    (hget : m.item? i = some ⟨.view v, n⟩) (hn : n = 0 → left = 0)
    (hv' : (Thing.view v).Sound → (Thing.view v').Sound)
    (hleft : (v.holds : Multiset Hold) = left + (v'.holds : Multiset Hold)) :
    (m.setView i v').Balanced (left + outside) := by
  obtain ⟨_, -, hthing, helder⟩ := hm.items.soundAt hget
  have hholds : ((⟨.view v, n⟩ : Item).holds : Multiset Hold) =
      left + ((⟨.view v', n⟩ : Item).holds : Multiset Hold) := by
    rw [Item.holds, Item.holds]
    by_cases h : n = 0
    · rw [if_pos h, if_pos h, hn h, zero_add]
    · rw [if_neg h, if_neg h]
      exact hleft
  have hall : holdsOf m.items = left + holdsOf (m.setView i v').items :=
    holdsOf_update (f := fun x => { x with thing := .view v' }) hget hholds
  have hmem : ∀ h, h ∈ left ∨ h ∈ v'.holds → h ∈ v.holds := by
    intro h hh
    rw [← Multiset.mem_coe, hleft, Multiset.mem_add]
    exact hh
  have hnewer : ∀ j, i ≤ j → left.count (.share j) = 0 := by
    intro j hle
    rw [Multiset.count_eq_zero]
    intro hj
    exact Nat.not_lt.mpr hle (helder j (hmem _ (.inl hj)))
  refine ⟨soundItems_update hm.items hget (hv' hthing) ?_ ?_ ?_ ?_, ?_, fun h hh => ?_⟩
  · intro j hj
    exact helder j (hmem _ (.inr hj))
  · rw [hnewer i le_rfl, Nat.add_zero]
  · intro j hlt
    exact hnewer j hlt.le
  · intro j _
    rw [← Multiset.coe_count (l := Item.holds ⟨.view v, n⟩), hholds, Multiset.count_add,
      Multiset.coe_count]
  · have hpool := hm.pool
    rw [hall, add_left_comm, ← add_assoc] at hpool
    exact hpool
  · rw [add_assoc, add_left_comm, ← hall] at hh
    exact (hm.known h hh).of_length le_rfl (Numbered.length_update ..).ge

/-- An item made over holds from outside takes them over. -/
theorem push {t : Thing} (hm : m.Balanced ((t.holds : Multiset Hold) + outside)) (ht : t.Sound) :
    Balanced { m with items := ⟨t, 1⟩ :: m.items } ({.share (next m.items)} + outside) := by
  have hzero : Multiset.count (.share (next m.items)) ((t.holds : Multiset Hold) + outside) = 0 :=
    hm.count_share_eq_zero (Nat.lt_succ_self _)
  rw [Multiset.count_add] at hzero
  refine ⟨⟨⟨?_, ht, fun j hj => ?_⟩, hm.items.congr fun j hle => ?_⟩, ?_, fun h hh => ?_⟩
  · rw [Multiset.count_add, Multiset.count_singleton_self, Nat.eq_zero_of_add_eq_zero_left hzero]
  · refine Nat.lt_succ_of_le (hm.known (.share j) ?_).2
    exact Multiset.mem_add.mpr (.inl (Multiset.mem_add.mpr (.inl hj)))
  · have hne : j ≠ next m.items := Nat.ne_of_lt (Nat.lt_succ_of_le hle)
    rw [add_assoc, count_share_of_ne hne, add_comm outside]
    rfl
  · have hall : holdsOf (⟨t, 1⟩ :: m.items) = (t.holds : Multiset Hold) + holdsOf m.items := rfl
    rw [hall, add_assoc, add_left_comm outside, ← add_assoc (t.holds : Multiset Hold)]
    exact hm.pool.congr fun n h _ => (count_buffer_share n h).symm
  · have hall : holdsOf (⟨t, 1⟩ :: m.items) = (t.holds : Multiset Hold) + holdsOf m.items := rfl
    rw [hall, add_assoc, add_left_comm outside, ← add_assoc (t.holds : Multiset Hold)] at hh
    rcases Multiset.mem_add.mp hh with hh | hh
    · rw [Multiset.mem_singleton.mp hh]
      exact ⟨Nat.succ_pos _, le_rfl⟩
    · exact (hm.known h hh).of_length le_rfl (Nat.le_succ _)

/-- Taking the shares of a thing that mentions living items completes its holds: those on buffers were
taken beforehand. -/
theorem shareAll {holds : List Hold} {m : Memory}
    (hm : m.Balanced ((holds.filter Hold.isOnBuffer : Multiset Hold) + outside))
    (hliving : ∀ j, .share j ∈ holds → m.Living j) :
    (m.shareAll holds).Balanced ((holds : Multiset Hold) + outside) := by
  induction holds generalizing m outside with
  | nil => exact hm
  | cons h rest ih =>
    have hliving' : ∀ j, .share j ∈ rest → m.Living j := fun j hj =>
      hliving j (List.mem_cons_of_mem _ hj)
    rw [← Multiset.cons_coe, ← Multiset.singleton_add, add_assoc, add_left_comm]
    cases h with
    | buffer id sort =>
      rw [List.filter_cons_of_pos rfl, ← Multiset.cons_coe, ← Multiset.singleton_add, add_assoc,
        add_left_comm] at hm
      exact ih hm hliving'
    | share i =>
      rw [List.filter_cons_of_neg Bool.false_ne_true] at hm
      have hshare := hm.share (hliving i List.mem_cons_self)
      rw [add_left_comm] at hshare
      exact ih hshare fun j hj => (hliving' j hj).share i

/-- A new item takes over the holds on buffers that were taken for it. -/
theorem add {t : Thing} (hm : m.Balanced ((t.holds.filter Hold.isOnBuffer : Multiset Hold) + outside))
    (ht : t.Sound) (hliving : ∀ j, .share j ∈ t.holds → m.Living j) :
    (m.add t).2.Balanced ({.share (m.add t).1} + outside) :=
  (hm.shareAll hliving).push ht

end Balanced

end Memory

end StridedViews
