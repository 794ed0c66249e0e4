import StridedViews.Proofs.Sharing.Closing
import StridedViews.Proofs.Sharing.Effects

/-!
Nothing leaks. Items and buffers are held by newer ones and from outside only, so if nothing outside
holds any, all of them are gone, from the newest to the oldest (`SoundItems.shares_eq_zero`,
`SoundBuffers.isReleased`). Hence a client that drops all its handles and loose stores, in any order,
leaves nothing: every buffer is torn down and counted as such, and every store that was made is torn
down once, with its buffer or alone (`Client.Run.nothing_leaks`).
-/

namespace StridedViews

/-! ### Without holds from outside -/

/-- Items that nothing outside has shares of have none at all. -/
theorem SoundItems.shares_eq_zero {xs : List Item} (hs : SoundItems xs 0) :
    holdsOf xs = 0 ∧ ∀ i x, Numbered.get? xs i = some x → x.shares = 0 := by
  induction xs with
  | nil => exact ⟨rfl, fun _ _ h => nomatch h⟩
  | cons x older ih =>
    obtain ⟨hx, holder⟩ := hs
    have hshares : x.shares = 0 := hx.counted
    have hholds : x.holds = [] := if_pos hshares
    rw [hholds, Multiset.coe_nil, add_zero] at holder
    obtain ⟨hnone, hall⟩ := ih holder
    refine ⟨?_, fun i y hget => ?_⟩
    · rw [holdsOf, List.flatMap_cons, hholds]
      exact hnone
    · rw [Numbered.get?] at hget
      split at hget
      · cases hget
        exact hshares
      · exact hall i y hget

/-- Buffers that nothing outside holds are held by nothing at all, and torn down. -/
theorem SoundBuffers.isReleased {bs : List Buffer} (hs : SoundBuffers bs 0) :
    ∀ id b, Numbered.get? bs id = some b → b.isReleased = true ∧ b.isHeld = false := by
  induction bs with
  | nil => exact fun _ _ h => nomatch h
  | cons x older ih =>
    obtain ⟨hx, holder⟩ := hs
    have hheld : x.isHeld = false := by
      have hnone : ∀ h, x.count h = 0 := fun h => hx.counted h
      have hhandles := hnone .handle
      have hattached := hnone .reference
      have hpins := hnone .pin
      simp only [Buffer.count] at hhandles hattached hpins
      simp [Buffer.isHeld, hhandles, hattached, hpins]
    have hfate := hx.fate
    rw [Buffer.Fate] at hfate
    cases hc : x.contents with
    | live source =>
      rw [hc] at hfate
      cases hheld.symm.trans hfate.1
    | tornDown cause =>
      have hholds : x.holds = [] := by rw [Buffer.holds, hc]
      rw [hholds, Multiset.coe_nil, add_zero] at holder
      intro id b hget
      rw [Numbered.get?] at hget
      split at hget
      · cases hget
        exact ⟨Buffer.isReleased_iff.mpr ⟨cause, hc⟩, hheld⟩
      · exact ih holder id b hget

theorem Buffer.lent_of_isReleased {b : Buffer} (hr : b.isReleased = true) : b.lent = [] := by
  obtain ⟨cause, hc⟩ := isReleased_iff.mp hr
  rw [lent, hc]

namespace Client

variable {c : Client} {ops order : List Op}

/-! ### Dropping everything -/

/-- What drops the handles and the loose stores of a client. -/
def drops (c : Client) : Multiset Op := c.handles.map .drop + c.stores.map .dropStore

theorem drops_of_drop {h : Handle} (hh : h ∈ c.handles) :
    (c.step (.drop h)).1 ≠ .refused ∧ c.drops = .drop h ::ₘ (c.step (.drop h)).2.drops := by
  have hstep : c.step (.drop h) = (.done, (c.lose h).withMemory (c.memory.drop h)) :=
    if_pos (decide_eq_true hh)
  rw [hstep]
  refine ⟨(fun h => nomatch h), ?_⟩
  change c.handles.map _ + _ = _ ::ₘ ((c.handles.erase h).map _ + _)
  rw [← Multiset.cons_add, ← Multiset.map_cons, Multiset.cons_erase hh]
  rfl

theorem drops_of_dropStore {s : Store} (hs : s ∈ c.stores) :
    (c.step (.dropStore s)).1 ≠ .refused ∧
      c.drops = .dropStore s ::ₘ (c.step (.dropStore s)).2.drops := by
  have hstep : c.step (.dropStore s) = (.done, (c.withPool (c.pool.discard s)).loseStore s) :=
    if_pos (decide_eq_true hs)
  rw [hstep]
  refine ⟨(fun h => nomatch h), ?_⟩
  change _ + c.stores.map _ = _ ::ₘ (_ + (c.stores.erase s).map _)
  rw [← Multiset.add_cons, ← Multiset.map_cons, Multiset.cons_erase hs]
  rfl

/-- Handles and loose stores can be dropped in any order, and then there are none. -/
theorem allows_drops (horder : (order : Multiset Op) = c.drops) :
    c.Allows order ∧ (c.after order).handles = 0 ∧ (c.after order).stores = 0 := by
  induction order generalizing c with
  | nil =>
    have hcard : c.handles.card + c.stores.card = 0 := by
      simpa [drops] using (congrArg Multiset.card horder).symm
    have hhandles : c.handles.card = 0 := by omega
    have hstores : c.stores.card = 0 := by omega
    exact ⟨trivial, Multiset.card_eq_zero.mp hhandles, Multiset.card_eq_zero.mp hstores⟩
  | cons op rest ih =>
    have hop : op ∈ c.drops := horder ▸ List.mem_cons_self
    obtain ⟨hallowed, hdrops⟩ :
        (c.step op).1 ≠ .refused ∧ c.drops = op ::ₘ (c.step op).2.drops := by
      rcases Multiset.mem_add.mp hop with hop | hop
      · obtain ⟨h, hh, rfl⟩ := Multiset.mem_map.mp hop
        exact drops_of_drop hh
      · obtain ⟨s, hs, rfl⟩ := Multiset.mem_map.mp hop
        exact drops_of_dropStore hs
    rw [hdrops, ← Multiset.cons_coe, Multiset.cons_inj_right] at horder
    obtain ⟨hrest, hnone⟩ := ih horder
    exact ⟨⟨hallowed, hrest⟩, hnone⟩

namespace Run

variable {run : Run}

/-! ### The ledger of stores -/

/-- The stores that were made. -/
def storesMade (run : Run) : Multiset Store := (run.log.map fun entry => entry.2.stores).sum

/-- The stores that were used up, by being torn down alone or by a buffer made over them. -/
def storesUsed (run : Run) : Multiset Store := (run.log.map fun entry => entry.1.uses entry.2).sum

theorem storesUsed_extend (run : Run) (op : Op) :
    (run.extend op).storesUsed = run.storesUsed + op.uses (run.client.step op).1 := by
  simp [storesUsed, extend]

theorem storesMade_extend (run : Run) (op : Op) :
    (run.extend op).storesMade = run.storesMade + (run.client.step op).1.stores := by
  simp [storesMade, extend]

/-- Every store that was made is loose, or it was used up once. -/
theorem stores_add_used (ops : List Op) :
    (of ops).client.stores + (of ops).storesUsed = (of ops).storesMade := by
  refine of_induction (P := fun run => run.client.stores + run.storesUsed = run.storesMade) rfl
    (fun run op h => ?_) ops
  have hstores : (run.extend op).client.stores + op.uses (run.client.step op).1 =
      run.client.stores + (run.client.step op).1.stores := (run.client.effects_step op).stores
  rw [storesUsed_extend, storesMade_extend, ← h, ← add_assoc, add_right_comm, hstores,
    add_right_comm]

/-- The labels that were given back or are owed by buffers are those of the stores that were used
up. -/
theorem labels_eq (ops : List Op) :
    (of ops).client.pool.labels = (of ops).storesUsed.bind fun s => (s.lent : Multiset String) := by
  refine of_induction (P := fun run => run.client.pool.labels = run.storesUsed.bind fun s =>
    (s.lent : Multiset String)) rfl (fun run op h => ?_) ops
  rw [storesUsed_extend, Multiset.add_bind, ← h]
  exact (run.client.effects_step op).labels

/-! ### A client that has nothing left -/

/-- Nothing is left of what a run made. -/
structure Cleared (run : Run) : Prop where
  handles : run.client.handles = 0
  stores : run.client.stores = 0
  /-- Every item is gone. -/
  items : ∀ i x, run.client.memory.item? i = some x → x.shares = 0
  /-- Nothing holds a buffer, each is torn down, and what its store owed was given back once. -/
  buffers : ∀ id b, run.client.pool.get? id = some b → b.isHeld = false ∧ b.isReleased = true ∧
    ∃ s r, .made id s r ∈ run.deeds ∧ run.client.pool.returned id = s.lent
  /-- No registry has anything left, and each of its buffers was counted as released once. -/
  registries : ∀ r, (run.client.pool.registry r).liveBuffers = 0 ∧
    (run.client.pool.registry r).liveBytes = 0 ∧
    (run.client.pool.registry r).stats.explicitReleases +
        (run.client.pool.registry r).stats.deferredReleases +
        (run.client.pool.registry r).stats.droppedReleases =
      (run.client.pool.registry r).stats.buffersCreated
  /-- Every store was torn down alone or had one buffer made over it. -/
  used : run.storesUsed = run.storesMade
  /-- What was lent was given back once. -/
  givenBack : (run.client.pool.givenBack.map (·.label) : Multiset String) =
    run.storesMade.bind fun s => (s.lent : Multiset String)
  /-- No hold was given up that was not there. -/
  faultless : run.client.pool.underflows = []

/-- A client without handles and loose stores has nothing left. -/
theorem cleared_of_eq_zero (hhandles : (of ops).client.handles = 0)
    (hstores : (of ops).client.stores = 0) : (of ops).Cleared := by
  have hsound := sound ops
  have hholds : (of ops).client.holds = 0 := by
    rw [holds, hhandles, hstores]
    rfl
  have hbalanced := hsound.balanced
  rw [hholds] at hbalanced
  obtain ⟨hnone, hitems⟩ := hbalanced.items.shares_eq_zero
  have hpool := hbalanced.pool
  rw [hnone, add_zero] at hpool
  have hbuffers := hpool.buffers.isReleased
  have hreleased : ∀ b ∈ (of ops).client.pool.buffers, b.isReleased = true := by
    intro b hb
    obtain ⟨id, hget⟩ := Numbered.mem_iff_get?.mp hb
    exact (hbuffers id b hget).1
  have hused : (of ops).storesUsed = (of ops).storesMade := by
    rw [← stores_add_used, hstores, zero_add]
  refine ⟨hhandles, hstores, hitems, fun id b hget => ?_, fun r => ?_, hused, ?_, hpool.faultless⟩
  · obtain ⟨hr, hheld⟩ := hbuffers id b hget
    obtain ⟨s, r, hstory⟩ := (told ops).present id b hget
    have hreturned := hstory.returned
    rw [Buffer.lent_of_isReleased hr, List.append_nil, Buffer.lent_ofStore] at hreturned
    exact ⟨hheld, hr, s, r, hstory.made, hreturned⟩
  · have hlive : liveLengthsIn r (of ops).client.pool.buffers = [] :=
      List.flatMap_eq_nil_iff.mpr fun b hb => if_pos (hreleased b hb)
    obtain ⟨hcount, hbytes, -, -, hclosed⟩ := hsound.booked.agrees r
    rw [hlive] at hcount hbytes
    rw [hcount, List.length_nil, zero_add] at hclosed
    exact ⟨hcount, hbytes, hclosed.symm⟩
  · have howed : (of ops).client.pool.buffers.flatMap Buffer.lent = [] :=
      List.flatMap_eq_nil_iff.mpr fun b hb => Buffer.lent_of_isReleased (hreleased b hb)
    have hlabels := labels_eq ops
    rw [Pool.labels, howed, Multiset.coe_nil, add_zero, hused] at hlabels
    exact hlabels

/-- After any run, whatever chains of exported buffers, views, guards, references, pins and owners
there are, all handles and loose stores that are left can be dropped in any order, and then nothing is
left: every buffer is torn down and counted once, and every store was torn down once. -/
theorem nothing_leaks (horder : (order : Multiset Op) = (of ops).client.drops) :
    (of ops).client.Allows order ∧ (of (ops ++ order)).Cleared := by
  obtain ⟨hallows, hhandles, hstores⟩ := allows_drops horder
  rw [← client_of_append] at hhandles hstores
  exact ⟨hallows, cleared_of_eq_zero hhandles hstores⟩

/-- A chain of three buffers, a view of the last one as an object that owns an exported view of the
second one, a reference, a pin and a loose store. -/
def manyHandles : List Op :=
  let l : Layout := ⟨1, 1, .uint8, "B", [1], [1], [], false, 0⟩
  [.makeRegistry, .lendStore "lent" [1, 2, 3] false,
    .makeBuffer (.foreign "lent" [1, 2, 3] false) (some 0),
    .exportStore 1 0 2, .makeBuffer ⟨.exported 1 0, 2, false⟩ (some 0),
    .exportStore 2 0 1, .makeBuffer ⟨.exported 2 0, 1, false⟩ none,
    .viewOver l 3 none .bestEffort, .makeObject (.ofView 1),
    .viewOver l 2 (some 2) .rejectWhileExported, .acquire 3,
    .attach 1, .pin 2, .lendStore "loose" [9] true]

/-- Drops all that is left of it, the newest first. -/
def dropAll : List Op :=
  [.drop (.pin 2), .drop (.reference (some 1)), .drop (.guard 3 (some 2)), .drop (.view 3),
    .drop (.object 2), .drop (.view 1), .drop (.buffer 3), .drop (.buffer 2), .drop (.buffer 1),
    .dropStore (.foreign "loose" [9] true)]

theorem nothing_leaks_manyHandles :
    (of (manyHandles ++ dropAll.reverse)).Cleared ∧
      (of (manyHandles ++ dropAll.reverse)).client.pool.givenBack =
        [⟨none, "loose"⟩, ⟨some 1, "lent"⟩] := by
  have horder : (dropAll : Multiset Op) = (of manyHandles).client.drops := rfl
  rw [← Multiset.coe_reverse] at horder
  exact ⟨(nothing_leaks horder).2, rfl⟩

end Run

end Client

end StridedViews
