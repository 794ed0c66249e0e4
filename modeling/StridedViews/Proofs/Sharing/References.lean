import StridedViews.Proofs.Sharing.Run

/-!
What the counts of a buffer count. After every run the references of a buffer are those that the
client has and those inside unreleased views, its pins are those of pin handles, of guards and of the
stores exported from it, and a buffer that still exists is released for one of two reasons only
(`Client.Run.references_accounted`).
-/

namespace StridedViews

variable {id : BufferId}

/-! ### What holds a buffer -/

/-- Whether a handle pins a buffer: a pin, or the guard of a view over it. -/
def Handle.isPinOf (id : BufferId) : Handle → Bool
  | .pin n | .guard _ (some n) => n = id
  | .buffer _ | .reference _ | .view _ | .guard _ none | .owner _ | .object _ => false

/-- Whether a store is exported from a buffer. -/
def Source.isOver (id : BufferId) : Source → Bool
  | .exported parent _ => parent = id
  | .owned _ | .foreign .. => false

/-- Whether a buffer is made over a store exported from another, and not torn down yet. -/
def Buffer.isOver (id : BufferId) (b : Buffer) : Bool :=
  match b.contents with
  | .live source => source.isOver id
  | .tornDown _ => false

/-- Whether an item lives and is an unreleased view through a reference to a buffer. -/
def Item.isViewOf (id : BufferId) (x : Item) : Bool :=
  x.shares ≠ 0 &&
    match x.thing with
    | .view v => !v.isReleased && v.buffer? = some id
    | .object _ | .text _ | .integer _ => false

theorem Handle.count_reference (h : Handle) :
    h.holds.count (.buffer id .reference) = if .reference (some id) = h then 1 else 0 := by
  rcases h with n | (_ | n) | n | i | ⟨i, _ | n⟩ | i | i <;> simp [Handle.holds, List.count_cons]
  exact ite_congr (propext eq_comm) (fun _ => rfl) fun _ => rfl

theorem Handle.count_pin (h : Handle) :
    h.holds.count (.buffer id .pin) = if h.isPinOf id then 1 else 0 := by
  rcases h with n | (_ | n) | n | i | ⟨i, _ | n⟩ | i | i <;>
    simp [Handle.holds, Handle.isPinOf, List.count_cons]

theorem Source.count_reference (source : Source) :
    source.holds.count (.buffer id .reference) = 0 := by
  cases source <;> simp [Source.holds]

theorem Source.count_pin (source : Source) :
    source.holds.count (.buffer id .pin) = if source.isOver id then 1 else 0 := by
  cases source <;> simp [Source.holds, Source.isOver, List.count_cons]

theorem Buffer.count_reference (b : Buffer) : b.holds.count (.buffer id .reference) = 0 := by
  rw [Buffer.holds]
  cases b.contents with
  | live source => exact source.count_reference
  | tornDown cause => rfl

theorem Buffer.count_pin (b : Buffer) :
    b.holds.count (.buffer id .pin) = if b.isOver id then 1 else 0 := by
  rw [Buffer.holds, Buffer.isOver]
  cases b.contents with
  | live source => exact source.count_pin
  | tornDown cause => rfl

theorem View.count_reference (v : View) :
    v.holds.count (.buffer id .reference) = if v.buffer? = some id then 1 else 0 := by
  rw [View.holds]
  cases v.buffer? <;> cases v.owner <;> simp [List.count_cons]

theorem View.count_pin (v : View) : v.holds.count (.buffer id .pin) = 0 := by
  rw [View.holds]
  cases v.buffer? <;> cases v.owner <;> simp

theorem HostObject.count_buffer (o : HostObject) (h : BufferHold) :
    o.holds.count (.buffer id h) = 0 := by
  rw [List.count_eq_zero, HostObject.holds, List.mem_append]
  rintro (hm | hm)
  · split at hm <;> simp at hm
  · cases hr : o.releasable <;> simp [hr] at hm

/-- A released view has no reference left, so only unreleased ones count. -/
theorem Item.count_reference {x : Item} (hx : x.thing.Sound) :
    x.holds.count (.buffer id .reference) = if x.isViewOf id then 1 else 0 := by
  rw [Item.holds, Item.isViewOf]
  by_cases hshares : x.shares = 0
  · simp [hshares]
  · rw [if_neg hshares]
    cases hthing : x.thing with
    | view v =>
      rw [hthing] at hx
      rw [Thing.holds, v.count_reference]
      cases hr : v.isReleased with
      | false => simp [hshares, hr]
      | true => simp [hx hr, hr]
    | object o => simp [Thing.holds, o.count_buffer]
    | text s => simp [Thing.holds]
    | integer i => simp [Thing.holds]

theorem Item.count_pin (x : Item) : x.holds.count (.buffer id .pin) = 0 := by
  rw [Item.holds]
  split
  · rfl
  · cases x.thing with
    | view v => exact v.count_pin
    | object o => exact o.count_buffer .pin
    | text s => rfl
    | integer i => rfl

/-! ### Counting them -/

/-- Where each member has at most one hold of a sort, the holds are counted by the members that have
one. -/
theorem count_bind_eq_countP {α : Type} {xs : Multiset α} {holds : α → List Hold} {h : Hold}
    {p : α → Prop} [DecidablePred p] (hp : ∀ x ∈ xs, (holds x).count h = if p x then 1 else 0) :
    (xs.bind fun x => (holds x : Multiset Hold)).count h = xs.countP p := by
  induction xs using Multiset.induction_on with
  | empty => rfl
  | cons x xs ih =>
    rw [Multiset.cons_bind, Multiset.count_add, Multiset.coe_count, hp x (Multiset.mem_cons_self ..),
      ih fun y hy => hp y (Multiset.mem_cons_of_mem hy), Multiset.countP_cons, Nat.add_comm]

theorem count_flatMap_eq_countP {α : Type} {xs : List α} {holds : α → List Hold} {h : Hold}
    {p : α → Bool} (hp : ∀ x ∈ xs, (holds x).count h = if p x then 1 else 0) :
    Multiset.count h (xs.flatMap holds : List Hold) = xs.countP p := by
  rw [← Multiset.coe_bind, count_bind_eq_countP hp, Multiset.coe_countP]
  exact List.countP_congr fun x _ => decide_eq_true_iff

namespace Client

variable {c : Client} {run : Run} {b : Buffer}

/-- What outside the pool counts on a buffer are the holds of the client and those of its items; the
rest are the pins of exported stores. -/
theorem Sound.count_eq (hs : c.Sound) (hb : c.pool.get? id = some b) (h : BufferHold) :
    b.count h = c.holds.count (.buffer id h) + (holdsOf c.memory.items).count (.buffer id h) +
      (c.pool.buffers.flatMap Buffer.holds).count (.buffer id h) := by
  rw [hs.balanced.pool.buffers.count_eq (fun n x hx m g hm => hs.sized.elder hx hm) hb,
    Multiset.count_add, Multiset.count_add, Multiset.coe_count]
  rfl

theorem Sound.attached_eq (hs : c.Sound) (hb : c.pool.get? id = some b) :
    b.attached =
      c.handles.count (.reference (some id)) + c.memory.items.countP (·.isViewOf id) := by
  have hstores :
      (c.stores.bind fun s => (s.holds : Multiset Hold)).count (.buffer id .reference) = 0 := by
    rw [Multiset.count_eq_zero, Multiset.mem_bind]
    rintro ⟨s, -, hm⟩
    exact List.count_eq_zero.mp s.source.count_reference hm
  have hbuffers : (c.pool.buffers.flatMap Buffer.holds).count (.buffer id .reference) = 0 := by
    rw [List.count_eq_zero, List.mem_flatMap]
    rintro ⟨x, -, hm⟩
    exact List.count_eq_zero.mp x.count_reference hm
  have hitems : ∀ x ∈ c.memory.items,
      x.holds.count (.buffer id .reference) = if x.isViewOf id then 1 else 0 := by
    intro x hx
    obtain ⟨i, hget⟩ := Numbered.mem_iff_get?.mp hx
    obtain ⟨outside, hsound⟩ := hs.balanced.items.soundAt hget
    exact Item.count_reference hsound.thing
  have hcount := hs.count_eq hb .reference
  rw [hbuffers, Client.holds, Multiset.count_add, hstores,
    count_bind_eq_countP fun h _ => h.count_reference, holdsOf, count_flatMap_eq_countP hitems] at hcount
  exact hcount

theorem Sound.pins_eq (hs : c.Sound) (hb : c.pool.get? id = some b) :
    b.pins = c.handles.countP (fun h => h.isPinOf id) +
      c.stores.countP (fun s => s.source.isOver id) + c.pool.buffers.countP (·.isOver id) := by
  have hitems : (holdsOf c.memory.items).count (.buffer id .pin) = 0 := by
    rw [holdsOf, Multiset.coe_count, List.count_eq_zero, List.mem_flatMap]
    rintro ⟨x, -, hm⟩
    exact List.count_eq_zero.mp x.count_pin hm
  have hbuffers : (c.pool.buffers.flatMap Buffer.holds).count (.buffer id .pin) =
      c.pool.buffers.countP (·.isOver id) := by
    rw [← Multiset.coe_count]
    exact count_flatMap_eq_countP fun x _ => x.count_pin
  have hcount := hs.count_eq hb .pin
  rw [hitems, hbuffers, Client.holds, Multiset.count_add,
    count_bind_eq_countP fun h _ => h.count_pin,
    count_bind_eq_countP fun s _ => s.source.count_pin] at hcount
  exact hcount

namespace Run

/-! ### Why a buffer is released -/

/-- A call released the buffer, or tried to. -/
def WasReleased (run : Run) (id : BufferId) : Prop :=
  ∃ torn, (.releaseBuffer id, .flag torn) ∈ run.log

/-- A reference was attached to the buffer, by itself or for a view. -/
def WasAttached (run : Run) (id : BufferId) : Prop :=
  (.attach id, .done) ∈ run.log ∨
    ∃ l owner policy i, (.viewOver l id owner policy, .item i) ∈ run.log

theorem released_mem_deeds_iff : .released id ∈ run.deeds ↔ run.WasReleased id := by
  rw [deeds, List.mem_filterMap]
  constructor
  · rintro ⟨⟨op, outcome⟩, hm, hd⟩
    cases op <;> cases outcome <;> simp only [Op.deed, Option.some.injEq, reduceCtorEq] at hd
    cases hd
    exact ⟨_, hm⟩
  · rintro ⟨torn, hm⟩
    exact ⟨_, hm, rfl⟩

theorem attached_mem_deeds_iff : .attached id ∈ run.deeds ↔ run.WasAttached id := by
  rw [deeds, List.mem_filterMap]
  constructor
  · rintro ⟨⟨op, outcome⟩, hm, hd⟩
    cases op <;> cases outcome <;> simp only [Op.deed, Option.some.injEq, reduceCtorEq] at hd
    · cases hd
      exact .inl hm
    · cases hd
      exact .inr ⟨_, _, _, _, hm⟩
  · rintro (hm | ⟨l, owner, policy, i, hm⟩)
    · exact ⟨_, hm, rfl⟩
    · exact ⟨_, hm, rfl⟩

/-- A buffer that still exists is released if a call released it, or if it was attached once and is
not in use any more. -/
theorem isReleased_iff_of_isHeld (hs : run.client.Sound) (ht : run.Told)
    (hb : run.client.pool.get? id = some b) (hheld : b.isHeld = true) :
    b.isReleased = true ↔
      run.WasReleased id ∨ run.WasAttached id ∧ b.attached = 0 ∧ b.pins = 0 := by
  obtain ⟨s, r, hstory⟩ := ht.present id b hb
  obtain ⟨_, -, hsound⟩ := hs.balanced.pool.buffers.soundAt hb
  have hfate := hsound.fate
  rw [← released_mem_deeds_iff, ← attached_mem_deeds_iff, ← hstory.attached]
  constructor
  · intro hr
    obtain ⟨cause, hc⟩ := Buffer.isReleased_iff.mp hr
    rw [Buffer.Fate, hc] at hfate
    cases cause with
    | explicit => exact .inl (hstory.explicit hc)
    | deferred => exact .inr hfate
    | dropped => cases hheld.symm.trans hfate
  · rintro (hd | hidle)
    · exact hstory.released hd
    · rw [Buffer.Fate] at hfate
      cases hc : b.contents with
      | live source =>
        rw [hc] at hfate
        exact absurd hidle hfate.2
      | tornDown cause => exact Buffer.isReleased_iff.mpr ⟨cause, hc⟩

/-- After every run no count was ever lowered below zero, and every buffer that still exists counts
exactly the references and the pins that there are; it is released exactly if a call released it, or
if it was attached once and neither references nor pins are left. -/
theorem references_accounted (ops : List Op) :
    (of ops).client.pool.underflows = [] ∧
    ∀ id b, (of ops).client.pool.get? id = some b → b.isHeld = true →
      b.attached = (of ops).client.handles.count (.reference (some id)) +
        (of ops).client.memory.items.countP (·.isViewOf id) ∧
      b.pins = (of ops).client.handles.countP (fun h => h.isPinOf id) +
        (of ops).client.stores.countP (fun s => s.source.isOver id) +
        (of ops).client.pool.buffers.countP (·.isOver id) ∧
      (b.isReleased = true ↔
        (of ops).WasReleased id ∨ (of ops).WasAttached id ∧ b.attached = 0 ∧ b.pins = 0) := by
  have hs := sound ops
  refine ⟨hs.balanced.pool.faultless, fun id b hb hheld => ⟨hs.attached_eq hb, hs.pins_eq hb, ?_⟩⟩
  exact isReleased_iff_of_isHeld hs (told ops) hb hheld

/-- A buffer and one exported from it, each with a reference; first the one reference goes and then
the other. -/
def exportChain : List Op :=
  [.ownStore [1, 2], .makeBuffer (.owned [1, 2]) none, .attach 1, .exportStore 1 0 1,
    .makeBuffer ⟨.exported 1 0, 1, false⟩ none, .attach 2, .drop (.reference (some 1)),
    .drop (.reference (some 2))]

/-- The last reference to the exported buffer takes its pin with it, which releases the older
buffer. -/
theorem references_accounted_exportChain :
    ∃ b, (of exportChain).client.pool.get? 1 = some b ∧ b.isHeld = true ∧ b.attached = 0 ∧
      b.pins = 0 ∧ b.isReleased = true := by
  refine ⟨_, rfl, rfl, ?_⟩
  obtain ⟨hattached, hpins, hreleased⟩ := (references_accounted exportChain).2 1 _ rfl rfl
  refine ⟨hattached, hpins, hreleased.mpr (.inr ⟨.inl ?_, rfl, rfl⟩)⟩
  exact .tail _ (.tail _ (.head _))

end Run

end Client

end StridedViews
