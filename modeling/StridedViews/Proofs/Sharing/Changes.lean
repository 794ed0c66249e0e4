import StridedViews.Proofs.Sharing.Effects
import StridedViews.Proofs.Storage.Endings

/-!
What one operation does to the pool. Whatever an operation is asked, it does one thing to the buffers
at most: it takes a hold, brings some holds to their end, releases a buffer, rewrites the bytes of a
writable one or makes a new one (`Client.change_step`).
-/

namespace StridedViews

/-- Holds that end one after the other; those on items are settled before. -/
theorem Memory.foldl_letGo_eq (holds : List Hold) (p : Pool) :
    ∃ ended : List (BufferId × BufferHold),
      holds.foldl letGo p = p.bringAll (ended.map fun h => (h.1, .hold h.2)) := by
  induction holds generalizing p with
  | nil => exact ⟨[], rfl⟩
  | cons h rest ih =>
    cases h with
    | buffer id sort =>
      obtain ⟨ended, hended⟩ := ih (p.letGo id sort)
      exact ⟨(id, sort) :: ended, hended⟩
    | share i => exact ih p

namespace Client

variable {c : Client} {op : Op} {o : Outcome} {i : ItemId}

/-- What an operation that ended in some way did to the pool. -/
def Changes (c : Client) (op : Op) (r : Outcome × Client) : Prop :=
  c.pool.Change (op.deed r.1) r.2.pool

/-- An operation without a deed. -/
theorem Changes.of_none {c' : Client} (hd : op.deed o = none) (h : c.pool.Change none c'.pool) :
    c.Changes op (o, c') := by
  rw [Changes, hd]
  exact h

/-- An operation that leaves the pool as it is. -/
theorem Changes.quiet {c' : Client} (hd : op.deed o = none) (h : c'.pool = c.pool) :
    c.Changes op (o, c') :=
  .of_none hd (h ▸ .quiet)

theorem changes_given {there : Bool} {act : Outcome × Client}
    (h : there = true → c.Changes op act) : c.Changes op (c.given there act) := by
  rw [given]
  split
  · next ht => exact h ht
  · exact .quiet (by cases op <;> rfl) rfl

theorem changes_attempt {ε : Type} {onError : ε → ViewError} {x : Except ε (Outcome × Client)}
    (h : ∀ r, x = .ok r → c.Changes op r) : c.Changes op (c.attempt onError x) := by
  cases x with
  | ok r => exact h r rfl
  | error e => exact .quiet (by cases op <;> rfl) rfl

theorem changes_onView {act : View → Outcome × Client}
    (h : ∀ v, c.Changes op (act v)) : c.Changes op (c.onView i act) := by
  rw [onView]
  split
  · next v _ => exact changes_given fun _ => h v
  · exact .quiet (by cases op <;> rfl) rfl

/-- An operation without a deed that gives up holds. -/
theorem changes_giveUp {c' : Client} (hd : op.deed o = none) (m : Memory) (holds : List Hold)
    (hm : m.pool = c.pool) (hc : c'.pool = (m.giveUp holds).pool) : c.Changes op (o, c') := by
  obtain ⟨ended, hended⟩ := Memory.foldl_letGo_eq (settleAll m.items holds).2 m.pool
  refine .of_none hd ?_
  rw [hc, Memory.giveUp, hended, hm]
  exact .giveUp ended

/-! ### The operations -/

theorem changes_exportStore (c : Client) (parent : BufferId) (start stop : Nat) :
    c.Changes (.exportStore parent start stop) (c.step (.exportStore parent start stop)) := by
  refine changes_given fun _ => changes_attempt fun r hr => ?_
  obtain ⟨⟨s, pool⟩, hexport, heq⟩ := bind_eq_ok_iff.mp hr
  cases heq
  rw [Pool.exportRange] at hexport
  split at hexport
  · cases hexport
  · split at hexport
    · cases hexport
    · obtain ⟨pool', hpin, heq⟩ := bind_eq_ok_iff.mp hexport
      cases heq
      exact .of_none rfl (.hold (h := .pin) hpin)

theorem changes_dropStore (c : Client) (s : Store) :
    c.Changes (.dropStore s) (c.step (.dropStore s)) := by
  refine changes_given fun _ => .of_none rfl ?_
  change c.pool.Change none (c.pool.discard s)
  rw [Pool.discard]
  cases s.source with
  | owned bytes => exact .quiet
  | foreign label bytes => exact .giveBack label
  | exported parent start => exact .giveUp [(parent, .pin)]

theorem changes_makeBuffer (c : Client) (s : Store) (r : Option RegistryId) :
    c.Changes (.makeBuffer s r) (c.step (.makeBuffer s r)) := by
  refine changes_given ?_
  intro hthere
  rw [Bool.and_eq_true] at hthere
  refine .create ?_
  rintro n rfl
  exact of_decide_eq_true hthere.2

theorem changes_writeBuffer (c : Client) (id : BufferId) (bytes : List UInt8) :
    c.Changes (.writeBuffer id bytes) (c.step (.writeBuffer id bytes)) := by
  refine changes_given fun _ => changes_attempt fun r hr => ?_
  obtain ⟨old, hold, heq⟩ := bind_eq_ok_iff.mp hr
  cases heq
  split
  · next hlen => exact .of_none rfl (.overwrite hold hlen)
  · exact .quiet rfl rfl

theorem changes_share (c : Client) (h : Handle) : c.Changes (.share h) (c.step (.share h)) := by
  cases h with
  | buffer id =>
    refine changes_given ?_
    intro hb
    obtain ⟨b, hb, hheld⟩ := hasBuffer_iff.mp hb
    exact .of_none rfl (.share hb hheld)
  | view i => exact changes_given fun _ => .quiet rfl rfl
  | owner i => exact changes_given fun _ => .quiet rfl rfl
  | object i => exact changes_given fun _ => .quiet rfl rfl
  | reference attached => exact .quiet rfl rfl
  | pin id => exact .quiet rfl rfl
  | guard i pinned => exact .quiet rfl rfl

theorem changes_viewOver (c : Client) (l : Layout) (id : BufferId) (owner : Option ItemId)
    (policy : ReleasePolicy) :
    c.Changes (.viewOver l id owner policy) (c.step (.viewOver l id owner policy)) := by
  refine changes_given fun hthere => ?_
  rw [Bool.and_eq_true] at hthere
  rcases Memory.viewOver_lend_cases (living_of_hasOwner hthere.2) l id policy with
    ⟨e, heq⟩ | ⟨pool, -, hattach, heq⟩
  · rw [heq]
    exact .quiet rfl rfl
  · have hpool : ((Memory.add { c.memory with pool }
        (.view (.fresh l (.managed (some id)) owner policy (ViewFlags.ofLayout l)))).2).pool = pool :=
      Memory.pool_add ..
    rw [heq]
    change c.pool.Change (some (.attached id)) _
    rw [← hpool] at hattach
    exact .hold (h := .reference) hattach

theorem changes_viewAliased (c : Client) (l : Layout) (bytes : List UInt8) (owner : Option ItemId)
    (policy : ReleasePolicy) (flags : ViewFlags) :
    c.Changes (.viewAliased l bytes owner policy flags)
      (c.step (.viewAliased l bytes owner policy flags)) := by
  refine changes_given fun howner => ?_
  rcases Memory.viewAliased_lend_cases (living_of_hasOwner howner) l bytes policy flags with
    ⟨e, heq⟩ | heq
  · rw [heq]
    exact .quiet rfl rfl
  · rw [heq]
    exact .quiet rfl (Memory.pool_add ..)

/-- A view that is refused gives up the reference. -/
theorem changes_viewThrough (c : Client) (l : Layout) (reference : Option BufferId)
    (owner : Option ItemId) (policy : ReleasePolicy) (flags : ViewFlags) :
    c.Changes (.viewThrough l reference owner policy flags)
      (c.step (.viewThrough l reference owner policy flags)) := by
  refine changes_given fun hthere => ?_
  rw [Bool.and_eq_true] at hthere
  rw [Memory.viewThrough]
  rcases Memory.newView_lend_cases (living_of_hasOwner hthere.2) l (.managed reference) policy
    flags with ⟨e, heq⟩ | ⟨-, heq⟩
  · rw [heq]
    exact changes_giveUp rfl c.memory _ rfl rfl
  · rw [heq]
    exact .quiet rfl (Memory.pool_add ..)

theorem changes_acquire (c : Client) (i : ItemId) : c.Changes (.acquire i) (c.step (.acquire i)) := by
  refine changes_onView fun v => changes_attempt fun r hr => ?_
  obtain ⟨⟨pinned, m⟩, hacquire, heq⟩ := bind_eq_ok_iff.mp hr
  cases heq
  obtain ⟨_, -, hacquire⟩ := bind_eq_ok_iff.mp hacquire
  dsimp only at hacquire
  cases hsource : v.source with
  | aliased bytes =>
    rw [hsource] at hacquire
    cases hacquire
    exact .quiet rfl rfl
  | managed buffer =>
    rw [hsource] at hacquire
    cases buffer with
    | none => cases hacquire
    | some id =>
      obtain ⟨pool, hpin, heq⟩ := bind_eq_ok_iff.mp hacquire
      cases heq
      exact .of_none rfl (.hold (h := .pin) (mapError_eq_ok_iff.mp hpin))

theorem changes_releaseView (c : Client) (i : ItemId) :
    c.Changes (.releaseView i) (c.step (.releaseView i)) := by
  refine changes_onView fun v => changes_attempt fun r hr => ?_
  obtain ⟨⟨released, m⟩, hrelease, heq⟩ := bind_eq_ok_iff.mp hr
  cases heq
  rcases Memory.release_cases hrelease with ⟨-, ⟨⟩⟩ | ⟨-, -, ⟨⟩⟩
  · exact .quiet rfl rfl
  · exact changes_giveUp rfl (c.memory.setView i v.released) v.holds rfl rfl

theorem changes_writeItem (c : Client) (i : ItemId) (index : List Nat) (item : List UInt8) :
    c.Changes (.writeItem i index item) (c.step (.writeItem i index item)) := by
  refine changes_onView fun v => changes_attempt fun r hr => ?_
  obtain ⟨m, hwrite, heq⟩ := bind_eq_ok_iff.mp hr
  cases heq
  obtain ⟨pool, hpool, heq⟩ := bind_eq_ok_iff.mp hwrite
  cases heq
  obtain ⟨id, old, new, hold, hlen, rfl⟩ := View.writeItem_eq_ok hpool
  exact .of_none rfl (.overwrite hold hlen)

/-- Every operation does one thing to the pool at most. -/
theorem change_step (c : Client) (op : Op) :
    c.pool.Change (op.deed (c.step op).1) (c.step op).2.pool := by
  change c.Changes op (c.step op)
  cases op with
  | makeRegistry => exact .of_none rfl .addRegistry
  | ownStore bytes => exact .quiet rfl rfl
  | lendStore label bytes readOnly => exact .quiet rfl rfl
  | exportStore parent start stop => exact c.changes_exportStore parent start stop
  | dropStore s => exact c.changes_dropStore s
  | makeBuffer s r => exact c.changes_makeBuffer s r
  | releaseBuffer id =>
    refine changes_given ?_
    intro hb
    obtain ⟨b, hb, -⟩ := hasBuffer_iff.mp hb
    exact .release hb
  | writeBuffer id bytes => exact c.changes_writeBuffer id bytes
  | pin id =>
    refine changes_given fun _ => changes_attempt fun r hr => ?_
    obtain ⟨pool, hpin, heq⟩ := bind_eq_ok_iff.mp hr
    cases heq
    exact .of_none rfl (.hold (h := .pin) hpin)
  | attach id =>
    refine changes_given fun _ => changes_attempt fun r hr => ?_
    obtain ⟨pool, hattach, heq⟩ := bind_eq_ok_iff.mp hr
    cases heq
    exact .hold (h := .reference) hattach
  | detach id =>
    exact changes_given fun _ => changes_giveUp rfl c.memory [.buffer id .reference] rfl rfl
  | share h => exact c.changes_share h
  | drop h =>
    exact changes_given fun _ =>
      changes_giveUp rfl (c.memory.unexport h) h.holds (c.memory.pool_unexport h) rfl
  | makeText s => exact .quiet rfl (Memory.pool_add ..)
  | makeInteger i => exact .quiet rfl (Memory.pool_add ..)
  | makeObject o => exact changes_given fun _ => .quiet rfl (Memory.pool_add ..)
  | viewOver l id owner policy => exact c.changes_viewOver l id owner policy
  | viewAliased l bytes owner policy flags => exact c.changes_viewAliased l bytes owner policy flags
  | viewThrough l reference owner policy flags =>
    exact c.changes_viewThrough l reference owner policy flags
  | setHash i h => exact changes_onView fun _ => .quiet rfl rfl
  | hash i =>
    refine changes_onView fun v => changes_attempt fun r hr => ?_
    obtain ⟨made, hmade, heq⟩ := bind_eq_ok_iff.mp hr
    obtain ⟨h, -, hmade⟩ := bind_eq_ok_iff.mp hmade
    cases hmade
    cases heq
    exact .quiet rfl rfl
  | beginExport i => exact changes_onView fun _ => .quiet rfl rfl
  | endExport i => exact changes_onView fun _ => .quiet rfl rfl
  | acquire i => exact c.changes_acquire i
  | releaseView i => exact c.changes_releaseView i
  | writeItem i index item => exact c.changes_writeItem i index item

end Client

end StridedViews
