import StridedViews.Proofs.Sharing.Stages

/-!
Calls that fail. Every call that can fail does stage by stage what an operation does that fails or
succeeds at once (`Call.run_eq`), so all that a call that failed leaves behind is that the owner is given
up that it was handed (`Client.Run.failed_call_costs_owner`). If that was all there was of the owner, even
the buffer may go with it that the call was to make a view of.
-/

namespace StridedViews

variable {α : Type}

/-- The calls that can fail, with what they return. -/
inductive Call : Type → Type
  /-- Makes a view of a buffer. -/
  | viewOver (l : Layout) (id : BufferId) (owner : Option ItemId) (policy : ReleasePolicy) :
      Call ItemId
  /-- Makes a buffer over the range from `start` to `stop` of another one. -/
  | exportBuffer (parent : BufferId) (start stop : Nat) (registry : Option RegistryId) : Call BufferId
  | attach (id : BufferId) : Call Unit
  | pin (id : BufferId) : Call Unit
  | acquire (i : ItemId) : Call (Option BufferId)
  | release (i : ItemId) : Call Bool
  | writeItem (i : ItemId) (index : List Nat) (item : List UInt8) : Call Unit
  | readItem (i : ItemId) (index : List Nat) : Call (List UInt8)
  | read (i : ItemId) : Call (List UInt8)
  | contentHash (i : ItemId) : Call Int

namespace Call

/-- The owner that a call is handed. -/
def owner : Call α → Option ItemId
  | viewOver _ _ owner _ => owner
  | exportBuffer .. | attach _ | pin _ | acquire _ | release _ | writeItem .. | readItem .. | read _
  | contentHash _ => none

/-- The stages of a call. -/
def stages : Call α → Staged α
  | viewOver l id owner policy => .viewOver l id owner policy
  | exportBuffer parent start stop registry => .exportBuffer parent start stop registry
  | attach id => .attach id
  | pin id => .pin id
  | acquire i => .acquire i
  | release i => .release i
  | writeItem i index item => .writeItem i index item
  | readItem i index => .readItem i index
  | read i => .read i
  | contentHash i => .contentHash i

/-- What a call returns, and the memory that it leaves. -/
def run (call : Call α) (m : Memory) : Except ViewError α × Memory := call.stages.run.run m

/-- The operation that a call comes to. It returns a memory only where it succeeds. -/
def operation : Call α → Memory → Except ViewError (α × Memory)
  | viewOver l id owner policy, m => do
    View.checkBuffer m.pool id l
    let pool ← (m.pool.attach id).mapError .buffer
    let v ← View.build pool l (.managed (some id)) owner policy (ViewFlags.ofLayout l)
    return Memory.put { m with pool } (.view v)
  | exportBuffer parent start stop registry, m => do
    let (s, pool) ← (m.pool.exportRange parent start stop).mapError .buffer
    let made := pool.create s registry
    return (made.1, { m with pool := made.2 })
  | attach id, m => do return ((), { m with pool := ← (m.pool.attach id).mapError .buffer })
  | pin id, m => do return ((), { m with pool := ← (m.pool.pin id).mapError .buffer })
  | acquire i, m => do m.acquire i (← m.viewAt i)
  | release i, m => do m.release i (← m.viewAt i)
  | writeItem i index item, m => do return ((), ← m.writeItem (← m.viewAt i) index item)
  | readItem i index, m => do return (← (← m.viewAt i).readItem m.pool index, m)
  | read i, m => do return (← (← m.viewAt i).read m.pool, m)
  | contentHash i, m => do m.contentHash i (← m.viewAt i)

variable {m : Memory}

/-- The stages of a call come to its operation, which gives up the owner where it fails. -/
theorem run_eq (hs : SizedBuffers m.pool.buffers)
    (hhash : ∀ i v, m.view? i = some v → v.cachedHash ≠ some (-1)) (call : Call α) :
    call.run m = m.orGiveUp (Hold.ofOwner call.owner) (call.operation m) := by
  cases call with
  | viewOver l id owner policy => exact Staged.run_viewOver l id owner policy m
  | exportBuffer parent start stop registry =>
    exact (Staged.run_exportBuffer parent start stop registry m).trans (Staged.atOnce_eq_orGiveUp ..)
  | attach id => exact (Staged.run_attach id m).trans (Staged.atOnce_eq_orGiveUp ..)
  | pin id => exact (Staged.run_pin id m).trans (Staged.atOnce_eq_orGiveUp ..)
  | acquire i => exact (Staged.run_acquire i m).trans (Staged.atOnce_eq_orGiveUp ..)
  | release i => exact (Staged.run_release i m).trans (Staged.atOnce_eq_orGiveUp ..)
  | writeItem i index item =>
    exact (Staged.run_writeItem hs i index item).trans (Staged.atOnce_eq_orGiveUp ..)
  | readItem i index => exact (Staged.run_readItem i index m).trans (Staged.atOnce_eq_orGiveUp ..)
  | read i => exact (Staged.run_read i m).trans (Staged.atOnce_eq_orGiveUp ..)
  | contentHash i =>
    exact (Staged.run_contentHash (hhash i)).trans (Staged.atOnce_eq_orGiveUp ..)

end Call

namespace Client.Run

/-- After any run, a call comes to its operation. -/
theorem run_call (ops : List Op) (call : Call α) :
    call.run (of ops).client.memory =
      (of ops).client.memory.orGiveUp (Hold.ofOwner call.owner)
        (call.operation (of ops).client.memory) :=
  call.run_eq (sound ops).sized fun _ _ hv => cachedHash_ne ops hv

/-- A call that is handed no owner is done at once. -/
theorem run_call_of_owner (ops : List Op) {call : Call α} (hnone : call.owner = none) :
    call.run (of ops).client.memory = Staged.atOnce call.operation (of ops).client.memory := by
  rw [run_call, hnone, Staged.atOnce_eq_orGiveUp]
  rfl

theorem run_call_eq_error_iff {ops : List Op} {call : Call α} {e : ViewError} {m' : Memory} :
    call.run (of ops).client.memory = (.error e, m') ↔
      call.operation (of ops).client.memory = .error e ∧
        m' = (of ops).client.memory.giveUp (Hold.ofOwner call.owner) := by
  rw [run_call, Memory.orGiveUp_eq_error_iff]

/-- After any run, a call fails exactly if the operation fails that it comes to, with the same error, and
then it leaves the memory as it was, but for the share of an owner that it was handed, which it gives up
with all that goes away with it. So a call that was handed no owner changes nothing; and where the owner
has another share, nothing goes away, and all buffers with their bytes, marks and counts, the books of all
registries and all views are as they were. -/
theorem failed_call_costs_owner {ops : List Op} {call : Call α} {e : ViewError} {m' : Memory} :
    (call.run (of ops).client.memory = (.error e, m') ↔
      call.operation (of ops).client.memory = .error e ∧
        m' = (of ops).client.memory.giveUp (Hold.ofOwner call.owner)) ∧
    (call.run (of ops).client.memory = (.error e, m') →
      (call.owner = none → m' = (of ops).client.memory) ∧
      ((∀ i, call.owner = some i → (of ops).client.memory.Shared i) →
        m'.pool = (of ops).client.memory.pool ∧
          ∀ j, m'.view? j = (of ops).client.memory.view? j ∧
            ((of ops).client.memory.Living j → m'.Living j))) := by
  refine ⟨run_call_eq_error_iff, fun hfailed => ?_⟩
  obtain ⟨-, rfl⟩ := run_call_eq_error_iff.mp hfailed
  refine ⟨fun hnone => ?_, fun hshared => ⟨Memory.pool_giveUp_ofOwner hshared, fun j => ⟨?_, ?_⟩⟩⟩
  · rw [hnone]
    exact Memory.giveUp_nil _
  · exact Memory.view?_giveUp ..
  · exact fun hj => hj.giveUp_ofOwner hshared

/-- A buffer in the books of a registry, and a view of its one byte. -/
def viewOfOneByte : List Op :=
  [.makeRegistry, .ownStore [7], .makeBuffer (.owned [7]) (some 0), .viewOver oneByte 1 none .bestEffort]

/-- The view is handed over as the owner of one of two bytes, and stays. -/
theorem failed_call_costs_owner_twoOfOne :
    ∃ m', (Call.viewOver (Layout.bytes 2 true) 1 (some 1) .bestEffort).run
        (of (viewOfOneByte ++ [.share (.view 1)])).client.memory = (.error (.outOfBounds 0 2 1), m') ∧
      m'.pool = (of (viewOfOneByte ++ [.share (.view 1)])).client.memory.pool ∧ m'.Living 1 := by
  have hfailed : (Call.viewOver (Layout.bytes 2 true) 1 (some 1) .bestEffort).run
      (of (viewOfOneByte ++ [.share (.view 1)])).client.memory = (.error (.outOfBounds 0 2 1), _) := rfl
  have hshared : ∀ i, some 1 = some i →
      (of (viewOfOneByte ++ [.share (.view 1)])).client.memory.Shared i := by
    rintro _ ⟨⟩
    exact ⟨_, rfl, by decide⟩
  obtain ⟨hpool, hall⟩ := (failed_call_costs_owner.2 hfailed).2 hshared
  exact ⟨_, hfailed, hpool, (hall 1).2 ⟨_, rfl, by decide⟩⟩

/-- Where that is all there is of the view, it goes, and takes its reference along: the buffer that was
to get another view is torn down, and the books tell of it. -/
theorem refused_view_tears_buffer_down :
    (of viewOfOneByte).client.hasBuffer 1 = true ∧ (of viewOfOneByte).client.hasOwner (some 1) = true ∧
    ∃ b b' m', (Call.viewOver (Layout.bytes 2 true) 1 (some 1) .bestEffort).run
        (of viewOfOneByte).client.memory = (.error (.outOfBounds 0 2 1), m') ∧
      (of viewOfOneByte).client.pool.get? 1 = some b ∧ b.isReleased = false ∧ b.attached = 1 ∧
      m'.pool.get? 1 = some b' ∧ b'.isReleased = true ∧ b'.attached = 0 ∧
      ((of viewOfOneByte).client.pool.registry 0).stats.deferredReleases = 0 ∧
      (m'.pool.registry 0).stats.deferredReleases = 1 :=
  ⟨rfl, rfl, _, _, _, rfl, rfl, rfl, rfl, rfl, rfl, rfl, rfl, rfl⟩

end Client.Run

end StridedViews
