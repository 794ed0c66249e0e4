import StridedViews.Host
import StridedViews.Proofs.Sharing.Reach

/-!
What a host does to the memory of its clients. Whatever a host is asked to make, a client of the same
memory makes by operations of its own: where the host makes a buffer, the client makes the buffer, makes
the view over it, and drops the handle of the buffer. The client knows nothing of the host's
configuration and metrics.
-/

namespace StridedViews

namespace Host

variable {σ : Type} {i : ItemId} {id : BufferId} {host host' : Host} {l : Layout}
  {owner : Option ItemId} {v : View} {bytes : List UInt8}

theorem checkRank_eq_ok_iff : host.checkRank l = .ok () ↔ l.rank ≤ host.config.maxDimensions := by
  rw [checkRank]
  split
  · next h => exact iff_of_false (fun h => nomatch h) (Nat.not_le.mpr h)
  · next h => exact iff_of_true rfl (Nat.not_lt.mp h)

section Making

variable {make : Memory → Except ViewError ItemId × Memory} {e : HostError}

/-- A host makes a view if its rank is within the limit and its memory makes it. -/
theorem makeView_eq_ok_iff :
    host.makeView l owner make = (.ok i, host') ↔ l.rank ≤ host.config.maxDimensions ∧
      ∃ m, make host.memory = (.ok i, m) ∧ host' = host.countView m := by
  rw [makeView, ← checkRank_eq_ok_iff]
  cases host.checkRank l with
  | error e => simp
  | ok _ => rcases make host.memory with ⟨e | j, m⟩ <;> simp [eq_comm]

/-- Whatever refuses a view, the owner that was handed over is given up, and nothing else. -/
theorem eq_of_makeView_error
    (hmake : ∀ e m, make host.memory = (.error e, m) → m = host.memory.giveUp (Hold.ofOwner owner))
    (h : host.makeView l owner make = (.error e, host')) :
    host' = host.giveUp (Hold.ofOwner owner) := by
  rw [makeView] at h
  split at h
  · cases h
    rfl
  · split at h
    · cases h
    · next e' m hmade =>
      cases h
      rw [giveUp, hmake e' m hmade]

theorem viewOver_eq_ok_iff :
    host.viewOver l id owner = (.ok i, host') ↔ l.rank ≤ host.config.maxDimensions ∧
      ∃ m, host.memory.viewOver l id owner host.config.releasePolicy = (.ok i, m) ∧
        host' = host.countView m :=
  makeView_eq_ok_iff

theorem viewAliased_eq_ok_iff :
    host.viewAliased l bytes owner = (.ok i, host') ↔ l.rank ≤ host.config.maxDimensions ∧
      ∃ m, host.memory.viewAliased l bytes owner host.config.releasePolicy (ViewFlags.ofLayout l) =
          (.ok i, m) ∧ host' = host.countView m :=
  makeView_eq_ok_iff

theorem eq_of_viewOver_error (h : host.viewOver l id owner = (.error e, host')) :
    host' = host.giveUp (Hold.ofOwner owner) :=
  eq_of_makeView_error (fun _ _ hmade => Memory.eq_of_viewOver_error hmade) h

theorem eq_of_viewAliased_error (h : host.viewAliased l bytes owner = (.error e, host')) :
    host' = host.giveUp (Hold.ofOwner owner) :=
  eq_of_makeView_error (fun _ _ hmade => Memory.eq_of_viewAliased_error hmade) h

theorem giveUp_nil (host : Host) : host.giveUp [] = host :=
  congrArg (fun memory => { host with memory }) host.memory.giveUp_nil

/-- The share that was added for a host is given up again. -/
theorem giveUp_lend (howner : ∀ i, owner = some i → host.memory.Living i) :
    (host.lend owner).giveUp (Hold.ofOwner owner) = host :=
  congrArg (fun memory => { host with memory }) (Memory.giveUp_lend howner)

end Making

/-- A view of an object is one of the bytes that its buffer interface gives. -/
theorem viewOfObject_eq_ok {o : HostObject} {k : ItemId}
    (h : host.viewOfObject i o = (.ok k, host')) :
    ∃ source bytes, o.bytes = some source ∧ host.memory.bytesOf source = .ok bytes ∧
      (host.lend (some i)).viewAliased (Layout.bytes bytes.length true) bytes (some i) =
        (.ok k, host') := by
  rw [viewOfObject] at h
  split at h
  · cases h
  · next source hsource =>
    split at h
    · cases h
    · next bytes hbytes => exact ⟨source, bytes, hsource, hbytes, h⟩

/-- The registry of a host is one of the two that it starts with. -/
theorem registry?_lt (host : Host) : ∀ n, host.registry? = some n → n < 2 := by
  intro n hn
  unfold registry? at hn
  split at hn
  · cases hn
    exact Nat.one_lt_two
  · cases hn

/-- The host when it has made a buffer of some bytes. -/
def withBuffer (host : Host) (bytes : List UInt8) : Host :=
  { host with
    memory := { host.memory with pool := (host.memory.pool.create (.owned bytes) host.registry?).2 } }

/-- The host when the first handle of a buffer is dropped. -/
def dropHandle (host : Host) (id : BufferId) : Host := host.giveUp [.buffer id .handle]

/-- The buffer of an owned view gets the next number, and its first handle goes in the end. -/
theorem viewOwned_eq (host : Host) (bytes : List UInt8) (l : Layout) :
    host.viewOwned bytes l =
      let made := (host.withBuffer bytes).viewOver l (Numbered.next host.memory.pool.buffers) none
      (made.1, made.2.dropHandle (Numbered.next host.memory.pool.buffers)) :=
  rfl

/-- Reading changes nothing of a host but what it counts of it. -/
theorem exists_host_read (raise : RaiseHandler σ) (host : Host) (v : View) (raiser : σ) :
    ∃ n, ((host.read raise v).run raiser).1.2 = { host with metrics.bytesMaterialized := n } := by
  rw [Host.read, StateT.run_bind]
  rcases (Host.checkReleased raise v).run raiser with ⟨result, raiser'⟩
  cases result with
  | error r => exact ⟨_, rfl⟩
  | ok _ =>
    dsimp only [bind]
    cases v.read host.memory.pool with
    | error e => exact ⟨_, rfl⟩
    | ok bytes => exact ⟨_, rfl⟩

theorem memory_read (raise : RaiseHandler σ) (host : Host) (v : View) (raiser : σ) :
    ((host.read raise v).run raiser).1.2.memory = host.memory := by
  obtain ⟨n, hread⟩ := host.exists_host_read raise v raiser
  rw [hread]

/-- A host reads what its memory has of a view; that is no matter of the raise handler. -/
theorem read_of_read (raise : RaiseHandler σ) (raiser : σ) (hlive : v.isReleased = false)
    (hread : v.read host.memory.pool = .ok bytes) :
    (host.read raise v).run raiser = ((.ok bytes, { host with
      metrics.bytesMaterialized := host.metrics.bytesMaterialized + bytes.length }), raiser) := by
  have hcheck : (checkReleased raise v).run raiser = (.ok (), raiser) := by
    rw [checkReleased, hlive]
    rfl
  rw [read, StateT.run_bind, hcheck]
  dsimp only [bind]
  rw [hread]
  rfl

theorem release_of_release {m : Memory} (raise : RaiseHandler σ) (raiser : σ)
    (hrelease : host.memory.release i v = .ok (true, m)) :
    (host.release raise i v).run raiser = ((.ok true, { host with
      memory := m, metrics.viewsReleased := host.metrics.viewsReleased + 1 }), raiser) := by
  rw [release, hrelease]
  rfl

end Host

namespace Client

variable {σ : Type} {c : Client} {host : Host} {i : ItemId} {id : BufferId} {l : Layout}
  {owner : Option ItemId}

/-- The client when a host has done something to the memory: it has the view that was made. -/
def receive (c : Client) (made : Except HostError ItemId × Host) : Client :=
  match made.1 with
  | .ok i => (c.withMemory made.2.memory).keep (.view i)
  | .error _ => c.withMemory made.2.memory

/-- Where a view is refused, nothing is different from before. -/
theorem reaches_of_refused {made : Except HostError ItemId × Host}
    (howner : ∀ i, owner = some i → host.memory.Living i)
    (hrefused : ∀ e host', made = (.error e, host') →
      host' = (host.lend owner).giveUp (Hold.ofOwner owner))
    (hm : host.memory = c.memory)
    (hmade : ∀ i host', made = (.ok i, host') → c.Reaches (c.receive (.ok i, host'))) :
    c.Reaches (c.receive made) := by
  obtain ⟨e | i, host'⟩ := made
  · obtain rfl := hrefused e host' rfl
    rw [Host.giveUp_lend howner, receive, hm]
    exact .refl
  · exact hmade i host' rfl

theorem reaches_viewOver (hm : host.memory = c.memory) (hb : c.hasBuffer id = true)
    (ho : c.hasOwner owner = true) :
    c.Reaches (c.receive ((host.lend owner).viewOver l id owner)) := by
  have howner := living_of_hasOwner ho
  rw [← hm] at howner
  refine reaches_of_refused howner (fun _ _ h => Host.eq_of_viewOver_error h) hm fun i host' h => ?_
  obtain ⟨-, m, hmade, rfl⟩ := Host.viewOver_eq_ok_iff.mp h
  rw [Host.lend, hm] at hmade
  exact reaches_of_step _ (congrArg Prod.snd ((step_viewOver hb ho).trans (congrArg c.keepView hmade)))

theorem reaches_viewAliased {bytes : List UInt8} (hm : host.memory = c.memory)
    (ho : c.hasOwner owner = true) :
    c.Reaches (c.receive ((host.lend owner).viewAliased l bytes owner)) := by
  have howner := living_of_hasOwner ho
  rw [← hm] at howner
  refine reaches_of_refused howner (fun _ _ h => Host.eq_of_viewAliased_error h) hm fun i host' h => ?_
  obtain ⟨-, m, hmade, rfl⟩ := Host.viewAliased_eq_ok_iff.mp h
  rw [Host.lend, hm] at hmade
  exact reaches_of_step _ (congrArg Prod.snd ((step_viewAliased ho).trans (congrArg c.keepView hmade)))

theorem reaches_viewOfObject {o : HostObject} (hm : host.memory = c.memory) (hi : c.hasItem i = true) :
    c.Reaches (c.receive (host.viewOfObject i o)) := by
  have hself : c.withMemory host.memory = c := by rw [hm]; rfl
  rw [Host.viewOfObject]
  split
  · exact hself ▸ .refl
  · split
    · exact hself ▸ .refl
    · have ho : c.hasOwner (some i) = true := hi
      exact reaches_viewAliased hm ho

/-- If the view over a new buffer is refused, the buffer goes with its handle. -/
theorem Ready.reaches_viewOwned (hc : c.Ready) (hm : host.memory = c.memory) (bytes : List UInt8)
    (l : Layout) : c.Reaches (c.receive (host.viewOwned bytes l)) := by
  have hmade := hc.reaches_makeBuffer bytes host.registry?_lt
  have hid : (c.pool.create (.owned bytes) host.registry?).1 = Numbered.next host.memory.pool.buffers :=
    congrArg (fun m : Memory => Numbered.next m.pool.buffers) hm.symm
  have hmemory : (c.withPool (c.pool.create (.owned bytes) host.registry?).2).memory =
      (host.withBuffer bytes).memory := by
    rw [Host.withBuffer, hm]
    rfl
  rw [hid] at hmade
  set id := Numbered.next host.memory.pool.buffers with hnext
  set c₁ := c.withPool (c.pool.create (.owned bytes) host.registry?).2
  have hb := (hc.reaches hmade).hasBuffer (Multiset.mem_cons_self _ c.handles)
    (List.mem_singleton_self (Hold.buffer id .handle))
  have ho : (c₁.keep (.buffer id)).hasOwner none = true := rfl
  have hkept : (c₁.keep (.buffer id)).Reaches
      ((c₁.keep (.buffer id)).receive ((host.withBuffer bytes).viewOver l id none)) :=
    reaches_viewOver (c := c₁.keep (.buffer id)) hmemory.symm hb ho
  rw [Host.viewOwned_eq]
  generalize (host.withBuffer bytes).viewOver l id none = made at hkept ⊢
  obtain ⟨e | i, host'⟩ := made
  · exact (hmade.trans hkept).trans (reaches_dropBuffer (c₁.withMemory host'.memory) id)
  · -- the handle of the buffer is the older one of the two
    have hswap : (c₁.keep (.buffer id)).receive (.ok i, host') =
        (c₁.receive (.ok i, host')).keep (.buffer id) :=
      congrArg (fun hands => Client.mk host'.memory hands c.stores) (Multiset.cons_swap _ _ c.handles)
    rw [hswap] at hkept
    exact (hmade.trans hkept).trans (reaches_dropBuffer ..)

end Client

end StridedViews
