import StridedViews.Proofs.Host.Clients

/-!
Views over buffers of a host's own. Where the view is made, the new buffer is left with the view's
reference alone; where it is refused, the buffer has been made in vain and goes with its first handle,
as dropped (`Host.viewOwned_cases`).
-/

namespace StridedViews

open Numbered (next)

namespace Pool

variable {p : Pool} {b : Buffer} {older : List Buffer} {h : BufferHold} {f g : Registry → Registry}

theorem book_book (p : Pool) (r : Option RegistryId) (f g : Registry → Registry) :
    (p.book r f).book r g = p.book r (g ∘ f) := by
  cases r with
  | none => rfl
  | some r => simp only [book, List.modify_modify_eq]

/-- A pool with one more buffer, about which one more thing is entered into its books. -/
def push (p : Pool) (f : Registry → Registry) (b : Buffer) : Pool :=
  { p.book b.registry f with buffers := b :: p.buffers }

theorem create_eq_push (p : Pool) (s : Store) (r : Option RegistryId) :
    p.create s r = (next p.buffers, p.push (·.recordCreated s.length) (.ofStore s r)) := by
  cases r <;> rfl

/-- What is entered with a new buffer is entered into the books of its registry. -/
theorem registry_push (p : Pool) (f : Registry → Registry) (b : Buffer) (r : RegistryId) :
    (p.push f b).registry r =
      if b.registry = some r ∧ r < p.registries.length then f (p.registry r) else p.registry r :=
  p.registry_book b.registry f

/-- The newest buffer outlasts the end of a hold. -/
theorem letGo_push (hcount : b.count h ≠ 0) (hdue : b.due (.hold h) = none) :
    (p.push f b).letGo (next p.buffers) h = p.push f (b.lose h) := by
  have hfault : b.underflow (next p.buffers) (.hold h) = [] := if_neg hcount
  have hregistry : (b.lose h).registry = b.registry := by cases h <;> rfl
  simp only [push, letGo, bring, endBuffer, if_true, hfault, hdue, hregistry]
  rfl

/-- The newest buffer, which has bytes of its own, is torn down with the end of a hold. -/
theorem letGo_push_of_due {bytes : List UInt8} {cause : ReleaseCause} (hcount : b.count h ≠ 0)
    (hdue : b.due (.hold h) = some cause) (hc : b.contents = .live (.owned bytes)) :
    (p.push f b).letGo (next p.buffers) h =
      p.push (fun books => (f books).recordTeardown b.length cause)
        { b.lose h with contents := .tornDown cause } := by
  have hfault : b.underflow (next p.buffers) (.hold h) = [] := if_neg hcount
  have hregistry : (b.lose h).registry = b.registry := by cases h <;> rfl
  have hbooks := p.book_book b.registry f (·.recordTeardown b.length cause)
  simp only [push, letGo, bring, endBuffer, Buffer.after, if_true, hfault, hdue, hc, hregistry,
    List.nil_append, List.foldl_cons, List.foldl_nil, record]
  rw [show (fun books => (f books).recordTeardown b.length cause) =
    (·.recordTeardown b.length cause) ∘ f from rfl, ← hbooks]
  cases b.registry <;> rfl

end Pool

/-- A buffer that comes and goes leaves what is live as it was. -/
theorem Registry.recordTeardown_recordCreated (books : Registry) (length : Nat)
    (cause : ReleaseCause) : (books.recordCreated length).recordTeardown length cause =
      { books with stats := (books.recordCreated length).stats.addRelease cause } := by
  simp only [recordTeardown, recordCreated, Nat.add_sub_cancel]

/-! ### Owned views -/

namespace Host

variable {host host' : Host} {bytes : List UInt8} {l : Layout} {i : ItemId}

/-- The new buffer of a host. -/
def newBuffer (host : Host) (bytes : List UInt8) : Buffer :=
  .ofStore (.owned bytes) host.registry?

/-- The view over the newest buffer of a host. -/
def ownedView (host : Host) (l : Layout) : View :=
  .fresh l (.managed (some (next host.memory.pool.buffers))) none host.config.releasePolicy
    (ViewFlags.ofLayout l)

/-- The host when it has made a view over a new buffer, with what holds that buffer. -/
def withOwned (host : Host) (b : Buffer) (l : Layout) : Host :=
  host.countView
    { pool := host.memory.pool.push (·.recordCreated b.length) b
      items := ⟨.view (host.ownedView l), 1⟩ :: host.memory.items }

theorem view?_withOwned (host : Host) (b : Buffer) (l : Layout) :
    (host.withOwned b l).memory.view? (next host.memory.items) = some (host.ownedView l) :=
  Memory.view?_eq_some_iff.mpr ⟨1, Numbered.get?_cons_next ..⟩

/-- The host when it has made a buffer in vain. -/
def withWasted (host : Host) (bytes : List UInt8) : Host :=
  { host with
    memory.pool := host.memory.pool.push
      (fun books => (books.recordCreated bytes.length).recordTeardown bytes.length .dropped)
      { (host.newBuffer bytes).lose .handle with contents := .tornDown .dropped } }

theorem withBuffer_eq (host : Host) (bytes : List UInt8) :
    host.withBuffer bytes = { host with
      memory.pool := host.memory.pool.push (·.recordCreated bytes.length) (host.newBuffer bytes) } := by
  rw [withBuffer, Pool.create_eq_push]
  rfl

theorem dropHandle_eq (host : Host) (id : BufferId) :
    host.dropHandle id = { host with memory.pool := host.memory.pool.letGo id .handle } := by
  rw [dropHandle, giveUp, Memory.giveUp_buffer]

/-- A layout suits a new buffer of some bytes just if its extent does. -/
theorem checkBuffer_newBuffer {f : Registry → Registry} :
    View.checkBuffer (host.memory.pool.push f (host.newBuffer bytes)) (next host.memory.pool.buffers) l =
      .ok () ↔ Region.checkExtent l bytes.length = .ok () := by
  rw [View.checkBuffer_eq_ok_iff]
  constructor
  · rintro ⟨b, hget, -, -, hextent⟩
    obtain rfl : host.newBuffer bytes = b :=
      Option.some.inj ((Numbered.get?_cons_next ..).symm.trans hget)
    exact hextent
  · intro hextent
    exact ⟨host.newBuffer bytes, Numbered.get?_cons_next .., rfl, .inl rfl, hextent⟩

/-- The view over a new buffer is made if its rank is within the limit and its extent suits the bytes. -/
theorem viewOver_withBuffer_eq_ok_iff :
    (host.withBuffer bytes).viewOver l (next host.memory.pool.buffers) none = (.ok i, host') ↔
      (l.rank ≤ host.config.maxDimensions ∧ Region.checkExtent l bytes.length = .ok ()) ∧
        i = next host.memory.items ∧
        host' = host.withOwned ((host.newBuffer bytes).gain .reference) l := by
  have hattach : (host.memory.pool.push (·.recordCreated bytes.length) (host.newBuffer bytes)).attach
      (next host.memory.pool.buffers) =
      .ok (host.memory.pool.push (·.recordCreated bytes.length)
        ((host.newBuffer bytes).gain .reference)) := by
    refine Pool.hold_eq_ok_iff.mpr ⟨host.newBuffer bytes, Numbered.get?_cons_next .., rfl, ?_⟩
    simp only [Pool.push, Numbered.update, if_true]
    rfl
  rw [viewOver_eq_ok_iff, withBuffer_eq, and_assoc]
  refine and_congr_right fun _ => ?_
  simp only [Memory.viewOver_eq_ok_iff, checkBuffer_newBuffer, hattach]
  constructor
  · rintro ⟨m, ⟨hextent, _, ⟨⟩, heq⟩, rfl⟩
    obtain ⟨rfl, rfl⟩ := Prod.mk.inj heq
    exact ⟨hextent, rfl, rfl⟩
  · rintro ⟨hextent, rfl, rfl⟩
    exact ⟨_, ⟨hextent, _, rfl, rfl⟩, rfl⟩

/-- The view's reference keeps the buffer when its handle goes. -/
theorem dropHandle_withOwned (host : Host) (bytes : List UInt8) (l : Layout) :
    (host.withOwned ((host.newBuffer bytes).gain .reference) l).dropHandle
        (next host.memory.pool.buffers) =
      host.withOwned (((host.newBuffer bytes).gain .reference).lose .handle) l := by
  have hpool := Pool.letGo_push (p := host.memory.pool) (f := (·.recordCreated bytes.length))
    (b := (host.newBuffer bytes).gain .reference) (h := .handle) Nat.one_ne_zero rfl
  rw [dropHandle_eq]
  exact congrArg (fun pool => host.countView
    { pool, items := ⟨.view (host.ownedView l), 1⟩ :: host.memory.items }) hpool

/-- Without a view, the buffer goes with its handle. -/
theorem dropHandle_withBuffer (host : Host) (bytes : List UInt8) :
    (host.withBuffer bytes).dropHandle (next host.memory.pool.buffers) = host.withWasted bytes := by
  have hpool := Pool.letGo_push_of_due (p := host.memory.pool) (f := (·.recordCreated bytes.length))
    (b := host.newBuffer bytes) (h := .handle) Nat.one_ne_zero rfl rfl
  rw [withBuffer_eq, dropHandle_eq]
  exact congrArg (fun pool => ({ host with memory.pool := pool } : Host)) hpool

/-- A host either makes the view over its new buffer, or has made the buffer in vain. -/
theorem viewOwned_cases (host : Host) (bytes : List UInt8) (l : Layout) :
    (l.rank ≤ host.config.maxDimensions ∧ Region.checkExtent l bytes.length = .ok ()) ∧
        host.viewOwned bytes l = (.ok (next host.memory.items),
          host.withOwned (((host.newBuffer bytes).gain .reference).lose .handle) l) ∨
      ¬(l.rank ≤ host.config.maxDimensions ∧ Region.checkExtent l bytes.length = .ok ()) ∧
        ∃ e, host.viewOwned bytes l = (.error e, host.withWasted bytes) := by
  rw [viewOwned_eq]
  rcases hview : (host.withBuffer bytes).viewOver l (next host.memory.pool.buffers) none with
    ⟨e | i, host'⟩
  · obtain rfl : host' = host.withBuffer bytes :=
      (eq_of_viewOver_error hview).trans (host.withBuffer bytes).giveUp_nil
    refine .inr ⟨fun hsuits => ?_, e, congrArg (Prod.mk _) (host.dropHandle_withBuffer bytes)⟩
    rw [viewOver_withBuffer_eq_ok_iff.mpr ⟨hsuits, rfl, rfl⟩] at hview
    cases hview
  · obtain ⟨hsuits, rfl, rfl⟩ := viewOver_withBuffer_eq_ok_iff.mp hview
    exact .inl ⟨hsuits, congrArg (Prod.mk _) (host.dropHandle_withOwned bytes l)⟩

/-! ### The books -/

/-- A host that tracks its buffers has the books of a registry of its own. -/
theorem books?_of_trackStats (h : host.config.trackStats = true) :
    host.registry? = some ownRegistry ∧
      host.books? = some (host.memory.pool.registry ownRegistry) := by
  have hregistry : host.registry? = some ownRegistry := if_pos h
  exact ⟨hregistry, by rw [books?, hregistry, Option.map_some]⟩

/-- What is entered with a new buffer of a host is entered into the books that the host shows. -/
theorem books?_of_push {f : Registry → Registry} {b : Buffer}
    (hown : ownRegistry < host.memory.pool.registries.length) (hconfig : host'.config = host.config)
    (hb : b.registry = host.registry?) (hpool : host'.memory.pool = host.memory.pool.push f b) :
    host'.books? = host.books?.map f := by
  have hregistry : host'.registry? = host.registry? := by
    unfold registry?
    rw [hconfig]
  cases ht : host.config.trackStats with
  | false =>
    have hnone : host.registry? = none := if_neg (by simp [ht])
    rw [books?, books?, hregistry, hnone]
    rfl
  | true =>
    obtain ⟨hsome, hbooks⟩ := books?_of_trackStats ht
    rw [(books?_of_trackStats (hconfig ▸ ht)).2, hbooks, hpool, Pool.registry_push, hb,
      if_pos ⟨hsome, hown⟩, Option.map_some]

end Host

end StridedViews
