import StridedViews.Proofs.Host.Owned
import StridedViews.Proofs.Host.Run
import StridedViews.Proofs.View.Filling

/-!
Allocation through a host. A host that is asked for a zeroed view makes it whenever there is a layout for
it of a rank within the limit: nothing that is checked later refuses it. The view is then all that keeps
its buffer, so that the buffer goes when the view is released, and only the statistics tell of it
(`Guest.Run.allocation_complete_and_self_cleaning`).
-/

namespace StridedViews

open Numbered (next)

namespace Host

variable {σ : Type} {host host' host₂ : Host} {formatText : String} {shape : List Nat} {l : Layout}
  {i : ItemId} {v : View} {bytes : List UInt8}

/-! ### Making -/

/-- The buffer of an owned view when the handle is gone that it was made with. -/
def heldBuffer (host : Host) (bytes : List UInt8) : Buffer :=
  ((host.newBuffer bytes).gain .reference).lose .handle

/-- The host when it has allocated a view. -/
def withAllocated (host : Host) (l : Layout) : Host :=
  host.withOwned (host.heldBuffer (List.replicate l.length 0)) l

/-- No check refuses a row-major layout but that of its rank. -/
theorem allocate_eq_ok_iff :
    host.allocate formatText shape = (.ok i, host') ↔
      ∃ l, Layout.rowMajor formatText shape host.config.defaultReadOnly = .ok l ∧
        shape.length ≤ host.config.maxDimensions ∧ i = next host.memory.items ∧
        host' = host.withAllocated l := by
  rw [allocate]
  cases hl : Layout.rowMajor formatText shape host.config.defaultReadOnly with
  | error e =>
    constructor
    · intro h
      cases h
    · rintro ⟨l, hl', -⟩
      cases hl'
  | ok l =>
    have hrank : l.rank ≤ host.config.maxDimensions ↔ shape.length ≤ host.config.maxDimensions := by
      rw [Layout.rank, Layout.shape_of_rowMajor hl]
    have hextent : Region.checkExtent l (List.replicate l.length (0 : UInt8)).length = .ok () := by
      rw [List.length_replicate]
      exact (Layout.filling_of_rowMajor hl).2
    rcases host.viewOwned_cases (List.replicate l.length 0) l with ⟨⟨hle, -⟩, heq⟩ | ⟨hnot, e, heq⟩
    · constructor
      · intro h
        cases heq.symm.trans h
        exact ⟨l, rfl, hrank.mp hle, rfl, rfl⟩
      · rintro ⟨_, ⟨⟩, -, rfl, rfl⟩
        exact heq
    · constructor
      · intro h
        cases heq.symm.trans h
      · rintro ⟨_, ⟨⟩, hle, -⟩
        exact absurd ⟨hrank.mpr hle, hextent⟩ hnot

/-! ### Reading and releasing -/

theorem read_ownedView (hl : l.Filling) :
    (host.ownedView l).read (host.withAllocated l).memory.pool =
      .ok (List.replicate l.length 0) := by
  have hbytes : (host.withAllocated l).memory.pool.bytes (next host.memory.pool.buffers) =
      .ok (List.replicate l.length 0) := if_pos rfl
  have hregion : (host.ownedView l).region (host.withAllocated l).memory.pool =
      .ok (List.replicate l.length 0) := mapError_eq_ok_iff.mpr hbytes
  rw [View.read, hregion]
  exact hl.gather List.length_replicate

/-- The memory of a host when its newest view, which it has allocated, is released. -/
def afterRelease (host : Host) (l : Layout) : Memory :=
  { ((host.withAllocated l).memory.setView (next host.memory.items) (host.ownedView l).released) with
    pool := host.memory.pool.push
      (fun books => (books.recordCreated l.length).recordTeardown l.length .deferred)
      { (host.heldBuffer (List.replicate l.length 0)).lose .reference with
        contents := .tornDown .deferred } }

/-- The view takes its buffer with it. -/
theorem release_ownedView (host : Host) (l : Layout) :
    (host.withAllocated l).memory.release (next host.memory.items) (host.ownedView l) =
      .ok (true, host.afterRelease l) := by
  have hlength : (host.heldBuffer (List.replicate l.length 0)).length = l.length :=
    List.length_replicate
  have hpool := Pool.letGo_push_of_due (p := host.memory.pool) (f := (·.recordCreated l.length))
    (b := host.heldBuffer (List.replicate l.length 0)) (h := .reference) Nat.one_ne_zero rfl rfl
  have hreleasable : (host.ownedView l).checkReleasable = .ok () :=
    if_neg fun h => Nat.lt_irrefl 0 h.2
  have hlive : (host.ownedView l).isReleased = false := rfl
  have hholds : (host.ownedView l).holds = [.buffer (next host.memory.pool.buffers) .reference] := rfl
  rw [Memory.release, hlive, hreleasable, hholds, Memory.giveUp_buffer]
  rw [hlength] at hpool
  refine congrArg (fun pool => Except.ok (true, { (host.withAllocated l).memory.setView
    (next host.memory.items) (host.ownedView l).released with pool })) (Eq.trans ?_ hpool)
  change (host.memory.pool.push (·.recordCreated (host.heldBuffer (List.replicate l.length 0)).length)
    _).letGo _ _ = _
  rw [hlength]

/-! ### Books -/

theorem books?_withAllocated (hown : ownRegistry < host.memory.pool.registries.length) :
    (host.withAllocated l).books? = host.books?.map (·.recordCreated l.length) := by
  have hlength : (host.heldBuffer (List.replicate l.length 0)).length = l.length :=
    List.length_replicate
  rw [← hlength]
  exact books?_of_push (b := host.heldBuffer (List.replicate l.length 0)) hown rfl rfl rfl

/-- The books of a host that has allocated a view and released it tell of a buffer that has come and
gone. -/
theorem books?_afterRelease (hown : ownRegistry < host.memory.pool.registries.length)
    (hconfig : host₂.config = host.config) (hmemory : host₂.memory = host.afterRelease l) :
    host₂.books? = host.books?.map fun books =>
      { books with stats :=
        { books.stats with
          buffersCreated := books.stats.buffersCreated + 1
          bytesCreated := books.stats.bytesCreated + l.length
          deferredReleases := books.stats.deferredReleases + 1
          peakLiveBytes := max books.stats.peakLiveBytes (books.liveBytes + l.length) } } := by
  rw [books?_of_push hown hconfig rfl (congrArg Memory.pool hmemory)]
  simp only [Registry.recordTeardown_recordCreated]
  rfl

/-! ### Allocation -/

/-- What a host has when it has allocated a view `v` for a layout: the view's reference is all that is
attached to a new buffer, which reads as zeros, and goes with the view. The host may have been used in
between for what is no matter of the memory, such as reading. -/
structure Allocated (host : Host) (l : Layout) (i : ItemId) (v : View) (host' : Host) : Prop where
  view : host'.memory.view? i = some v
  layout : v.layout = l
  buffer : ∃ id b, v.buffer? = some id ∧ host.memory.pool.get? id = none ∧
    host'.memory.pool.get? id = some b ∧ b.length = l.length ∧ b.isReleased = false ∧ b.attached = 1
  books : host'.books? = host.books?.map (·.recordCreated l.length)
  read : ∀ {σ : Type} (raise : RaiseHandler σ) (raiser : σ) (host₂ : Host),
    host₂.memory = host'.memory → ∃ host₃,
      (host₂.read raise v).run raiser = ((.ok (List.replicate l.length 0), host₃), raiser)
  release : ∀ {σ : Type} (raise : RaiseHandler σ) (raiser : σ) (host₂ : Host),
    host₂.config = host'.config → host₂.memory = host'.memory → ∃ host₃,
      (host₂.release raise i v).run raiser = ((.ok true, host₃), raiser) ∧
      host₃.books? = host.books?.map fun books =>
        { books with stats :=
          { books.stats with
            buffersCreated := books.stats.buffersCreated + 1
            bytesCreated := books.stats.bytesCreated + l.length
            deferredReleases := books.stats.deferredReleases + 1
            peakLiveBytes := max books.stats.peakLiveBytes (books.liveBytes + l.length) } }

theorem allocated_withAllocated (hl : l.Filling)
    (hown : ownRegistry < host.memory.pool.registries.length) :
    host.Allocated l (next host.memory.items) (host.ownedView l) (host.withAllocated l) where
  view := host.view?_withOwned ..
  layout := rfl
  buffer := ⟨_, host.heldBuffer (List.replicate l.length 0), rfl,
    Numbered.get?_eq_none (Nat.lt_succ_self _), Numbered.get?_cons_next .., List.length_replicate,
    rfl, rfl⟩
  books := books?_withAllocated hown
  read raise raiser host₂ hmemory := by
    have hread : (host.ownedView l).read host₂.memory.pool = _ := hmemory ▸ read_ownedView hl
    exact ⟨_, read_of_read raise raiser rfl hread⟩
  release raise raiser host₂ hconfig hmemory := by
    have hrelease := host.release_ownedView l
    rw [← hmemory] at hrelease
    exact ⟨_, release_of_release raise raiser hrelease, books?_afterRelease hown hconfig rfl⟩

end Host

/-! ### In runs -/

namespace Guest.Run

variable {σ : Type} {config : Config} {host : Host}

/-- At any time, a host that tracks its buffers allocates a view just if there is a row-major layout for
it and the rank is within the limit. The view has a buffer of its own with nothing but zeros, and when it
is released, the buffer goes with it, as deferred, and nothing of it stays live. -/
theorem allocation_complete_and_self_cleaning (raise : RaiseHandler σ)
    (hhost : Host.create config = .ok host) (htrack : config.trackStats = true) (raiser : σ)
    (ops : List Op) (formatText : String) (shape : List Nat) :
    ((∃ i host', (of raise host raiser ops).guest.host.allocate formatText shape = (.ok i, host')) ↔
      (∃ l, Layout.rowMajor formatText shape config.defaultReadOnly = .ok l) ∧
        shape.length ≤ config.maxDimensions) ∧
    (∃ books, (of raise host raiser ops).guest.host.books? = some books) ∧
    ∀ i host', (of raise host raiser ops).guest.host.allocate formatText shape = (.ok i, host') →
      ∃ l v, Layout.rowMajor formatText shape config.defaultReadOnly = .ok l ∧
        (of raise host raiser ops).guest.host.Allocated l i v host' := by
  have hconfig : (of raise host raiser ops).guest.host.config = config := by
    rw [config_eq, Host.create_eq_ok hhost]
  have hown := ownRegistry_lt raise hhost raiser ops
  generalize (of raise host raiser ops).guest.host = h at hconfig hown ⊢
  subst hconfig
  refine ⟨?_, ⟨_, (Host.books?_of_trackStats htrack).2⟩, fun i host' hmade => ?_⟩
  · simp only [Host.allocate_eq_ok_iff]
    constructor
    · rintro ⟨_, _, l, hl, hrank, -, -⟩
      exact ⟨⟨l, hl⟩, hrank⟩
    · rintro ⟨⟨l, hl⟩, hrank⟩
      exact ⟨_, _, l, hl, hrank, rfl, rfl⟩
  · obtain ⟨l, hl, -, rfl, rfl⟩ := Host.allocate_eq_ok_iff.mp hmade
    exact ⟨l, _, hl, Host.allocated_withAllocated (Layout.filling_of_rowMajor hl).1 hown⟩

/-- Six words of two bytes each, where two bytes are live already. -/
theorem allocation_complete_and_self_cleaning_sixWords :
    ∃ l i v host', (standard [.make (.allocate "B" [2])]).guest.host.allocate "H" [2, 3] =
        (.ok i, host') ∧
      l.length = 12 ∧ (standard [.make (.allocate "B" [2])]).guest.host.Allocated l i v host' := by
  have hhost : Host.create {} = .ok .standard := rfl
  obtain ⟨hiff, -, hmade⟩ := allocation_complete_and_self_cleaning RaiseHandler.plain hhost rfl ()
    [.make (.allocate "B" [2])] "H" [2, 3]
  obtain ⟨l, hl, hlength⟩ : ∃ l, Layout.rowMajor "H" [2, 3] false = .ok l ∧ l.length = 12 :=
    ⟨_, rfl, rfl⟩
  obtain ⟨i, host', heq⟩ := hiff.mpr ⟨⟨l, hl⟩, by decide⟩
  obtain ⟨l', v, hl', hallocated⟩ := hmade i host' heq
  cases hl.symm.trans hl'
  exact ⟨l, i, v, host', heq, hlength, hallocated⟩

end Guest.Run

end StridedViews
