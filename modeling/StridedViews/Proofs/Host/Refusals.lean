import StridedViews.Proofs.Host.Owned
import StridedViews.Proofs.Host.Run
import StridedViews.Proofs.Host.Stages

/-!
Refused makings. A making that is refused costs the host the owner that it was handed, if there is no
other share of that, and else nothing, unless it had made a buffer by then. That buffer goes as dropped,
and all that it leaves is what the books tell of it (`Guest.Run.refused_making_costs_owner`).
-/

namespace StridedViews

namespace Host

variable {host host' : Host} {bytes : List UInt8} {l : Layout}

/-- What a host is left with that has made a buffer in vain, as against what it was: one buffer more,
torn down for want of a holder, and books that tell of it. -/
structure Wasted (host : Host) (length : Nat) (host' : Host) : Prop where
  config : host'.config = host.config
  metrics : host'.metrics = host.metrics
  items : host'.memory.items = host.memory.items
  buffers : ∃ b, host'.memory.pool.buffers = b :: host.memory.pool.buffers ∧ b.length = length ∧
    b.contents = .tornDown .dropped ∧ b.isHeld = false
  givenBack : host'.memory.pool.givenBack = host.memory.pool.givenBack
  underflows : host'.memory.pool.underflows = host.memory.pool.underflows
  others : ∀ r, host.registry? ≠ some r →
    host'.memory.pool.registry r = host.memory.pool.registry r
  books : host'.books? = host.books?.map fun books =>
    { books with stats :=
      { books.stats with
        buffersCreated := books.stats.buffersCreated + 1
        bytesCreated := books.stats.bytesCreated + length
        droppedReleases := books.stats.droppedReleases + 1
        peakLiveBytes := max books.stats.peakLiveBytes (books.liveBytes + length) } }

theorem wasted_withWasted (host : Host) (bytes : List UInt8)
    (hown : ownRegistry < host.memory.pool.registries.length) :
    host.Wasted bytes.length (host.withWasted bytes) where
  config := rfl
  metrics := rfl
  items := rfl
  buffers := ⟨_, rfl, rfl, rfl, rfl⟩
  givenBack := Pool.givenBack_book ..
  underflows := Pool.underflows_book ..
  others r hr := (Pool.registry_push ..).trans (if_neg fun h => hr h.1)
  books := by
    have hbooks : (host.withWasted bytes).books? = host.books?.map _ :=
      books?_of_push hown rfl rfl rfl
    rw [hbooks]
    simp only [Registry.recordTeardown_recordCreated]
    rfl

/-- The buffer that a making calls for: its bytes, and the layout to view them by, if there is one. -/
def Making.buffer? (c : Config) : Making → Option (Except LayoutError (List UInt8 × Layout))
  | .overBuffer .. | .aliased .. | .ofObject .. => none
  | .allocate formatText shape => some
      ((Layout.rowMajor formatText shape c.defaultReadOnly).map fun l =>
        (List.replicate l.length 0, l))
  | .adopt bytes parts => some ((Layout.ofParts parts).map fun l => (bytes, l))

/-- Makes an owned view, if there is a layout. -/
def planned (host : Host) :
    Except LayoutError (List UInt8 × Layout) → Except HostError ItemId × Host
  | .ok (bytes, l) => host.viewOwned bytes l
  | .error e => (.error (.layout e), host)

theorem make_of_buffer? {making : Making} {plan : Except LayoutError (List UInt8 × Layout)}
    (h : making.buffer? host.config = some plan) : host.make making = host.planned plan := by
  cases making with
  | overBuffer | aliased | ofObject => cases h
  | allocate formatText shape =>
    cases h
    rw [make, allocate]
    cases Layout.rowMajor formatText shape host.config.defaultReadOnly <;> rfl
  | adopt bytes parts =>
    cases h
    rw [make, adopt]
    cases Layout.ofParts parts <;> rfl

theorem wasted_of_viewOwned_error {e : HostError}
    (hown : ownRegistry < host.memory.pool.registries.length)
    (h : host.viewOwned bytes l = (.error e, host')) : host.Wasted bytes.length host' := by
  rcases host.viewOwned_cases bytes l with ⟨-, heq⟩ | ⟨-, e', heq⟩
  · cases heq.symm.trans h
  · cases heq.symm.trans h
    exact host.wasted_withWasted bytes hown

end Host

/-- A making that works on what there is, and is refused, costs the share of the owner that was handed
over. An object is handed over by the host itself, which keeps another share. -/
theorem Guest.eq_of_make_error {σ : Type} {g : Guest σ} {making : Host.Making} {e : HostError}
    {host' : Host} (hnone : making.buffer? g.host.config = none) (hthere : making.there g.client = true)
    (h : g.host.make making = (.error e, host')) :
    host' = g.host.giveUp (Hold.ofOwner making.owner) := by
  cases making with
  | overBuffer l id owner => exact Host.eq_of_viewOver_error h
  | aliased l bytes owner => exact Host.eq_of_viewAliased_error h
  | allocate | adopt => cases hnone
  | ofObject i o =>
    obtain ⟨hi, -⟩ := (Bool.and_eq_true _ _).mp hthere
    have ho : g.client.hasOwner (some i) = true := hi
    have hliving : ∀ j, some i = some j → g.host.memory.Living j := Client.living_of_hasOwner ho
    have hsame : g.host.giveUp (Hold.ofOwner none) = g.host := g.host.giveUp_nil
    rw [Host.make, Host.viewOfObject] at h
    rw [Host.Making.owner, hsame]
    split at h
    · cases h
      rfl
    · split at h
      · cases h
        rfl
      · exact (Host.eq_of_viewAliased_error h).trans (Host.giveUp_lend hliving)

namespace Guest.Run

variable {σ : Type} {raise : RaiseHandler σ} {config : Config} {host : Host} {raiser : σ} {ops : List Op}

/-- At any time, a making that is refused and that works on a buffer that there is, on given bytes or on
an object gives up the share of the owner that it was handed, with all that goes away with it, and
changes and counts nothing else. So where it was handed no owner, nothing changes; and where the owner has
another share, no buffer does, nor the books of any registry, nor any view. A host that tracks its buffers
and is to make one itself changes nothing where the layout is refused; else the buffer is made, and
whatever refuses the view, the host is left with no more than a buffer that was dropped. -/
theorem refused_making_costs_owner {making : Host.Making} {e : HostError} {host' : Host}
    (hhost : Host.create config = .ok host) (htrack : config.trackStats = true)
    (hrefused : (Host.Staged.of making).run (of raise host raiser ops).guest.host = (.error e, host')) :
    (making.buffer? config = none → making.there (of raise host raiser ops).guest.client = true →
      host' = (of raise host raiser ops).guest.host.giveUp (Hold.ofOwner making.owner) ∧
        host'.metrics = (of raise host raiser ops).guest.host.metrics ∧
        (making.owner = none → host' = (of raise host raiser ops).guest.host) ∧
        ((∀ i, making.owner = some i → (of raise host raiser ops).memory.Shared i) →
          host'.memory.pool = (of raise host raiser ops).memory.pool ∧
          host'.books? = (of raise host raiser ops).guest.host.books? ∧
            ∀ j, host'.memory.view? j = (of raise host raiser ops).memory.view? j ∧
              ((of raise host raiser ops).memory.Living j → host'.memory.Living j))) ∧
      (∀ e', making.buffer? config = some (.error e') →
        e = .layout e' ∧ host' = (of raise host raiser ops).guest.host) ∧
      ∀ bytes l, making.buffer? config = some (.ok (bytes, l)) →
        (∃ books, (of raise host raiser ops).guest.host.books? = some books) ∧
          (of raise host raiser ops).guest.host.Wasted bytes.length host' := by
  have hconfig : (of raise host raiser ops).guest.host.config = config := by
    rw [config_eq, Host.create_eq_ok hhost]
  have hown := ownRegistry_lt raise hhost raiser ops
  simp only [memory]
  generalize (of raise host raiser ops).guest = g at hrefused hconfig hown ⊢
  subst hconfig
  rw [Host.Staged.run_of] at hrefused
  refine ⟨fun hnone hthere => ?_, fun e' hplan => ?_, fun bytes l hplan => ?_⟩
  · obtain rfl := eq_of_make_error hnone hthere hrefused
    refine ⟨rfl, rfl, fun howner => ?_, fun hshared => ?_⟩
    · rw [howner]
      exact g.host.giveUp_nil
    · have hpool : (g.host.giveUp (Hold.ofOwner making.owner)).memory.pool = g.host.memory.pool :=
        Memory.pool_giveUp_ofOwner hshared
      refine ⟨hpool, ?_, fun j => ⟨Memory.view?_giveUp .., fun hj => hj.giveUp_ofOwner hshared⟩⟩
      rw [Host.books?, hpool]
      rfl
  · rw [Host.make_of_buffer? hplan] at hrefused
    cases hrefused
    exact ⟨rfl, rfl⟩
  · rw [Host.make_of_buffer? hplan] at hrefused
    exact ⟨⟨_, (Host.books?_of_trackStats htrack).2⟩, Host.wasted_of_viewOwned_error hown hrefused⟩

/-- Two bytes asked of a buffer of one: the layout is fine, and the buffer too short for it. -/
def twoOfOne : Host.Making := .adopt [7] ⟨2, true, 1, "B", [2], none, [], 0⟩

/-- A view of one byte that the host has made, and its buffer. -/
def viewOfOneByte : List Op :=
  [.make (.allocate "B" [1]), .own (.share (.buffer 1))]

/-- The buffer that is made in vain goes; the view that is handed over as an owner stays where there is
another share of it. -/
theorem refused_making_costs_owner_twoOfOne :
    (∃ host', (Host.Staged.of twoOfOne).run (standard viewOfOneByte).guest.host =
        (.error (.view (.outOfBounds 0 2 1)), host') ∧
      (standard viewOfOneByte).guest.host.Wasted 1 host') ∧
    ∃ host', (Host.Staged.of (.overBuffer (Layout.bytes 2 true) 1 (some 1))).run
        (standard (viewOfOneByte ++ [.own (.share (.view 1))])).guest.host =
          (.error (.view (.outOfBounds 0 2 1)), host') ∧
      host'.memory.pool = (standard (viewOfOneByte ++ [.own (.share (.view 1))])).memory.pool ∧
      host'.memory.Living 1 := by
  have hhost : Host.create {} = .ok .standard := rfl
  constructor
  · have hrefused : (Host.Staged.of twoOfOne).run (standard viewOfOneByte).guest.host =
        (.error (.view (.outOfBounds 0 2 1)), _) := rfl
    have hl : Layout.ofParts ⟨2, true, 1, "B", [2], none, [], 0⟩ = .ok (Layout.bytes 2 true) := by
      decide
    have hplan : twoOfOne.buffer? {} = some (.ok ([7], Layout.bytes 2 true)) := by
      rw [twoOfOne, Host.Making.buffer?, hl]
      rfl
    exact ⟨_, hrefused, ((refused_making_costs_owner hhost rfl hrefused).2.2 _ _ hplan).2⟩
  · have hrefused : (Host.Staged.of (.overBuffer (Layout.bytes 2 true) 1 (some 1))).run
        (standard (viewOfOneByte ++ [.own (.share (.view 1))])).guest.host =
          (.error (.view (.outOfBounds 0 2 1)), _) := rfl
    have hshared : ∀ i, some 1 = some i →
        (standard (viewOfOneByte ++ [.own (.share (.view 1))])).memory.Shared i := by
      rintro _ ⟨⟩
      exact ⟨_, rfl, by decide⟩
    obtain ⟨-, -, -, hkept⟩ := (refused_making_costs_owner hhost rfl hrefused).1 rfl rfl
    obtain ⟨hpool, -, hviews⟩ := hkept hshared
    exact ⟨_, hrefused, hpool, (hviews 1).2 ⟨_, rfl, by decide⟩⟩

/-- Where the view is all there is of it, it goes, and takes its reference along: the buffer that was to
get another view is torn down, though its handle is kept, and the books of the host tell of it. -/
theorem refused_view_moves_books :
    (Host.Making.overBuffer (Layout.bytes 2 true) 1 (some 1)).there
        (standard viewOfOneByte).guest.client = true ∧
      ∃ b b' books books' host',
        (Host.Staged.of (.overBuffer (Layout.bytes 2 true) 1 (some 1))).run
            (standard viewOfOneByte).guest.host = (.error (.view (.outOfBounds 0 2 1)), host') ∧
          (standard viewOfOneByte).memory.pool.get? 1 = some b ∧ b.isReleased = false ∧
          b.attached = 1 ∧
          host'.memory.pool.get? 1 = some b' ∧ b'.isReleased = true ∧ b'.attached = 0 ∧
          (standard viewOfOneByte).guest.host.books? = some books ∧ books.liveBuffers = 1 ∧
          books.stats.deferredReleases = 0 ∧
          host'.books? = some books' ∧ books'.liveBuffers = 0 ∧ books'.stats.deferredReleases = 1 :=
  ⟨rfl, _, _, _, _, _, rfl, rfl, rfl, rfl, rfl, rfl, rfl, rfl, rfl, rfl, rfl, rfl, rfl⟩

end Guest.Run

end StridedViews
