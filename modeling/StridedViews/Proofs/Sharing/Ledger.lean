import Mathlib.Order.Bounds.Basic
import StridedViews.Proofs.Sharing.Run

/-!
The ledger of a run. After every run the books of a registry tell its history: what was ever made in
it, what of that is still there, by which cause the rest went, and how many bytes were live at most.
Every foreign store under a buffer of the registry is given back once if the buffer is released or
gone, and not at all before that (`Client.Run.books_balance`).
-/

namespace StridedViews

namespace Client

/-- The length of the buffer that an operation made in a registry, if it made one there. -/
def Op.registers (r : RegistryId) : Op → Outcome → Option Nat
  | .makeBuffer s (some r'), .buffer _ => if r' = r then some s.length else none
  | _, _ => none

theorem Op.registers_of_makesNone {op : Op} {outcome : Outcome} (r : RegistryId)
    (h : Deed.MakesNone (op.deed outcome)) : op.registers r outcome = none := by
  rw [Op.registers.eq_def]
  split
  · exact absurd rfl (h _ _ _)
  · rfl

theorem Op.registers_of_deed {op : Op} {outcome : Outcome} {id : BufferId} {s : Store}
    {r' : Option RegistryId} (r : RegistryId) (h : op.deed outcome = some (.made id s r')) :
    (op.registers r outcome).toList = if r' = some r then [s.length] else [] := by
  cases op <;> cases outcome <;> simp only [Op.deed, Option.some.injEq, reduceCtorEq] at h
  cases h
  cases r' with
  | none => rfl
  | some n => by_cases hn : n = r <;> simp [Op.registers, hn]

namespace Run

variable {run : Run} {op : Op} {ops past : List Op} {id : BufferId} {r : RegistryId}

/-- The lengths of the buffers that were made in a registry, in order. -/
def registered (run : Run) (r : RegistryId) : List Nat :=
  run.log.filterMap fun entry => entry.1.registers r entry.2

/-- The numbers of live bytes that the books of a registry have shown so far. -/
def liveHistory (ops : List Op) (r : RegistryId) : Set Nat :=
  {n | ∃ past, past <+: ops ∧ ((of past).client.pool.registry r).liveBytes = n}

/-! ### Everything that was made -/

theorem registered_extend (run : Run) (op : Op) (r : RegistryId) :
    (run.extend op).registered r =
      run.registered r ++ (op.registers r (run.client.step op).1).toList := by
  rw [registered, Run.extend, List.filterMap_append, registered]
  cases h : op.registers r (run.client.step op).1 <;> simp [h]

/-- The pool has the buffers that were made in a registry, newest first. -/
theorem lengthsIn_eq_reverse_registered (ops : List Op) (r : RegistryId) :
    lengthsIn r (of ops).client.pool.buffers = ((of ops).registered r).reverse := by
  refine of_induction (P := fun run =>
    lengthsIn r run.client.pool.buffers = (run.registered r).reverse) rfl (fun run op ih => ?_) ops
  have hmoves := (run.client.steps_step op).moves
  rw [registered_extend, List.reverse_append, ← ih]
  by_cases hd : Deed.MakesNone (op.deed (run.client.step op).1)
  · rw [Op.registers_of_makesNone r hd]
    exact (hmoves.keepsBooks hd).lengths r
  · obtain ⟨s, r', hdeed, -, heq⟩ := hmoves.create_of_makes hd
    have hpool : (run.extend op).client.pool = (run.client.pool.create s r').2 := heq
    rw [Op.registers_of_deed r hdeed, hpool, Pool.create, Pool.buffers_book, lengthsIn,
      List.flatMap_cons, ← lengthsIn, Buffer.entry, Buffer.ofStore]
    split <;> rfl

/-! ### The peak -/

theorem liveHistory_concat (ops : List Op) (op : Op) (r : RegistryId) :
    liveHistory (ops ++ [op]) r =
      insert ((of (ops ++ [op])).client.pool.registry r).liveBytes (liveHistory ops r) := by
  ext n
  simp only [liveHistory, List.prefix_concat_iff, Set.mem_ofPred_eq, Set.mem_insert_iff]
  constructor
  · rintro ⟨past, rfl | hpast, rfl⟩
    · exact .inl rfl
    · exact .inr ⟨past, hpast, rfl⟩
  · rintro (rfl | ⟨past, hpast, rfl⟩)
    · exact ⟨_, .inl rfl, rfl⟩
    · exact ⟨past, .inr hpast, rfl⟩

/-- The books remember the highest number of live bytes that there ever was. -/
theorem isGreatest_peakLiveBytes (ops : List Op) (r : RegistryId) :
    IsGreatest (liveHistory ops r) ((of ops).client.pool.registry r).stats.peakLiveBytes := by
  induction ops using List.reverseRecOn generalizing r with
  | nil =>
    refine ⟨⟨[], List.prefix_refl _, rfl⟩, ?_⟩
    rintro n ⟨past, hpast, rfl⟩
    rw [List.prefix_nil.mp hpast]
    exact le_rfl
  | append_singleton ops op ih =>
    have hle : ∀ r, ((of ops).client.pool.registry r).liveBytes ≤
        ((of ops).client.pool.registry r).stats.peakLiveBytes :=
      fun r => (ih r).2 ⟨ops, List.prefix_refl _, rfl⟩
    have hpeak := ((of ops).client.steps_step op).moves.peakLiveBytes hle r
    rw [liveHistory_concat, of_concat]
    rw [max_comm] at hpeak
    exact hpeak ▸ (ih r).insert _

/-- Bytes that were made once stay in the books. -/
theorem bytesCreated_le (ops later : List Op) (r : RegistryId) :
    ((of ops).client.pool.registry r).stats.bytesCreated ≤
      ((of (ops ++ later)).client.pool.registry r).stats.bytesCreated := by
  have htotal : ∀ ops : List Op, ((of ops).client.pool.registry r).stats.bytesCreated =
      ((of ops).registered r).sum := by
    intro ops
    rw [((sound ops).booked.agrees r).bytesCreated, lengthsIn_eq_reverse_registered,
      List.sum_reverse]
  rw [htotal, htotal]
  exact List.Sublist.sum_le_sum ((log_kept ops later).filterMap _).sublist fun _ _ => Nat.zero_le _

/-- No number of bytes in the books is ever above that of all bytes made, so while those fit into a
word, all do. -/
theorem peakLiveBytes_le_bytesCreated (ops : List Op) (r : RegistryId) :
    ((of ops).client.pool.registry r).stats.peakLiveBytes ≤
      ((of ops).client.pool.registry r).stats.bytesCreated := by
  obtain ⟨⟨past, ⟨later, rfl⟩, hlive⟩, -⟩ := isGreatest_peakLiveBytes ops r
  rw [← hlive]
  exact ((sound past).booked.agrees r).liveBytes_le.trans (bytesCreated_le past later r)

/-! ### Foreign stores -/

/-- The label of a foreign store is given back for the buffer that was made over it exactly when that
is torn down. -/
theorem returned_of_foreign {s : Store} {r : Option RegistryId} {label : String} {bytes : List UInt8}
    (hs : run.client.Sound) (ht : run.Told) (hmade : (.makeBuffer s r, .buffer id) ∈ run.log)
    (hsource : s.source = .foreign label bytes) :
    ∃ b, run.client.pool.get? id = some b ∧ b.registry = r ∧
      run.client.pool.returned id =
        if b.isReleased = true ∨ b.isHeld = false then [label] else [] := by
  have hdeed : .made id s r ∈ run.deeds := List.mem_filterMap.mpr ⟨_, hmade, rfl⟩
  cases hb : run.client.pool.get? id with
  | none => exact absurd rfl ((ht.absent id hb).1 _ hdeed)
  | some b =>
    obtain ⟨s', r', hstory⟩ := ht.present id b hb
    obtain ⟨rfl, rfl⟩ := hstory.only s r hdeed
    have hreturned := hstory.returned
    rw [Buffer.lent, Buffer.lent, Buffer.ofStore, hsource] at hreturned
    refine ⟨b, rfl, hstory.registry, ?_⟩
    cases hc : b.contents with
    | tornDown cause =>
      rw [hc, List.append_nil] at hreturned
      rw [hreturned, if_pos (.inl (Buffer.isReleased_iff.mpr ⟨cause, hc⟩))]
    | live source =>
      have hlive : b.isReleased = false := by rw [Buffer.isReleased, hc]
      obtain ⟨_, -, hsound⟩ := hs.balanced.pool.buffers.soundAt hb
      have hheld := hsound.fate
      rw [Buffer.Fate, hc] at hheld
      -- a live buffer still has the store that it was made over
      have ho := hstory.contents.resolve_left (by simp [hlive])
      rw [hc, hsource] at ho
      cases source <;> simp [Contents.outline, Source.outline] at ho
      rw [hc, ho.1] at hreturned
      rw [List.append_left_eq_self.mp hreturned, if_neg (by simp [hlive, hheld.1])]

/-! ### The balance -/

/-- After every run the books of a registry count the buffers that are not torn down and their bytes,
remember all that were ever made, account for each by being live or by the cause of its end, and know
the most bytes that were ever live. The foreign stores of its buffers are given back once each, when
their buffers are released or gone. -/
theorem books_balance (ops : List Op) (r : RegistryId) :
    let pool := (of ops).client.pool
    let books := pool.registry r
    let live := pool.buffers.filter fun b => b.registry = some r ∧ b.isReleased = false
    books.liveBuffers = live.length ∧
    books.liveBytes = (live.map (·.length)).sum ∧
    books.stats.bytesCreated = ((of ops).registered r).sum ∧
    books.stats.buffersCreated = ((of ops).registered r).length ∧
    books.stats.buffersCreated = books.liveBuffers + books.stats.explicitReleases +
      books.stats.deferredReleases + books.stats.droppedReleases ∧
    IsGreatest (liveHistory ops r) books.stats.peakLiveBytes ∧
    ∀ s id label bytes, s.source = .foreign label bytes →
      (.makeBuffer s (some r), .buffer id) ∈ (of ops).log →
      ∃ b, pool.get? id = some b ∧ b.registry = some r ∧
        pool.returned id = if b.isReleased = true ∨ b.isHeld = false then [label] else [] := by
  intro pool books live
  have hagrees : books.Agrees r pool.buffers := (sound ops).booked.agrees r
  have hlive : liveLengthsIn r pool.buffers = live.map (·.length) := liveLengthsIn_eq_map
  have hall : lengthsIn r pool.buffers = ((of ops).registered r).reverse :=
    lengthsIn_eq_reverse_registered ops r
  refine ⟨?_, ?_, ?_, ?_, ?_, isGreatest_peakLiveBytes ops r, fun s id label bytes hsource hmade => ?_⟩
  · rw [hagrees.liveBuffers, hlive, List.length_map]
  · rw [hagrees.liveBytes, hlive]
  · rw [hagrees.bytesCreated, hall, List.sum_reverse]
  · rw [hagrees.buffersCreated, hall, List.length_reverse]
  · rw [hagrees.closed, ReleaseStats.totalReleases]
    omega
  · exact returned_of_foreign (sound ops) (told ops) hmade hsource

/-- Lends bytes to a buffer of a registry and releases it. -/
def lendAndRelease : List Op :=
  [.makeRegistry, .lendStore "lent" [1, 2] false,
    .makeBuffer (.foreign "lent" [1, 2] false) (some 0), .releaseBuffer 1]

/-- The bytes are given back by the release, once. -/
theorem books_balance_lendAndRelease : (of lendAndRelease).client.pool.returned 1 = ["lent"] := by
  obtain ⟨-, -, -, -, -, -, hforeign⟩ := books_balance lendAndRelease 0
  obtain ⟨b, hb, -, hreturned⟩ := hforeign (.foreign "lent" [1, 2] false) 1 "lent" [1, 2] rfl
    (.tail _ (.tail _ (.head _)))
  cases Option.some.inj hb
  exact hreturned

end Run

end Client

end StridedViews
