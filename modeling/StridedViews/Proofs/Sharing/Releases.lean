import StridedViews.Proofs.Sharing.Teardowns
import StridedViews.Proofs.Storage.Redundant

/-!
Calls for a release. In every run the books of a registry count as explicit releases the calls that tore
a buffer of the registry down. As redundant releases they count the calls that found their buffer torn
down, and once more every buffer that was released by a call while views were using it and has gone
out of use since (`Client.Run.release_calls_counted`).
-/

namespace StridedViews

namespace Client

variable {op : Op} {o : Outcome} {p p' : Pool} {r : RegistryId} {torn : Bool} {id : BufferId}

/-- Whether an operation was a call for the release of a buffer of a registry that was answered with
`torn`. -/
def Op.calls (p : Pool) (r : RegistryId) (torn : Bool) : Op → Outcome → Bool
  | .releaseBuffer id, .flag answer =>
      answer = torn ∧ (p.get? id).any fun b => b.registry = some r
  | _, _ => false

theorem Op.calls_of_deed (h : ∀ id, op.deed o ≠ some (.released id)) :
    op.calls p r torn o = false := by
  unfold Op.calls
  split
  · exact absurd rfl (h _)
  · rfl

/-- Buffers that stay in their registries stay called for. -/
theorem Op.calls_congr (h : ∀ id, op.deed o = some (.released id) →
    ∃ b b', p.get? id = some b ∧ p'.get? id = some b' ∧ b'.registry = b.registry) :
    op.calls p' r torn o = op.calls p r torn o := by
  by_cases hd : ∃ id, op.deed o = some (.released id)
  · obtain ⟨id, hd⟩ := hd
    obtain ⟨b, b', hb, hb', hregistry⟩ := h id hd
    obtain ⟨rfl, answer, rfl⟩ := Op.eq_of_deed_released hd
    rw [Op.calls, Op.calls, hb, hb', Option.any_some, Option.any_some, hregistry]
  · rw [Op.calls_of_deed fun id h => hd ⟨id, h⟩, Op.calls_of_deed fun id h => hd ⟨id, h⟩]

namespace Run

variable {run : Run}

/-- How many calls for the release of a buffer of a registry were answered with `torn`. -/
def releaseCalls (run : Run) (r : RegistryId) (torn : Bool) : Nat :=
  run.log.countP fun entry => entry.1.calls run.client.pool r torn entry.2

/-- A buffer whose release was called for is there, and stays in its registry. -/
theorem registry_of_mem_deeds (h : run.Told) (hmem : .released id ∈ (run.extend op).deeds) :
    ∃ b b', run.client.pool.get? id = some b ∧ (run.extend op).client.pool.get? id = some b' ∧
      b'.registry = b.registry := by
  have hcourse := (run.client.steps_step op).moves.course
  cases hget : run.client.pool.get? id with
  | some b =>
    obtain ⟨b', hget', hcont, -⟩ := hcourse.old id b hget
    exact ⟨b, b', rfl, hget', hcont.registry⟩
  | none =>
    exfalso
    rcases mem_deeds_extend.mp hmem with hmem | hd
    · exact (h.absent id hget).1 _ hmem rfl
    · rcases hcourse.new id hget with ⟨hne, -⟩ | ⟨s, r, -, hmade, -⟩
      · exact hne (congrArg (Option.map Deed.buffer) hd)
      · cases hd.symm.trans hmade

/-- A call for a release is answered by the buffer that it is made on. -/
theorem calls_step (h : run.Told) (op : Op) (r : RegistryId) (torn : Bool) :
    (if op.calls run.client.pool r torn (run.client.step op).1 then 1 else 0) =
      run.client.pool.callsIn (op.deed (run.client.step op).1) r torn := by
  by_cases hd : ∃ id, op.deed (run.client.step op).1 = some (.released id)
  · obtain ⟨id, hd⟩ := hd
    obtain ⟨b, -, hb, -⟩ := registry_of_mem_deeds h (mem_deeds_extend.mpr (.inr hd))
    obtain ⟨rfl, answer, ho⟩ := Op.eq_of_deed_released hd
    have hanswer : answer = !b.isReleased := by
      rw [← isOk_live_of_step ho, Pool.live, hb]
      cases hr : b.isReleased <;> simp only [hr] <;> rfl
    rw [hd, Pool.callsIn, ho, Op.calls, hb, hanswer]
    cases hr : b.isReleased <;> cases torn <;> simp [Buffer.answers, hr]
  · rw [not_exists] at hd
    rw [Op.calls_of_deed hd, Pool.callsIn_of_ne hd]
    rfl

theorem releaseCalls_extend (h : run.Told) (op : Op) (r : RegistryId) (torn : Bool) :
    (run.extend op).releaseCalls r torn =
      run.releaseCalls r torn + run.client.pool.callsIn (op.deed (run.client.step op).1) r torn := by
  have hlog : (run.extend op).log = run.log ++ [(op, (run.client.step op).1)] := rfl
  -- the buffers of all calls, the last one included, are in the registries that they were in before
  have hstays : (run.extend op).releaseCalls r torn =
      (run.extend op).log.countP fun entry => entry.1.calls run.client.pool r torn entry.2 := by
    refine List.countP_congr fun entry hmem => ?_
    rw [Op.calls_congr fun id hd =>
      registry_of_mem_deeds h (List.mem_filterMap.mpr ⟨entry, hmem, hd⟩)]
  rw [hstays, hlog, List.countP_append, List.countP_singleton, calls_step h]
  rfl

/-- After any run the books count the calls for a release. -/
theorem callsCounted (ops : List Op) : (of ops).client.pool.CallsCounted (of ops).releaseCalls := by
  refine (of_induction
    (P := fun run => run.Told ∧ run.client.Sound ∧ run.client.pool.Prompt ∧
      run.client.pool.CallsCounted run.releaseCalls)
    ⟨told_start, sound_empty, fun _ _ h => (nomatch h), fun r => ⟨rfl, rfl⟩⟩ ?_ ops).2.2.2
  rintro run op ⟨htold, hsound, hprompt, hcounted⟩
  have hchange := run.client.change_step op
  refine ⟨htold.extend op, hsound.step op, hprompt.change hchange, fun r => ?_⟩
  rw [releaseCalls_extend htold, releaseCalls_extend htold]
  exact hcounted.change hsound.booked hprompt hchange r

/-- In every run the explicit releases in the books of a registry are the calls for a release of its
buffers that were answered with true. The redundant ones are the calls that were answered with false, and,
for every buffer of the registry that was torn down by a call while its use by views was not over,
one more once it is over. So together they are as many as the calls and the buffers of which this is
true. -/
theorem release_calls_counted (ops : List Op) (r : RegistryId) :
    let run := of ops
    let stats := (run.client.pool.registry r).stats
    let late := run.client.pool.buffers.countP (Buffer.late r)
    stats.explicitReleases = run.releaseCalls r true ∧
      stats.redundantReleases = run.releaseCalls r false + late ∧
      stats.explicitReleases + stats.redundantReleases =
        run.releaseCalls r true + run.releaseCalls r false + late := by
  obtain ⟨hexplicit, hredundant⟩ := callsCounted ops r
  refine ⟨hexplicit, hredundant, ?_⟩
  rw [hexplicit, hredundant, Nat.add_assoc]

/-- A buffer of a registry that is released while a reference is attached to it, which is detached
then. -/
def releasedInUse : List Op :=
  [.makeRegistry, .ownStore [0], .makeBuffer (.owned [0]) (some 0), .attach 1, .releaseBuffer 1,
    .detach 1]

/-- There was one call, which tore the buffer down, and the books count a redundant release beside
it. -/
theorem detach_counted_as_redundant :
    let run := of releasedInUse
    let stats := (run.client.pool.registry 0).stats
    run.releaseCalls 0 true = 1 ∧ run.releaseCalls 0 false = 0 ∧
      ((of (releasedInUse.take 5)).client.pool.registry 0).stats.redundantReleases = 0 ∧
      stats.redundantReleases = 1 ∧
      stats.explicitReleases + stats.redundantReleases ≠
        run.releaseCalls 0 true + run.releaseCalls 0 false := by
  decide

end Run

end Client

end StridedViews
