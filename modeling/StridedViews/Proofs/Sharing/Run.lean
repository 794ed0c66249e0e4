import StridedViews.Proofs.Sharing.Steps

/-!
Runs: what a client did from an empty memory on, with the log of how it ended. What every operation
keeps holds after every run: the memory is balanced for the client's holds, all stores fit, and the
books agree. The log tells the story of each buffer: which store it was made over, and whether it was
ever attached or released by a call.
-/

namespace StridedViews

namespace Client

/-- A client in order: its memory is balanced for its holds, every store fits, and the books
agree. -/
structure Sound (c : Client) : Prop where
  balanced : c.memory.Balanced c.holds
  sized : SizedBuffers c.pool.buffers
  fits : ∀ s ∈ c.stores, s.FitsOn c.pool.buffers
  booked : c.pool.Booked

theorem sound_empty : empty.Sound where
  balanced := ⟨trivial, ⟨trivial, rfl⟩, fun _ h => nomatch h⟩
  sized := fun _ _ _ h => nomatch h
  fits := fun _ h => nomatch h
  booked := ⟨fun _ _ => rfl, fun _ => ⟨rfl, rfl, rfl, rfl, rfl⟩⟩

theorem Sound.step {c : Client} (h : c.Sound) (op : Op) : (c.step op).2.Sound := by
  have hsteps := c.steps_step op
  have hcourse := hsteps.moves.course
  refine ⟨hsteps.moves.balanced h.balanced, ?_, fun s hs => ?_, hsteps.moves.booked h.booked⟩
  · exact h.sized.course hcourse fun id s r hd => h.fits s (hsteps.made id s r hd)
  · rcases hsteps.stores s hs with hs | hfits
    · exact hcourse.fitsOn (h.fits s hs)
    · exact hcourse.fitsOn hfits

structure Run where
  client : Client
  /-- What was done and how it ended, in order. -/
  log : List (Op × Outcome)

namespace Run

/-- Nothing is done yet. -/
def start : Run := ⟨.empty, []⟩

/-- The run with one more operation. -/
def extend (run : Run) (op : Op) : Run :=
  let ended := run.client.step op
  ⟨ended.2, run.log ++ [(op, ended.1)]⟩

/-- The run of some operations. -/
def of (ops : List Op) : Run := ops.foldl extend start

/-- The deeds of a run. -/
def deeds (run : Run) : List Deed := run.log.filterMap fun entry => entry.1.deed entry.2

variable {run : Run} {op : Op} {ops later : List Op} {id : BufferId}

theorem of_append : of (ops ++ later) = later.foldl extend (of ops) := List.foldl_append

theorem of_concat (ops : List Op) (op : Op) : of (ops ++ [op]) = (of ops).extend op := of_append

/-- What some operations bring about and every further one keeps stays so. -/
theorem append_induction {P : Run → Prop} (hextend : ∀ run op, P run → P (run.extend op))
    (hops : P (of ops)) (later : List Op) : P (of (ops ++ later)) := by
  rw [of_append]
  exact List.foldlRecOn later extend hops fun run h op _ => hextend run op h

/-- What the start has and every operation keeps, every run has. -/
theorem of_induction {P : Run → Prop} (hstart : P start) (hextend : ∀ run op, P run → P (run.extend op))
    (ops : List Op) : P (of ops) :=
  append_induction hextend (show P (of []) from hstart) ops

/-! ### What every run keeps -/

theorem sound (ops : List Op) : (of ops).client.Sound :=
  of_induction (P := fun run => run.client.Sound) sound_empty (fun _ op h => h.step op) ops

/-- What was done stays in the log. -/
theorem log_kept (ops later : List Op) : (of ops).log <+: (of (ops ++ later)).log := by
  refine append_induction (P := fun run => (of ops).log <+: run.log) ?_ (List.prefix_refl _) later
  intro run op h
  exact h.trans (List.prefix_append ..)

/-- A view goes on through everything that is done later. -/
theorem continues (ops later : List Op) :
    (of ops).client.memory.Continues (of (ops ++ later)).client.memory := by
  refine append_induction (P := fun run => (of ops).client.memory.Continues run.client.memory)
    ?_ (.refl _) later
  intro run op h
  exact h.trans (run.client.steps_step op).moves.continues

/-- A buffer keeps its size and its rights through everything that is done later. -/
theorem get?_later {b : Buffer} (ops later : List Op) (hb : (of ops).client.pool.get? id = some b) :
    ∃ b', (of (ops ++ later)).client.pool.get? id = some b' ∧ b'.length = b.length ∧
      b'.readOnly = b.readOnly := by
  refine append_induction (P := fun run => ∃ b', run.client.pool.get? id = some b' ∧
    b'.length = b.length ∧ b'.readOnly = b.readOnly) ?_ ⟨b, hb, rfl, rfl⟩ later
  rintro run op ⟨b₁, hb₁, hlength, hreadOnly⟩
  obtain ⟨b₂, hb₂, hcont, -⟩ := (run.client.steps_step op).moves.course.old id b₁ hb₁
  exact ⟨b₂, hb₂, hcont.length.trans hlength, hcont.readOnly.trans hreadOnly⟩

/-! ### The story of a buffer -/

theorem deeds_extend (run : Run) (op : Op) :
    (run.extend op).deeds = run.deeds ++ (op.deed (run.client.step op).1).toList := by
  rw [deeds, extend, List.filterMap_append, deeds]
  cases h : op.deed (run.client.step op).1 <;> simp [h]

theorem mem_deeds_extend {d : Deed} :
    d ∈ (run.extend op).deeds ↔ d ∈ run.deeds ∨ op.deed (run.client.step op).1 = some d := by
  rw [deeds_extend, List.mem_append, Option.mem_toList]

/-- What the deeds of a run tell about a buffer that was made over store `s`. The labels that were
given back for it and those that it still owes are together those of the store. -/
structure Story (run : Run) (id : BufferId) (b : Buffer) (s : Store) (r : Option RegistryId) :
    Prop where
  made : .made id s r ∈ run.deeds
  only : ∀ s' r', .made id s' r' ∈ run.deeds → s' = s ∧ r' = r
  registry : b.registry = r
  contents : b.isReleased = true ∨ b.contents.outline = .live s.source.outline
  explicit : b.contents = .tornDown .explicit → .released id ∈ run.deeds
  released : .released id ∈ run.deeds → b.isReleased = true
  attached : b.everAttached = true ↔ .attached id ∈ run.deeds
  returned : run.client.pool.returned id ++ b.lent = (Buffer.ofStore s r).lent

/-- Every buffer has its story, and nothing is told of buffers that were not made. -/
structure Told (run : Run) : Prop where
  present : ∀ id b, run.client.pool.get? id = some b → ∃ s r, run.Story id b s r
  absent : ∀ id, run.client.pool.get? id = none →
    (∀ d ∈ run.deeds, d.buffer ≠ id) ∧ run.client.pool.returned id = []

theorem told_start : start.Told :=
  ⟨fun _ _ h => (nomatch h), fun _ _ => ⟨fun _ h => (nomatch h), rfl⟩⟩

theorem Story.extend {b b' : Buffer} {s : Store} {r : Option RegistryId} (h : run.Story id b s r)
    (hcont : b.Continues (op.deed (run.client.step op).1) id b')
    (hreturned : (run.extend op).client.pool.returned id ++ b'.lent =
      run.client.pool.returned id ++ b.lent) : (run.extend op).Story id b' s r where
  made := mem_deeds_extend.mpr (.inl h.made)
  only s' r' hmem := by
    rcases mem_deeds_extend.mp hmem with hmem | hd
    · exact h.only s' r' hmem
    · exact absurd hd (hcont.made s' r')
  registry := hcont.registry.trans h.registry
  contents := by
    rcases hcont.contents with ho | ⟨-, hr⟩
    · rcases h.contents with hr | hlive
      · exact .inl (hcont.isReleased hr)
      · exact .inr (ho.trans hlive)
    · exact .inl hr
  explicit he := mem_deeds_extend.mpr ((hcont.explicit he).imp_left h.explicit)
  released hmem := by
    rcases mem_deeds_extend.mp hmem with hmem | hd
    · exact hcont.isReleased (h.released hmem)
    · exact hcont.released hd
  attached := by rw [hcont.everAttached, h.attached, mem_deeds_extend]
  returned := hreturned.trans h.returned

/-- The story of a new buffer begins with its making. -/
theorem story_of_made {b' : Buffer} {s : Store} {r : Option RegistryId}
    (hnone : ∀ d ∈ run.deeds, d.buffer ≠ id)
    (hd : op.deed (run.client.step op).1 = some (.made id s r))
    (hcont : (Buffer.ofStore s r).Continues none id b')
    (hreturned : (run.extend op).client.pool.returned id ++ b'.lent = (Buffer.ofStore s r).lent) :
    (run.extend op).Story id b' s r := by
  have hmem : ∀ d : Deed, d ∈ (run.extend op).deeds → d.buffer = id → d = .made id s r := by
    intro d hmem hbuffer
    rcases mem_deeds_extend.mp hmem with hmem | hd'
    · exact absurd hbuffer (hnone d hmem)
    · exact Option.some.inj (hd'.symm.trans hd)
  refine ⟨mem_deeds_extend.mpr (.inr hd), fun s' r' h => ?_, hcont.registry, ?_, fun he => ?_,
    fun h => ?_, ?_, hreturned⟩
  · have heq := hmem _ h rfl
    injection heq with _ hs hr
    exact ⟨hs, hr⟩
  · rcases hcont.contents with ho | ⟨-, hr⟩
    · exact .inr ho
    · exact .inl hr
  · rcases hcont.explicit he with h | h <;> cases h
  · exact nomatch hmem _ h rfl
  · rw [hcont.everAttached]
    refine iff_of_false (fun h => ?_) fun h => nomatch hmem _ h rfl
    rcases h with h | h <;> cases h

theorem Told.extend (h : run.Told) (op : Op) : (run.extend op).Told := by
  have hcourse := (run.client.steps_step op).moves.course
  constructor
  · intro id b' hget'
    cases hget : run.client.pool.get? id with
    | some b =>
      obtain ⟨b₁, hget₁, hcont, hreturned⟩ := hcourse.old id b hget
      cases hget₁.symm.trans hget'
      obtain ⟨s, r, hstory⟩ := h.present id b hget
      exact ⟨s, r, hstory.extend hcont hreturned⟩
    | none =>
      obtain ⟨hnone, hreturned₀⟩ := h.absent id hget
      rcases hcourse.new id hget with ⟨-, hnone', -⟩ | ⟨s, r, b₁, hd, hget₁, hcont, hreturned⟩
      · cases hnone'.symm.trans hget'
      · cases hget₁.symm.trans hget'
        rw [show run.client.memory.pool.returned id = [] from hreturned₀] at hreturned
        exact ⟨s, r, story_of_made hnone hd hcont hreturned⟩
  · intro id hget'
    cases hget : run.client.pool.get? id with
    | some b =>
      obtain ⟨b₁, hget₁, -⟩ := hcourse.old id b hget
      cases hget₁.symm.trans hget'
    | none =>
      obtain ⟨hnone, hreturned₀⟩ := h.absent id hget
      rcases hcourse.new id hget with ⟨hd, -, hreturned⟩ | ⟨s, r, b₁, -, hget₁, -⟩
      · refine ⟨fun d hmem hbuffer => ?_, hreturned.trans hreturned₀⟩
        rcases mem_deeds_extend.mp hmem with hmem | hd'
        · exact hnone d hmem hbuffer
        · rw [hd', Option.map_some, hbuffer] at hd
          exact hd rfl
      · cases hget₁.symm.trans hget'

theorem told (ops : List Op) : (of ops).Told :=
  of_induction told_start (fun _ op h => h.extend op) ops

end Run

end Client

end StridedViews
