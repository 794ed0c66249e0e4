import StridedViews.Proofs.Sharing.Changes
import StridedViews.Proofs.Sharing.References
import StridedViews.Proofs.Storage.Causes
import StridedViews.Proofs.Storage.Tallies

/-!
Why buffers die. In every run a buffer is torn down by one operation at most, and the cause that is
recorded is the true one: the release that returned true, the end of its use by views, or, for a buffer
that was never attached, the end of its last hold (`Client.Run.cause_recorded`).
-/

namespace StridedViews

namespace Client

variable {c : Client} {op : Op} {o : Outcome} {id : BufferId}

theorem Op.eq_of_deed_released (h : op.deed o = some (.released id)) :
    op = .releaseBuffer id ∧ ∃ torn, o = .flag torn := by
  unfold Op.deed at h
  split at h <;> cases h
  exact ⟨rfl, _, rfl⟩

/-- A release tells whether the buffer was live. -/
theorem isOk_live_of_step {torn : Bool} (h : (c.step (.releaseBuffer id)).1 = .flag torn) :
    (c.pool.live id).isOk = torn := by
  rw [step, given] at h
  split at h
  · injection h
  · cases h

theorem live_of_isOk {p : Pool} (h : (p.live id).isOk = true) :
    ∃ b, p.get? id = some b ∧ b.isReleased = false := by
  cases hlive : p.live id with
  | ok b => exact ⟨b, Pool.live_eq_ok_iff.mp hlive⟩
  | error e =>
    rw [hlive] at h
    cases h

namespace Run

variable {ops : List Op} {k k' : Nat} {b : Buffer} {cause cause' : ReleaseCause}

/-! ### What every run keeps -/

/-- After any run, no release is overdue. -/
theorem prompt (ops : List Op) : (of ops).client.pool.Prompt :=
  of_induction (P := fun run => run.client.pool.Prompt) (fun _ _ h => nomatch h)
    (fun run op h => h.change (run.client.change_step op)) ops

/-- After any run, the books count the teardowns of every cause. -/
theorem tallied (ops : List Op) : (of ops).client.pool.Tallied := by
  refine (of_induction (P := fun run => run.client.Sound ∧ run.client.pool.Tallied)
    ⟨sound_empty, fun r cause => ?_⟩ (fun run op h => ⟨h.1.step op, ?_⟩) ops).2
  · cases cause <;> rfl
  · exact h.2.change h.1.booked (run.client.change_step op)

theorem tornDown_later (ops later : List Op) (hb : (of ops).client.pool.get? id = some b)
    (hc : b.contents = .tornDown cause) :
    ∃ b', (of (ops ++ later)).client.pool.get? id = some b' ∧ b'.contents = .tornDown cause := by
  refine append_induction (P := fun run => ∃ b', run.client.pool.get? id = some b' ∧
    b'.contents = .tornDown cause) ?_ ⟨b, hb, hc⟩ later
  rintro run op ⟨b₁, hb₁, hc₁⟩
  obtain ⟨b₂, hb₂, hcont, -⟩ := (run.client.steps_step op).moves.course.old id b₁ hb₁
  exact ⟨b₂, hb₂, hcont.tornDown hc₁⟩

/-! ### The operation that tears a buffer down -/

theorem of_take_succ (h : ops[k]? = some op) :
    of (ops.take (k + 1)) = (of (ops.take k)).extend op := by
  rw [List.take_add_one, h, Option.toList_some, of_concat]

theorem length_log (ops : List Op) : (of ops).log.length = ops.length := by
  induction ops using List.reverseRecOn with
  | nil => rfl
  | append_singleton ops op ih =>
    rw [of_concat, extend, List.length_append, List.length_append, ih]
    rfl

/-- The log tells of every operation how it ended. -/
theorem getElem?_log (ops : List Op) (k : Nat) :
    (of ops).log[k]? = ops[k]?.map fun op => (op, ((of (ops.take k)).client.step op).1) := by
  induction ops using List.reverseRecOn with
  | nil => rfl
  | append_singleton ops op ih =>
    rw [of_concat, extend]
    dsimp only
    rcases Nat.lt_trichotomy k ops.length with hlt | rfl | hgt
    · rw [List.getElem?_append_left (by rwa [length_log]), List.getElem?_append_left hlt,
        List.take_append_of_le_length hlt.le, ih]
    · rw [← length_log ops, List.getElem?_concat_length, length_log, List.getElem?_concat_length,
        List.take_left]
      rfl
    · rw [List.getElem?_eq_none, List.getElem?_eq_none]
      · rfl
      · rw [List.length_append, List.length_singleton]
        exact hgt
      · rw [List.length_append, List.length_singleton, length_log]
        exact hgt

/-- Operation number `k` tears a buffer down for a cause. -/
def TornAt (ops : List Op) (k : Nat) (id : BufferId) (cause : ReleaseCause) : Prop :=
  ∃ b b', (of (ops.take k)).client.pool.get? id = some b ∧ b.isReleased = false ∧
    (of (ops.take (k + 1))).client.pool.get? id = some b' ∧ b'.contents = .tornDown cause

/-- What is torn down is not torn down again. -/
theorem TornAt.le (h : TornAt ops k id cause) (h' : TornAt ops k' id cause') : k' ≤ k := by
  by_contra hlt
  obtain ⟨m, rfl⟩ := Nat.exists_eq_add_of_le (Nat.succ_le_of_lt (Nat.lt_of_not_le hlt))
  obtain ⟨-, b, -, -, hb, hc⟩ := h
  obtain ⟨b', -, hb', hl, -⟩ := h'
  obtain ⟨b₁, hb₁, hc₁⟩ := tornDown_later (ops.take (k + 1)) ((ops.drop (k + 1)).take m) hb hc
  rw [← List.take_add] at hb₁
  cases hb'.symm.trans hb₁
  cases hl.symm.trans (Buffer.isReleased_iff.mpr ⟨cause, hc₁⟩)

theorem TornAt.unique (h : TornAt ops k id cause) (h' : TornAt ops k' id cause') :
    k' = k ∧ cause' = cause := by
  obtain rfl : k' = k := Nat.le_antisymm (h.le h') (h'.le h)
  refine ⟨rfl, ?_⟩
  obtain ⟨-, b, -, -, hb, hc⟩ := h
  obtain ⟨-, b', -, -, hb', hc'⟩ := h'
  cases hb.symm.trans hb'
  cases hc.symm.trans hc'
  rfl

/-- A buffer that is torn down was torn down by some operation. -/
theorem exists_tornAt (hb : (of ops).client.pool.get? id = some b)
    (hc : b.contents = .tornDown cause) : ∃ k op, ops[k]? = some op ∧ TornAt ops k id cause := by
  induction ops using List.reverseRecOn generalizing b with
  | nil => cases hb
  | append_singleton ops op ih =>
    have hlast : of ((ops ++ [op]).take (ops.length + 1)) = of (ops ++ [op]) := by
      rw [List.take_of_length_le (by simp)]
    cases hb₀ : (of ops).client.pool.get? id with
    | none =>
      rw [of_concat] at hb
      have hl := ((of ops).client.change_step op).live_of_none hb₀ hb
      cases hl.symm.trans (Buffer.isReleased_iff.mpr ⟨cause, hc⟩)
    | some b₀ =>
      cases hc₀ : b₀.contents with
      | live source =>
        refine ⟨ops.length, op, List.getElem?_concat_length .., b₀, b, ?_, ?_, ?_, hc⟩
        · rw [List.take_left, hb₀]
        · rw [Buffer.isReleased, hc₀]
        · rw [hlast, hb]
      | tornDown cause₀ =>
        obtain ⟨b₁, hb₁, hc₁⟩ := tornDown_later ops [op] hb₀ hc₀
        cases hb₁.symm.trans hb
        cases hc₁.symm.trans hc
        obtain ⟨k, op', hk, b₂, b₃, hb₂, hl₂, hb₃, hc₃⟩ := ih hb₀ hc₀
        have hlt : k < ops.length := (List.getElem?_eq_some_iff.mp hk).1
        refine ⟨k, op', by rw [List.getElem?_append_left hlt, hk], b₂, b₃, ?_, hl₂, ?_, hc₃⟩
        · rwa [List.take_append_of_le_length hlt.le]
        · rwa [List.take_append_of_le_length hlt]

/-- A release that returns true tears the buffer down. -/
theorem tornAt_of_released (h : (of ops).log[k]? = some (.releaseBuffer id, .flag true)) :
    TornAt ops k id .explicit := by
  rw [getElem?_log] at h
  obtain ⟨op, hop, heq⟩ := Option.map_eq_some_iff.mp h
  obtain ⟨rfl, hflag⟩ := Prod.mk.inj heq
  obtain ⟨b, hb, hl⟩ := live_of_isOk (isOk_live_of_step hflag)
  have hdeed : (Op.releaseBuffer id).deed ((of (ops.take k)).client.step (.releaseBuffer id)).1 =
      some (.released id) := by rw [hflag]; rfl
  obtain ⟨b', hb', hc⟩ :=
    ((of (ops.take k)).client.change_step (.releaseBuffer id)).released hdeed hb hl
  exact ⟨b, b', hb, hl, by rw [of_take_succ hop]; exact hb', hc⟩

/-- A buffer is torn down for an explicit cause by a release that returns true. -/
theorem TornAt.released (h : TornAt ops k id .explicit) (hop : ops[k]? = some op) :
    (of ops).log[k]? = some (.releaseBuffer id, .flag true) := by
  obtain ⟨b, b', hb, hl, hb', hc⟩ := h
  rw [of_take_succ hop] at hb'
  obtain ⟨b₁, hb₁, hcont, -⟩ := ((of (ops.take k)).client.steps_step op).moves.course.old id b hb
  cases hb'.symm.trans hb₁
  have hdeed := (hcont.explicit hc).resolve_left fun hc => by
    cases hl.symm.trans (Buffer.isReleased_iff.mpr ⟨_, hc⟩)
  obtain ⟨rfl, torn, hflag⟩ := Op.eq_of_deed_released hdeed
  have hlive : ((of (ops.take k)).client.pool.live id).isOk = true := by
    rw [Pool.live_eq_ok_iff.mpr ⟨hb, hl⟩]
    rfl
  rw [getElem?_log, hop, Option.map_some, hflag, ← isOk_live_of_step hflag, hlive]

/-- In every run, why a buffer died is recorded truthfully. One operation tears it down, and no other
does. The cause is explicit just if that operation is the release of the buffer that returned true, of
which there is no other. A release is deferred only at a moment when the buffer was attached before and
has no attached reference and no pin, and a buffer is dropped only if nothing was ever attached to it.
The books of every registry count the teardowns by these causes. -/
theorem cause_recorded (ops : List Op) :
    (∀ id b cause, (of ops).client.pool.get? id = some b → b.contents = .tornDown cause →
      ∃ k torn,
        (of (ops.take k)).client.pool.TornBetween (of (ops.take (k + 1))).client.pool id cause torn ∧
        (∀ k' cause', TornAt ops k' id cause' ↔ k' = k ∧ cause' = cause) ∧
        (cause = .explicit ↔ (of ops).log[k]? = some (.releaseBuffer id, .flag true)) ∧
        (∀ k', (of ops).log[k']? = some (.releaseBuffer id, .flag true) → k' = k) ∧
        (cause = .deferred → torn.Idle ∧ (of (ops.take k)).WasAttached id) ∧
        (cause = .dropped → ¬ (of ops).WasAttached id)) ∧
    ∀ r cause, ((of ops).client.pool.registry r).stats.releases cause =
      (of ops).client.pool.buffers.countP (Buffer.fellIn r cause) := by
  refine ⟨fun id b cause hb hc => ?_, tallied ops⟩
  obtain ⟨k, op, hop, htorn⟩ := exists_tornAt hb hc
  have ⟨b₀, b₁, hb₀, hl, hb₁, hc₁⟩ := htorn
  have hchange := (of (ops.take k)).client.change_step op
  have hend : ((of (ops.take k)).client.step op).2.pool = (of (ops.take (k + 1))).client.pool := by
    rw [of_take_succ hop]
    rfl
  rw [hend] at hchange
  obtain ⟨torn, hbetween⟩ := hchange.torn hb₀ hl hb₁ hc₁
  refine ⟨k, torn, hbetween, fun k' cause' => ⟨htorn.unique, ?_⟩, ⟨?_, fun hlog => ?_⟩,
    fun k' hlog => (htorn.unique (tornAt_of_released hlog)).1, fun hcause => ?_, fun hcause => ?_⟩
  · rintro ⟨rfl, rfl⟩
    exact htorn
  · rintro rfl
    exact htorn.released hop
  · exact (htorn.unique (tornAt_of_released hlog)).2.symm
  · subst hcause
    have hidle := hbetween.idle (prompt _)
    obtain ⟨s, r, hstory⟩ := (told (ops.take k)).present id b₀ hb₀
    refine ⟨hidle, attached_mem_deeds_iff.mp (hstory.attached.mp ?_)⟩
    rw [← hbetween.everAttached hb₀]
    exact hidle.1
  · subst hcause
    obtain ⟨s, r, hstory⟩ := (told ops).present id b hb
    rw [← attached_mem_deeds_iff, ← hstory.attached, (prompt ops id b hb).dropped hc]
    exact Bool.false_ne_true

/-- Three buffers of a registry: one is released twice, one is attached and detached, and one is only
dropped. -/
def threeDeaths : List Op :=
  [.makeRegistry, .ownStore [1], .makeBuffer (.owned [1]) (some 0), .ownStore [2],
    .makeBuffer (.owned [2]) (some 0), .ownStore [3], .makeBuffer (.owned [3]) (some 0),
    .releaseBuffer 1, .releaseBuffer 1, .attach 2, .drop (.reference (some 2)), .drop (.buffer 3)]

/-- Each dies of its own cause. -/
theorem cause_recorded_threeDeaths :
    (∃ k, ∀ k' : Nat, (of threeDeaths).log[k']? = some (.releaseBuffer 1, .flag true) ↔ k' = k) ∧
      (∃ k, (of (threeDeaths.take k)).WasAttached 2 ∧ TornAt threeDeaths k 2 .deferred) ∧
      ¬ (of threeDeaths).WasAttached 3 ∧
      ∀ cause, ((of threeDeaths).client.pool.registry 0).stats.releases cause = 1 := by
  obtain ⟨hcauses, htally⟩ := cause_recorded threeDeaths
  obtain ⟨k, -, -, -, hexplicit, honly, -⟩ := hcauses 1 _ .explicit rfl rfl
  obtain ⟨k₂, _, -, htorn, -, -, hdeferred, -⟩ := hcauses 2 _ .deferred rfl rfl
  obtain ⟨-, -, -, -, -, -, -, hdropped⟩ := hcauses 3 _ .dropped rfl rfl
  refine ⟨⟨k, fun k' => ⟨honly k', ?_⟩⟩, ⟨k₂, (hdeferred rfl).2, (htorn k₂ _).mpr ⟨rfl, rfl⟩⟩,
    hdropped rfl, ?_⟩
  · rintro rfl
    exact hexplicit.mp rfl
  · intro cause
    rw [htally]
    cases cause <;> rfl

end Run

end Client

end StridedViews
