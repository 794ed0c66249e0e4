import StridedViews.Proofs.Sharing.Calls
import StridedViews.Proofs.Sharing.Effects

/-!
The life of a view. What a view is at any time is what its changes, one after the other, made of the
view that was built (`View.History`), and the log of a run tells both (`Client.Run.recorded`). So a
view keeps its layout, its policy and its flags but that of its release; it is released once and for
good, and just then it lets go of its buffer and its owner, after which no access to it succeeds
(`Client.Run.view_lifecycle`).
-/

namespace StridedViews

namespace View

variable {first v : View} {past : List ViewChange} {change : ViewChange}

/-- A view that was built as `first` came to be `v`. Each change suited the view that it was made to,
and no more guards were dropped than acquired. -/
inductive History (first : View) : List ViewChange → View → Prop where
  | new (h : first.New) : History first [] first
  | change {past : List ViewChange} {v : View} {change : ViewChange} (h : History first past v)
      (hsuits : change.Suits v)
      (hguards : (past ++ [change]).count .dropped ≤ (past ++ [change]).count .acquired) :
      History first (past ++ [change]) (change.apply v)

/-- What a view is at any time, as against what it was built as. It has let go of its buffer and its
owner just if it is released, and nothing else of it changes but what it counts and remembers. -/
structure Lives (first v : View) : Prop where
  layout : v.layout = first.layout
  policy : v.policy = first.policy
  flags : v.flags = { first.flags with released := v.isReleased }
  buffer : ∀ id, first.buffer? = some id → v.buffer? = if v.isReleased then none else some id
  owner : ∀ i, first.owner = some i → v.owner = if v.isReleased then none else some i
  unowned : first.owner = none → v.owner = none
  aliased : ∀ bytes, first.source = .aliased bytes → v.source = .aliased bytes

theorem New.lives (h : first.New) : first.Lives first where
  layout := rfl
  policy := rfl
  flags := rfl
  buffer id hid := by rw [hid, h.live]; rfl
  owner i hi := by rw [hi, h.live]; rfl
  unowned := id
  aliased _ := id

theorem buffer?_released (v : View) : v.released.buffer? = none := by
  rw [buffer?, released]
  cases v.source <;> rfl

theorem Lives.apply (h : first.Lives v) (change : ViewChange) : first.Lives (change.apply v) := by
  cases change with
  | released =>
    refine ⟨h.layout, h.policy, ?_, fun _ _ => v.buffer?_released, fun _ _ => rfl, fun _ => rfl,
      ?_⟩
    · change { v.flags with released := true } = { first.flags with released := true }
      rw [h.flags]
    · intro bytes hfirst
      rw [ViewChange.apply, released, h.aliased bytes hfirst]
  | hashed | begun | ended | acquired | dropped =>
    exact ⟨h.layout, h.policy, h.flags, h.buffer, h.owner, h.unowned, h.aliased⟩

theorem History.isNew (h : History first past v) : first.New := by
  induction h with
  | new h => exact h
  | change _ _ _ ih => exact ih

theorem History.lives (h : History first past v) : first.Lives v := by
  induction h with
  | new h => exact h.lives
  | change _ _ _ ih => exact ih.apply _

/-- A view is released by the one change that releases it. -/
theorem History.count_released (h : History first past v) :
    past.count .released = if v.isReleased then 1 else 0 := by
  induction h with
  | new h => rw [h.live]; rfl
  | @change past v change h hsuits _ ih =>
    rw [List.count_append, ih]
    cases change with
    | released =>
      obtain ⟨hlive, -⟩ := hsuits
      rw [hlive]
      rfl
    | hashed | begun | ended | acquired | dropped => rfl

end View

/-! ### Calls on a released view -/

namespace Call

variable {α : Type} {m : Memory} {i : ItemId} {v : View}

/-- The calls that access the view of a number: reads, writes, hashes and exports of it. -/
def Accesses (i : ItemId) : Call α → Prop
  | .read j | .readItem j _ | .writeItem j _ _ | .contentHash j | .acquire j => j = i
  | .viewOver .. | .exportBuffer .. | .attach _ | .pin _ | .release _ => False

theorem Accesses.owner {call : Call α} (h : call.Accesses i) : call.owner = none := by
  cases call with
  | viewOver => exact h.elim
  | _ => rfl

/-- Whether a view is released is the first thing that an access looks at. -/
theorem operation_of_isReleased {call : Call α} (hcall : call.Accesses i) (hv : m.view? i = some v)
    (hr : v.isReleased = true) : call.operation m = .error .released := by
  have hview : m.viewAt i = .ok v := by rw [Memory.viewAt, hv]
  have hcheck : v.checkReleased = .error .released := if_pos hr
  cases call with
  | viewOver | exportBuffer | attach | pin | release => exact hcall.elim
  | read j =>
    obtain rfl : j = i := hcall
    exact (bind_of_ok hview).trans (bind_of_error (bind_of_error (bind_of_error hcheck)))
  | readItem j index =>
    obtain rfl : j = i := hcall
    exact (bind_of_ok hview).trans (bind_of_error (bind_of_error (bind_of_error hcheck)))
  | writeItem j index item =>
    obtain rfl : j = i := hcall
    exact (bind_of_ok hview).trans (bind_of_error (bind_of_error (bind_of_error hcheck)))
  | contentHash j =>
    obtain rfl : j = i := hcall
    exact (bind_of_ok hview).trans (bind_of_error (bind_of_error hcheck))
  | acquire j =>
    obtain rfl : j = i := hcall
    exact (bind_of_ok hview).trans (bind_of_error hcheck)

end Call

namespace Client.Run

variable {run : Run} {ops : List Op} {op : Op} {i : ItemId} {v first : View}

/-- What happened to a view, in order. -/
def changes (run : Run) (i : ItemId) : List ViewChange :=
  run.log.flatMap fun entry => (entry.1.effect entry.2).changes i

/-- The view of a number was built, and was this at first. -/
def Built (run : Run) (i : ItemId) (first : View) : Prop :=
  ∃ entry ∈ run.log, entry.1.effect entry.2 = .built i first

theorem changes_extend (run : Run) (op : Op) (i : ItemId) :
    (run.extend op).changes i = run.changes i ++ (op.effect (run.client.step op).1).changes i := by
  rw [changes, extend, List.flatMap_append, List.flatMap_singleton, changes]

theorem built_extend :
    (run.extend op).Built i first ↔
      run.Built i first ∨ op.effect (run.client.step op).1 = .built i first := by
  simp only [Built, extend, List.mem_append, List.mem_singleton, or_and_right, exists_or,
    exists_eq_left]

/-- The guards of a view are those that were acquired and not dropped. -/
def GuardsCounted (run : Run) (i : ItemId) : Prop :=
  run.client.guards i + (run.changes i).count .dropped = (run.changes i).count .acquired

theorem GuardsCounted.extend (h : run.GuardsCounted i) (op : Op) :
    (run.extend op).GuardsCounted i := by
  have hguards := (run.client.effects_step op).guards i
  rw [GuardsCounted] at h ⊢
  rw [changes_extend, List.count_append, List.count_append]
  change (run.client.step op).2.guards i + _ = _
  omega

theorem guardsCounted (ops : List Op) (i : ItemId) : (of ops).GuardsCounted i :=
  of_induction (P := (GuardsCounted · i)) rfl (fun _ op h => h.extend op) ops

/-- What the log of a run tells of the view of a number. -/
structure Recorded (run : Run) (i : ItemId) : Prop where
  absent : run.client.memory.view? i = none → run.changes i = [] ∧ ∀ first, ¬run.Built i first
  present : ∀ v, run.client.memory.view? i = some v →
    ∃ first, (∀ other, run.Built i other ↔ other = first) ∧ first.History (run.changes i) v

theorem Recorded.of_some (first : View) (hv : run.client.memory.view? i = some v)
    (hbuilt : ∀ other, run.Built i other ↔ other = first)
    (hhistory : first.History (run.changes i) v) : run.Recorded i where
  absent hnone := nomatch hnone.symm.trans hv
  present w hw := by
    cases hv.symm.trans hw
    exact ⟨first, hbuilt, hhistory⟩

/-- An operation that does nothing to a view leaves what is told of it. -/
theorem Recorded.of_other (h : run.Recorded i)
    (hother : (op.effect (run.client.step op).1).item? ≠ some i) : (run.extend op).Recorded i := by
  have hview : (run.extend op).client.memory.view? i = run.client.memory.view? i :=
    ((run.client.effects_step op).views i).trans (ViewEffect.apply_of_ne hother _)
  have hchanges : (run.extend op).changes i = run.changes i := by
    rw [changes_extend, ViewEffect.changes_of_ne hother, List.append_nil]
  have hbuilt : ∀ first, (run.extend op).Built i first ↔ run.Built i first := fun first =>
    built_extend.trans (or_iff_left fun heffect => hother (by rw [heffect]; rfl))
  constructor
  · rw [hview, hchanges]
    simpa only [hbuilt] using h.absent
  · rw [hview, hchanges]
    simpa only [hbuilt] using h.present

/-- A view that is built was not there before. -/
theorem Recorded.of_built (h : run.Recorded i)
    (heffect : op.effect (run.client.step op).1 = .built i first) : (run.extend op).Recorded i := by
  have heffects := run.client.effects_step op
  obtain ⟨hnone, hnew⟩ := heffects.new i first heffect
  obtain ⟨hchanges, hbuilt⟩ := h.absent hnone
  have hview : (run.extend op).client.memory.view? i = some first := by
    refine (heffects.views i).trans ?_
    rw [heffect]
    exact if_pos rfl
  refine .of_some first hview (fun other => ?_) ?_
  · rw [built_extend, heffect, or_iff_right (hbuilt other)]
    exact ⟨fun h => by cases h; rfl, fun h => by rw [h]⟩
  · rw [changes_extend, heffect, hchanges]
    exact .new hnew

/-- A view that is changed was there before. -/
theorem Recorded.of_changed {change : ViewChange} (h : run.Recorded i)
    (hguards : run.GuardsCounted i) (heffect : op.effect (run.client.step op).1 = .changed i change) :
    (run.extend op).Recorded i := by
  have heffects := run.client.effects_step op
  have hchanges : (run.extend op).changes i = run.changes i ++ [change] := by
    rw [changes_extend, heffect]
    exact congrArg (_ ++ ·) (if_pos rfl)
  have hguards' := hguards.extend op
  rw [GuardsCounted, hchanges] at hguards'
  obtain ⟨v, hv, hsuits⟩ : ∃ v, run.client.memory.view? i = some v ∧ change.Suits v := by
    rcases eq_or_ne change .dropped with rfl | hne
    · cases hv : run.client.memory.view? i with
      | some v => exact ⟨v, rfl, trivial⟩
      | none =>
        -- the guard that is dropped was acquired, and that changed a view
        rw [(h.absent hv).1] at hguards'
        exact absurd hguards' (by simp)
    · exact heffects.suits i change heffect hne
  have hview : (run.extend op).client.memory.view? i = some (change.apply v) := by
    refine (heffects.views i).trans ?_
    rw [heffect, hv]
    exact if_pos rfl
  obtain ⟨first, hbuilt, hhistory⟩ := h.present v hv
  refine .of_some first hview (fun other => ?_) ?_
  · rw [built_extend, heffect, hbuilt]
    exact or_iff_left fun h => nomatch h
  · rw [hchanges]
    exact .change hhistory hsuits (by omega)

theorem recorded (ops : List Op) (i : ItemId) : (of ops).Recorded i := by
  induction ops using List.reverseRecOn with
  | nil => exact ⟨fun _ => ⟨rfl, fun _ ⟨_, h, _⟩ => nomatch h⟩, fun _ h => nomatch h⟩
  | append_singleton ops op ih =>
    rw [of_concat]
    by_cases hi : (op.effect ((of ops).client.step op).1).item? = some i
    · cases heffect : op.effect ((of ops).client.step op).1 with
      | quiet =>
        rw [heffect] at hi
        cases hi
      | built j new =>
        rw [heffect] at hi
        cases hi
        exact ih.of_built heffect
      | changed j change =>
        rw [heffect] at hi
        cases hi
        exact ih.of_changed (guardsCounted ops i) heffect
    · exact ih.of_other hi

/-- After any run, a view is as it was built, but for what it counts and remembers, or it is released:
then it has let go of its buffer and its owner, one call has released it, it stays released whatever is
done later, and every access to it fails and changes nothing. -/
theorem view_lifecycle (hv : (of ops).client.memory.view? i = some v) :
    ∃ first, (∀ other, (of ops).Built i other ↔ other = first) ∧ first.New ∧ first.Lives v ∧
      ((of ops).changes i).count .released = (if v.isReleased then 1 else 0) ∧
      (v.isReleased = true →
        (∀ later, ∃ v', (of (ops ++ later)).client.memory.view? i = some v' ∧ v'.isReleased = true) ∧
        ∀ (α : Type) (call : Call α), call.Accesses i →
          call.run (of ops).client.memory = (.error .released, (of ops).client.memory)) := by
  obtain ⟨first, hbuilt, hhistory⟩ := (recorded ops i).present v hv
  refine ⟨first, hbuilt, hhistory.isNew, hhistory.lives, hhistory.count_released,
    fun hr => ⟨fun later => ?_, fun α call hcall => ?_⟩⟩
  · obtain ⟨v', hv', hcont⟩ := continues ops later i v hv
    refine ⟨v', hv', ?_⟩
    rcases hcont.source with hr' | ⟨-, hsame⟩
    · exact hr'
    · rw [hsame, hr]
  · rw [run_call_of_owner ops hcall.owner]
    exact Staged.atOnce_error (Call.operation_of_isReleased hcall hv hr)

/-- A view with an owner, which is hashed, exported and released. -/
def hashedThenReleased : List Op :=
  [.makeText "owner", .ownStore [7], .makeBuffer (.owned [7]) none,
    .viewOver oneByte 1 (some 1) .bestEffort, .hash 2, .acquire 2, .releaseView 2]

/-- It still remembers its hash, but it is not hashed any more. -/
theorem view_lifecycle_hashedThenReleased :
    ∃ v, (of hashedThenReleased).client.memory.view? 2 = some v ∧ v.cachedHash.isSome = true ∧
      v.buffer? = none ∧ v.owner = none ∧ ((of hashedThenReleased).changes 2).count .released = 1 ∧
      (Call.contentHash 2).run (of hashedThenReleased).client.memory =
        (.error .released, (of hashedThenReleased).client.memory) := by
  have hv : (of hashedThenReleased).client.memory.view? 2 = some _ := rfl
  obtain ⟨first, -, -, -, hcount, hreleased⟩ := view_lifecycle hv
  exact ⟨_, hv, rfl, rfl, rfl, hcount, (hreleased rfl).2 _ (.contentHash 2) rfl⟩

end Client.Run

end StridedViews
