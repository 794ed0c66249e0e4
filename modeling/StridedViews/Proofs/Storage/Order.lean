import Mathlib.Algebra.Order.Group.Multiset
import Mathlib.Data.Multiset.AddSub
import Mathlib.Tactic.Abel
import StridedViews.Proofs.Storage.Course
import StridedViews.Sharing.Memory

/-!
The order in which holds end. Which of two endings tears a buffer down depends on their order, but
whether one of them does, and for which cause, does not (`Buffer.verdict_comm`); neither does what is
passed on to the buffers that it was exported from. So two endings commute, however far each of them
is passed on (`endTwice_comm`), and giving up some holds in any order leads to the same buffers and
to the same entries in the books (`endAll_perm`, `Memory.foldl_letGo_perm`).
-/

namespace StridedViews

open Numbered (next)

/-! ### Two endings of one buffer -/

namespace Buffer

variable {b : Buffer} {g h : BufferHold} {id : BufferId}

theorem lose_comm (b : Buffer) (g h : BufferHold) : (b.lose g).lose h = (b.lose h).lose g := by
  cases g <;> cases h <;> rfl

@[simp] theorem isReleased_lose (b : Buffer) (h : BufferHold) :
    (b.lose h).isReleased = b.isReleased := by
  cases h <;> rfl

theorem isHeld_of_endsUse (hu : b.endsUse h = true) : b.isHeld = true := by
  rw [isHeld_iff]
  cases h <;> simp [endsUse] at hu <;> omega

theorem isHeld_of_lose (hl : (b.lose h).isHeld = true) : b.isHeld = true := by
  rw [isHeld_iff] at hl ⊢
  cases h <;> simp only [lose] at hl <;> omega

/-- The buffer counts as attached once while a reference is attached. -/
def Viewed (b : Buffer) : Prop := 0 < b.attached → b.everAttached = true

/-- The use of a buffer ends with the later one of its last reference and its last pin. -/
theorem endsUse_or_comm (hv : b.Viewed) (hne : g ≠ h) :
    (b.endsUse g || (b.lose g).endsUse h) = (b.endsUse h || (b.lose h).endsUse g) := by
  rw [Viewed] at hv
  rw [Bool.eq_iff_iff]
  cases g <;> cases h <;> simp [endsUse, lose] at hne ⊢ <;> grind

/-- The release that two endings call for between them. -/
def verdict (b : Buffer) (g h : BufferHold) : Option ReleaseCause :=
  (b.due (.hold g)).or ((b.lose g).due (.hold h))

/-- The end of its use releases a buffer as deferred, whichever of two endings it comes with; else it
is dropped when nothing is left. -/
theorem verdict_eq (b : Buffer) (g h : BufferHold) :
    b.verdict g h =
      if b.endsUse g || (b.lose g).endsUse h then some .deferred
      else if !((b.lose g).lose h).isHeld && !b.isReleased then some .dropped
      else none := by
  simp only [verdict, due, isReleased_lose]
  by_cases hg : b.endsUse g = true
  · simp [hg]
  by_cases hu : (b.lose g).endsUse h = true
  · simp [hg, hu, isHeld_of_endsUse hu]
  by_cases hl : (b.lose g).isHeld = true
  · simp [hg, hu, hl]
  · have hl' : ((b.lose g).lose h).isHeld = false := by simpa using mt isHeld_of_lose hl
    cases hr : b.isReleased <;> simp [hg, hu, hl, hl']

theorem verdict_comm (hv : b.Viewed) (g h : BufferHold) : b.verdict g h = b.verdict h g := by
  rcases eq_or_ne g h with rfl | hne
  · rfl
  · rw [verdict_eq, verdict_eq, endsUse_or_comm hv hne, lose_comm]

/-- The buffer is torn down for a cause, if there is one, unless it was before. -/
def tear (b : Buffer) : Option ReleaseCause → Buffer
  | none => b
  | some cause => if b.isReleased then b else { b with contents := .tornDown cause }

/-- What is recorded of buffer `id` when it is released for a cause, if there is one. -/
def notes (b : Buffer) (id : BufferId) : Option ReleaseCause → List StorageEvent
  | none => []
  | some cause =>
    if b.isReleased then [.redundant b.registry]
    else b.lent.map (.gaveBack id) ++ [.tornDown b.registry b.length cause]

/-- The buffer that is unpinned when this one is released for a cause, if there is one. -/
def frees (b : Buffer) : Option ReleaseCause → Option BufferId
  | none => none
  | some _ =>
    match b.contents with
    | .live (.exported parent _) => some parent
    | _ => none

@[simp] theorem tear_none (b : Buffer) : b.tear none = b := rfl

@[simp] theorem notes_none (b : Buffer) (id : BufferId) : b.notes id none = [] := rfl

@[simp] theorem frees_none (b : Buffer) : b.frees none = none := rfl

/-- With an ending that calls for a release the use of the buffer is over. -/
theorem endsUse_lose_of_due (hd : b.due (.hold g) ≠ none) : (b.lose g).endsUse h = false := by
  by_cases hu : b.endsUse g = true
  · cases g <;> cases h <;> simp_all [endsUse, lose]
  · have hfree : (b.lose g).isHeld = false := by
      rw [due, if_neg hu] at hd
      cases hl : (b.lose g).isHeld with
      | false => rfl
      | true => simp [hl] at hd
    simpa [hfree] using mt (isHeld_of_endsUse (b := b.lose g) (h := h))

theorem isReleased_tear (b : Buffer) (cause : ReleaseCause) :
    (b.tear (some cause)).isReleased = true := by
  rw [tear]
  split
  · next hr => exact hr
  · rfl

theorem endsUse_tear (b : Buffer) (o : Option ReleaseCause) (h : BufferHold) :
    (b.tear o).endsUse h = b.endsUse h := by
  cases o with
  | none => rfl
  | some cause =>
    rw [tear]
    split
    · rfl
    · cases h <;> rfl

/-- A buffer that one ending releases is not released by the next. -/
theorem due_tear_eq_none (hd : b.due (.hold g) ≠ none) (h : BufferHold) :
    ((b.lose g).tear (b.due (.hold g))).due (.hold h) = none := by
  obtain ⟨cause, hcause⟩ := Option.ne_none_iff_exists'.mp hd
  have hr := (b.lose g).isReleased_tear cause
  have hu := endsUse_lose_of_due (h := h) hd
  rw [hcause, due, endsUse_tear, hu, hr]
  simp

theorem tear_lose (b : Buffer) (h : BufferHold) (o : Option ReleaseCause) :
    (b.lose h).tear o = (b.tear o).lose h := by
  cases o with
  | none => rfl
  | some cause =>
    rw [tear, tear, isReleased_lose]
    split
    · rfl
    · cases h <;> rfl

@[simp] theorem notes_lose (b : Buffer) (h : BufferHold) (id : BufferId) (o : Option ReleaseCause) :
    (b.lose h).notes id o = b.notes id o := by
  cases h <;> rfl

@[simp] theorem frees_lose (b : Buffer) (h : BufferHold) (o : Option ReleaseCause) :
    (b.lose h).frees o = b.frees o := by
  cases h <;> rfl

@[simp] theorem count_tear (b : Buffer) (o : Option ReleaseCause) (h : BufferHold) :
    (b.tear o).count h = b.count h := by
  cases o with
  | none => rfl
  | some cause =>
    rw [tear]
    split
    · rfl
    · cases h <;> rfl

theorem Viewed.lose_tear (hv : b.Viewed) (h : BufferHold) (o : Option ReleaseCause) :
    ((b.lose h).tear o).Viewed := by
  have hlose : (b.lose h).Viewed := by
    intro hpos
    rw [← after, everAttached_after]
    refine hv ?_
    cases h <;> simp only [lose] at hpos <;> omega
  cases o with
  | none => exact hlose
  | some cause =>
    rw [tear]
    split
    · exact hlose
    · exact hlose

/-- The faults of two endings. -/
theorem underflow_perm (b : Buffer) (id : BufferId) (g h : BufferHold) :
    (b.underflow id (.hold g) ++ (b.lose g).underflow id (.hold h)).Perm
      (b.underflow id (.hold h) ++ (b.lose h).underflow id (.hold g)) := by
  rcases eq_or_ne g h with rfl | hne
  · exact .refl _
  · have hg : (b.lose g).underflow id (.hold h) = b.underflow id (.hold h) := by
      rw [underflow, underflow, count_lose, if_neg hne.symm]
    have hh : (b.lose h).underflow id (.hold g) = b.underflow id (.hold g) := by
      rw [underflow, underflow, count_lose, if_neg hne]
    rw [hg, hh]
    exact List.perm_append_comm

end Buffer

/-! ### Two endings in a list of buffers -/

/-- Takes a pin off a buffer, if one is named. -/
def unpin (bs : List Buffer) : Option BufferId → List Buffer × List StorageEvent
  | none => (bs, [])
  | some id => endBuffer bs id (.hold .pin)

@[simp] theorem unpin_none (bs : List Buffer) : unpin bs none = (bs, []) := rfl

theorem next_unpin (bs : List Buffer) (o : Option BufferId) : next (unpin bs o).1 = next bs := by
  cases o with
  | none => rfl
  | some id => exact next_endBuffer ..

/-- The end of a hold on the newest buffer: what becomes of the buffer, and the pin that is taken off
an older one. -/
theorem endBuffer_head (b : Buffer) (older : List Buffer) (h : BufferHold) :
    (endBuffer (b :: older) (next older) (.hold h)).1 =
        (b.lose h).tear (b.due (.hold h)) :: (unpin older (b.frees (b.due (.hold h)))).1 ∧
      ((endBuffer (b :: older) (next older) (.hold h)).2 : Multiset StorageEvent) =
        b.underflow (next older) (.hold h) + b.notes (next older) (b.due (.hold h)) +
          (unpin older (b.frees (b.due (.hold h)))).2 := by
  rw [endBuffer, if_pos rfl]
  cases hd : b.due (.hold h) with
  | none => exact ⟨rfl, by simp [Buffer.notes, Buffer.frees, unpin]⟩
  | some cause =>
    cases hc : b.contents with
    | tornDown c =>
      have hr : b.isReleased = true := Buffer.isReleased_iff.mpr ⟨c, hc⟩
      refine ⟨by simp [Buffer.tear, Buffer.frees, hr, hc, Buffer.after], ?_⟩
      simp [Buffer.notes, Buffer.frees, hr, hc, ← Multiset.coe_add]
    | live source =>
      have hr : b.isReleased = false := by rw [Buffer.isReleased, hc]
      cases source with
      | owned bytes =>
        refine ⟨by simp [Buffer.tear, Buffer.frees, hr, hc, Buffer.after], ?_⟩
        simp [Buffer.notes, Buffer.frees, hr, hc, Buffer.lent, ← Multiset.coe_add]
      | foreign label bytes =>
        refine ⟨by simp [Buffer.tear, Buffer.frees, hr, hc, Buffer.after], ?_⟩
        simp [Buffer.notes, Buffer.frees, hr, hc, Buffer.lent, ← Multiset.coe_add]
      | exported parent start =>
        -- the pin goes before the teardown is entered
        refine ⟨by simp [Buffer.tear, Buffer.frees, unpin, hr, hc, Buffer.after], ?_⟩
        simp only [Buffer.notes, Buffer.frees, unpin, hr, hc, Buffer.lent, ← Multiset.coe_add,
          Bool.false_eq_true, if_false, List.map_nil, List.nil_append]
        exact add_right_comm ..

/-- Two endings brought to the newest buffer tear it down, if they do, for their common verdict. -/
theorem endBuffer_head_twice (b : Buffer) (older : List Buffer) (g h : BufferHold) :
    (endBuffer (endBuffer (b :: older) (next older) (.hold g)).1 (next older) (.hold h)).1 =
        ((b.lose g).lose h).tear (b.verdict g h) :: (unpin older (b.frees (b.verdict g h))).1 ∧
      ((endBuffer (b :: older) (next older) (.hold g)).2 : Multiset StorageEvent) +
        (endBuffer (endBuffer (b :: older) (next older) (.hold g)).1 (next older) (.hold h)).2 =
        (b.underflow (next older) (.hold g) ++ (b.lose g).underflow (next older) (.hold h) :
            List StorageEvent) +
          b.notes (next older) (b.verdict g h) + (unpin older (b.frees (b.verdict g h))).2 := by
  obtain ⟨hlist, hevents⟩ := endBuffer_head b older g
  obtain ⟨hlist', hevents'⟩ := endBuffer_head ((b.lose g).tear (b.due (.hold g)))
    (unpin older (b.frees (b.due (.hold g)))).1 h
  have hfault : ((b.lose g).tear (b.due (.hold g))).underflow (next older) (.hold h) =
      (b.lose g).underflow (next older) (.hold h) := by
    rw [Buffer.underflow, Buffer.underflow, Buffer.count_tear]
  rw [next_unpin] at hlist' hevents'
  rw [hlist, hlist', hevents, hevents', hfault, ← Multiset.coe_add, Buffer.verdict]
  by_cases hd : b.due (.hold g) = none
  · -- the first ending releases nothing
    simp only [hd, Option.none_or, Buffer.tear_none, Buffer.notes_none, Buffer.frees_none,
      Buffer.notes_lose, Buffer.frees_lose, unpin_none, Multiset.coe_nil, true_and]
    abel
  · -- the second one finds the buffer released
    rw [Buffer.due_tear_eq_none hd]
    obtain ⟨cause, hcause⟩ := Option.ne_none_iff_exists'.mp hd
    simp only [hcause, Option.some_or, Buffer.tear_lose _ h, Buffer.tear_none, Buffer.notes_none,
      Buffer.frees_none, unpin_none, Multiset.coe_nil, true_and]
    abel

/-- Two endings, with all events of both. -/
def endTwice (bs : List Buffer) (i : BufferId) (g : BufferHold) (j : BufferId) (h : BufferHold) :
    List Buffer × Multiset StorageEvent :=
  let first := endBuffer bs i (.hold g)
  let second := endBuffer first.1 j (.hold h)
  (second.1, first.2 + second.2)

variable {b : Buffer} {bs older : List Buffer} {i j : BufferId} {g h : BufferHold}

/-- Brought to the newest buffer, two endings commute. -/
theorem endTwice_comm_next (hv : b.Viewed) (g h : BufferHold) :
    endTwice (b :: older) (next older) g (next older) h =
      endTwice (b :: older) (next older) h (next older) g := by
  obtain ⟨hlist, hevents⟩ := endBuffer_head_twice b older g h
  obtain ⟨hlist', hevents'⟩ := endBuffer_head_twice b older h g
  refine Prod.ext ?_ ?_
  · rw [endTwice, endTwice, hlist, hlist', Buffer.verdict_comm hv, Buffer.lose_comm]
  · rw [endTwice, endTwice, hevents, hevents', Buffer.verdict_comm hv,
      Multiset.coe_eq_coe.mpr (b.underflow_perm ..)]

/-- An ending brought to an older buffer commutes with one brought to the newest, if it does with
those that are passed on. -/
theorem endTwice_comm_of_ne (hj : j ≠ next older)
    (ih : ∀ i, endTwice older i .pin j h = endTwice older j h i .pin) :
    endTwice (b :: older) (next older) g j h = endTwice (b :: older) j h (next older) g := by
  have hpass : ∀ o : Option BufferId,
      (endBuffer (unpin older o).1 j (.hold h)).1 = (unpin (endBuffer older j (.hold h)).1 o).1 ∧
        ((unpin older o).2 : Multiset StorageEvent) + (endBuffer (unpin older o).1 j (.hold h)).2 =
          (endBuffer older j (.hold h)).2 + (unpin (endBuffer older j (.hold h)).1 o).2 := by
    intro o
    cases o with
    | none => simp
    | some parent => exact Prod.ext_iff.mp (ih parent)
  have hrest : ∀ x bs, next bs = next older → endBuffer (x :: bs) j (.hold h) =
      (x :: (endBuffer bs j (.hold h)).1, (endBuffer bs j (.hold h)).2) := by
    intro x bs hbs
    rw [endBuffer, if_neg (by rwa [hbs])]
  obtain ⟨hlist, hevents⟩ := endBuffer_head b older g
  obtain ⟨hlist', hevents'⟩ := endBuffer_head b (endBuffer older j (.hold h)).1 g
  obtain ⟨hbuffers, hall⟩ := hpass (b.frees (b.due (.hold g)))
  rw [next_endBuffer] at hlist' hevents'
  refine Prod.ext ?_ ?_
  · simp only [endTwice]
    rw [hlist, hrest _ _ (next_unpin ..), hrest _ _ rfl, hlist', hbuffers]
  · simp only [endTwice]
    rw [hevents, hlist, hrest _ _ (next_unpin ..), hrest _ _ rfl, hevents', add_assoc, hall]
    abel

/-- Two endings commute, whatever buffers they are brought to and however far they are passed
on. -/
theorem endTwice_comm (hv : ∀ b ∈ bs, b.Viewed) (i : BufferId) (g : BufferHold) (j : BufferId)
    (h : BufferHold) : endTwice bs i g j h = endTwice bs j h i g := by
  induction bs generalizing i g j h with
  | nil => rfl
  | cons b older ih =>
    have ih := ih fun b hb => hv b (List.mem_cons_of_mem _ hb)
    by_cases hi : i = next older <;> by_cases hj : j = next older
    · subst hi hj
      exact endTwice_comm_next (hv b List.mem_cons_self) g h
    · subst hi
      exact endTwice_comm_of_ne hj fun i => ih i .pin j h
    · subst hj
      exact (endTwice_comm_of_ne hi fun j => ih j .pin i g).symm
    · have hrest := ih i g j h
      simp only [endTwice, Prod.ext_iff] at hrest
      simp only [endTwice, endBuffer, if_neg hi, if_neg hj, next_endBuffer, hrest]

/-! ### Many endings -/

/-- Ends the holds on buffers among some holds, one after the other, with all events. -/
def endAll (bs : List Buffer) : List Hold → List Buffer × Multiset StorageEvent
  | [] => (bs, 0)
  | .share _ :: rest => endAll bs rest
  | .buffer id h :: rest =>
    let first := endBuffer bs id (.hold h)
    let others := endAll first.1 rest
    (others.1, first.2 + others.2)

theorem viewed_endBuffer (hv : ∀ b ∈ bs, b.Viewed) :
    ∀ b ∈ (endBuffer bs i (.hold h)).1, b.Viewed := by
  induction bs generalizing i h with
  | nil => exact hv
  | cons b older ih =>
    obtain ⟨hb, holder⟩ := List.forall_mem_cons.mp hv
    by_cases hi : i = next older
    · subst hi
      rw [(endBuffer_head b older h).1]
      refine List.forall_mem_cons.mpr ⟨hb.lose_tear h _, ?_⟩
      cases b.frees (b.due (.hold h)) with
      | none => exact holder
      | some parent => exact ih holder
    · rw [endBuffer, if_neg hi]
      exact List.forall_mem_cons.mpr ⟨hb, ih holder⟩

/-- The order in which holds end matters neither to the buffers nor to what is recorded. -/
theorem endAll_perm {holds holds' : List Hold} (hperm : holds.Perm holds')
    (hv : ∀ b ∈ bs, b.Viewed) : endAll bs holds = endAll bs holds' := by
  induction hperm generalizing bs with
  | nil => rfl
  | cons x hperm ih =>
    cases x with
    | share i => exact ih hv
    | buffer id h => simp only [endAll, ih (viewed_endBuffer hv)]
  | swap x y rest =>
    cases x with
    | share i => cases y <;> rfl
    | buffer j h =>
      cases y with
      | share i => rfl
      | buffer i g =>
        have hcomm := endTwice_comm hv i g j h
        simp only [endTwice, Prod.ext_iff] at hcomm
        simp only [endAll, hcomm.1, ← add_assoc, hcomm.2]
  | trans _ _ ih ih' => exact (ih hv).trans (ih' hv)

/-! ### Books -/

namespace StorageEvent

/-- The registry in whose books an event is entered. -/
def registry? : StorageEvent → Option RegistryId
  | tornDown r _ _ | redundant r => r
  | gaveBack .. | underflow .. => none

/-- What an event changes in these books. -/
def enter : StorageEvent → Registry → Registry
  | tornDown _ length cause, books => books.recordTeardown length cause
  | redundant _, books => books.recordRedundant
  | gaveBack .., books | underflow .., books => books

/-- Enters an event in the books of its registry. -/
def enterIn (books : List Registry) (event : StorageEvent) : List Registry :=
  match event.registry? with
  | none => books
  | some r => books.modify r event.enter

theorem enter_comm (event event' : StorageEvent) (books : Registry) :
    event.enter (event'.enter books) = event'.enter (event.enter books) := by
  rcases event with _ | ⟨_, n, cause⟩ | _ | _ <;> rcases event' with _ | ⟨_, n', cause'⟩ | _ | _ <;>
    try rfl
  · cases cause <;> cases cause' <;>
      simp [enter, Registry.recordTeardown, ReleaseStats.addRelease, Nat.sub_right_comm]
  · cases cause <;> rfl
  · cases cause' <;> rfl

instance : RightCommutative enterIn where
  right_comm books event event' := by
    simp only [enterIn]
    cases event.registry? with
    | none => rfl
    | some r =>
      cases event'.registry? with
      | none => rfl
      | some r' =>
        rcases eq_or_ne r r' with rfl | hne
        · simp only [List.modify_modify_eq]
          congr 1
          funext x
          exact enter_comm ..
        · exact List.modify_modify_ne _ _ _ hne

end StorageEvent

namespace Pool

theorem registries_record (p : Pool) (event : StorageEvent) :
    (p.record event).registries = StorageEvent.enterIn p.registries event := by
  rcases event with _ | ⟨_ | r, n, cause⟩ | (_ | r) | _ <;> rfl

theorem registries_foldl_record (p : Pool) (events : List StorageEvent) :
    (events.foldl record p).registries = events.foldl StorageEvent.enterIn p.registries := by
  induction events generalizing p with
  | nil => rfl
  | cons event rest ih => rw [List.foldl_cons, ih, registries_record, List.foldl_cons]

end Pool

namespace Memory

variable {p : Pool} {holds holds' : List Hold}

/-- What giving up holds leaves of a pool: the buffers, and the books with all that happened. -/
theorem foldl_letGo (p : Pool) (holds : List Hold) :
    (holds.foldl letGo p).buffers = (endAll p.buffers holds).1 ∧
      (holds.foldl letGo p).registries =
        (endAll p.buffers holds).2.foldl StorageEvent.enterIn p.registries := by
  induction holds generalizing p with
  | nil => exact ⟨rfl, rfl⟩
  | cons hold rest ih =>
    cases hold with
    | share i => exact ih p
    | buffer id h =>
      obtain ⟨hbuffers, hregistries⟩ := ih (p.letGo id h)
      have hb : (p.letGo id h).buffers = (endBuffer p.buffers id (.hold h)).1 :=
        Pool.buffers_bring ..
      have hr : (p.letGo id h).registries =
          (endBuffer p.buffers id (.hold h)).2.foldl StorageEvent.enterIn p.registries :=
        Pool.registries_foldl_record ..
      rw [hb] at hbuffers hregistries
      rw [List.foldl_cons, letGo, endAll, hbuffers, hregistries, hr, Multiset.foldl_add,
        Multiset.coe_foldl]
      exact ⟨rfl, rfl⟩

/-- Holds given up in any order leave the same buffers and the same books. -/
theorem foldl_letGo_perm (hv : ∀ b ∈ p.buffers, b.Viewed) (hperm : holds.Perm holds') :
    (holds.foldl letGo p).buffers = (holds'.foldl letGo p).buffers ∧
      (holds.foldl letGo p).registries = (holds'.foldl letGo p).registries := by
  obtain ⟨hbuffers, hregistries⟩ := foldl_letGo p holds
  obtain ⟨hbuffers', hregistries'⟩ := foldl_letGo p holds'
  rw [hbuffers, hregistries, hbuffers', hregistries', endAll_perm hperm hv]
  exact ⟨rfl, rfl⟩

end Memory

end StridedViews
