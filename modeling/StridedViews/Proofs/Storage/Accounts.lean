import Mathlib.Data.Multiset.AddSub
import Mathlib.Algebra.Order.Group.Multiset
import StridedViews.Proofs.Storage.Course

/-!
The accounts of buffers. In a list of buffers that is sound for the holds from outside, every buffer
counts exactly the holds that there are on it, those of the stores exported from it included, and
its state is the one that its counts and its history call for. Bringing an ending to a buffer keeps
the list sound for the holds that are left and lowers no count below zero
(`soundBuffers_endBuffer`), however far the ending is passed on from store to store.
-/

namespace StridedViews

/-- The hold that an ending gives up. -/
def Ending.given (id : BufferId) : Ending → Multiset Hold
  | .release => 0
  | .hold h => {.buffer id h}

/-! ### One buffer -/

namespace Buffer

variable {b : Buffer}

/-- The buffer was attached once, and neither a reference nor a pin is left. -/
def Idle (b : Buffer) : Prop := b.everAttached = true ∧ b.attached = 0 ∧ b.pins = 0

/-- What the state of a buffer says about its counts. A live buffer is held by something and is not
idle; one whose release was deferred is idle; and one that was dropped is held by nothing. -/
def Fate (b : Buffer) : Prop :=
  match b.contents with
  | .live _ => b.isHeld = true ∧ ¬ b.Idle
  | .tornDown .explicit => True
  | .tornDown .deferred => b.Idle
  | .tornDown .dropped => b.isHeld = false

/-- An ending that calls for no release leaves a buffer held and in use if it was so before. -/
theorem fate_lose_of_due_eq_none {h : BufferHold} (hf : b.Fate) (hc : 0 < b.count h)
    (hd : b.due (.hold h) = none) : (b.lose h).Fate := by
  -- the cases are those of the hold; what is left compares the three counts with zero
  cases h <;> simp only [due, endsUse, count, lose, isHeld, isReleased, Fate, Idle] at * <;> grind

/-- The holds on a torn down buffer go without changing why it was torn down. -/
theorem fate_lose_of_isReleased {h : BufferHold} (hf : b.Fate) (hc : 0 < b.count h)
    (hr : b.isReleased = true) : (b.lose h).Fate := by
  obtain ⟨cause, ht⟩ := isReleased_iff.mp hr
  rw [Fate, contents_lose, ht]
  rw [Fate, ht] at hf
  cases cause with
  | explicit => trivial
  | deferred =>
    obtain ⟨hever, hattached, hpins⟩ := hf
    cases h with
    | handle => exact ⟨hever, hattached, hpins⟩
    | reference => exact absurd hattached hc.ne'
    | pin => exact absurd hpins hc.ne'
  | dropped => exact absurd (isHeld_of_count_pos hc) (by simp [hf])

/-- The cause that an ending calls for tells the counts that it leaves. -/
theorem fate_tearDown {e : Ending} {cause : ReleaseCause}
    (hv : 0 < b.attached → b.everAttached = true) (hd : b.due e = some cause) :
    Fate { b.after e with contents := .tornDown cause } := by
  cases e with
  | release =>
    cases hd
    trivial
  | hold h =>
    simp only [due] at hd
    split at hd
    · next huse =>
      cases hd
      cases h with
      | handle => cases huse
      | reference =>
        obtain ⟨hattached, hpins⟩ : b.attached = 1 ∧ b.pins = 0 := by simpa [endsUse] using huse
        exact ⟨hv (by omega), by simp [after, lose, hattached], hpins⟩
      | pin =>
        obtain ⟨⟨hpins, hattached⟩, hever⟩ :
            (b.pins = 1 ∧ b.attached = 0) ∧ b.everAttached = true := by
          simpa [endsUse] using huse
        exact ⟨hever, hattached, by simp [after, lose, hpins]⟩
    · split at hd
      · next hheld =>
        cases hd
        have hfree : (b.lose h).isHeld = false := by simp_all
        exact hfree
      · cases hd

theorem fate_gain {h : BufferHold} (hf : b.Fate)
    (hl : h = .handle ∧ b.isHeld = true ∨ b.isReleased = false) : (b.gain h).Fate := by
  have hc : (b.gain h).contents = b.contents := by cases h <;> rfl
  rw [Fate] at hf ⊢
  rw [hc]
  cases hcontents : b.contents with
  | live source =>
    rw [hcontents] at hf
    obtain ⟨-, hidle⟩ := hf
    refine ⟨isHeld_of_count_pos (h := h) ?_, fun ⟨hever, hattached, hpins⟩ => ?_⟩
    · rw [count_gain, if_pos rfl]
      exact Nat.succ_pos _
    · cases h with
      | handle => exact hidle ⟨hever, hattached, hpins⟩
      | reference => cases hattached
      | pin => cases hpins
  | tornDown cause =>
    rw [hcontents] at hf
    obtain ⟨rfl, hheld⟩ := hl.resolve_right (by simp [isReleased, hcontents])
    cases cause with
    | explicit => trivial
    | deferred => exact hf
    | dropped => exact absurd (hheld.symm.trans hf) (by simp)

/-- A buffer of number `id` is sound for some holds if it counts those that are on it and its state
is the one that its counts and its history call for. -/
structure SoundAt (b : Buffer) (id : BufferId) (outside : Multiset Hold) : Prop where
  counted : ∀ h, b.count h = outside.count (.buffer id h)
  viewed : 0 < b.attached → b.everAttached = true
  fate : b.Fate

variable {id : BufferId} {e : Ending} {outside : Multiset Hold}

theorem SoundAt.count_pos {h : BufferHold} (hb : b.SoundAt id (Ending.given id (.hold h) + outside)) :
    0 < b.count h := by
  rw [hb.counted h, Multiset.count_add, Ending.given, Multiset.count_singleton_self]
  omega

/-- A hold that is there is counted, so no count is lowered below zero. -/
theorem SoundAt.underflow_eq_nil (hb : b.SoundAt id (e.given id + outside)) :
    b.underflow id e = [] := by
  cases e with
  | release => rfl
  | hold h => exact if_neg hb.count_pos.ne'

theorem SoundAt.counted_after (hb : b.SoundAt id (e.given id + outside)) (h : BufferHold) :
    (b.after e).count h = outside.count (.buffer id h) := by
  have hcount := hb.counted h
  cases e with
  | release => simpa [Ending.given, Buffer.after] using hcount
  | hold g =>
    rw [Ending.given, Multiset.count_add, Multiset.count_singleton] at hcount
    rw [after, count_lose]
    by_cases hg : h = g
    · subst hg
      rw [if_pos rfl] at hcount ⊢
      omega
    · rw [if_neg (fun heq => hg (by injection heq))] at hcount
      rw [if_neg hg, hcount, Nat.zero_add]

theorem SoundAt.viewed_after (hb : b.SoundAt id outside) (e : Ending) :
    0 < (b.after e).attached → (b.after e).everAttached = true := by
  rw [everAttached_after]
  intro hpos
  refine hb.viewed ?_
  rcases e with _ | h
  · exact hpos
  · cases h <;> simp only [after, lose] at hpos <;> omega

/-- An ending that does not tear the buffer down leaves it sound for the holds that are left. -/
theorem SoundAt.after (hb : b.SoundAt id (e.given id + outside))
    (hd : b.due e = none ∨ b.isReleased = true) :
    (b.after e).SoundAt id outside := by
  refine ⟨hb.counted_after, hb.viewed_after e, ?_⟩
  cases e with
  | release => exact hb.fate
  | hold h =>
    rcases hd with hd | hr
    · exact fate_lose_of_due_eq_none hb.fate hb.count_pos hd
    · exact fate_lose_of_isReleased hb.fate hb.count_pos hr

theorem SoundAt.tearDown {cause : ReleaseCause} (hb : b.SoundAt id (e.given id + outside))
    (hd : b.due e = some cause) :
    SoundAt { b.after e with contents := .tornDown cause } id outside :=
  ⟨hb.counted_after, hb.viewed_after e, fate_tearDown hb.viewed hd⟩

@[simp] theorem holds_gain (h : BufferHold) : (b.gain h).holds = b.holds := by cases h <;> rfl

theorem SoundAt.gain {h : BufferHold} (hb : b.SoundAt id outside)
    (hl : h = .handle ∧ b.isHeld = true ∨ b.isReleased = false) :
    (b.gain h).SoundAt id ({.buffer id h} + outside) where
  counted h' := by
    rw [count_gain, Multiset.count_add, Multiset.count_singleton, hb.counted]
    split
    · next heq =>
      rw [heq, if_pos rfl, Nat.add_comm]
    · next hne => rw [if_neg fun heq => hne (by injection heq), Nat.zero_add]
  viewed := by
    cases h with
    | reference => exact fun _ => rfl
    | handle => exact hb.viewed
    | pin => exact hb.viewed
  fate := fate_gain hb.fate hl

/-- Other bytes leave a live buffer sound. -/
theorem SoundAt.rewrite {source : Source} (hb : b.SoundAt id outside) (hl : b.contents = .live source)
    (source' : Source) : SoundAt { b with contents := .live source' } id outside := by
  refine ⟨hb.counted, hb.viewed, ?_⟩
  have hf := hb.fate
  rw [Fate, hl] at hf
  exact hf

end Buffer

/-! ### Lists of buffers -/

/-- A list of buffers is sound for the holds from outside if each buffer is, where to an older buffer
the stores of the newer ones are outside as well. -/
def SoundBuffers : List Buffer → Multiset Hold → Prop
  | [], _ => True
  | b :: older, outside =>
    b.SoundAt (Numbered.next older) outside ∧ SoundBuffers older (outside + (b.holds : Multiset Hold))

variable {bs : List Buffer} {id : BufferId} {e : Ending} {outside outside' : Multiset Hold}

/-- Only the holds on the buffers of the list matter. -/
theorem SoundBuffers.congr (hs : SoundBuffers bs outside)
    (hc : ∀ id h, id ≤ bs.length →
      outside.count (.buffer id h) = outside'.count (.buffer id h)) :
    SoundBuffers bs outside' := by
  induction bs generalizing outside outside' with
  | nil => trivial
  | cons b older ih =>
    obtain ⟨⟨hcounted, hviewed, hfate⟩, holder⟩ := hs
    refine ⟨⟨fun h => ?_, hviewed, hfate⟩, ih holder fun id h hle => ?_⟩
    · rw [hcounted, hc (Numbered.next older) h le_rfl]
    · rw [Multiset.count_add, Multiset.count_add, hc id h (Nat.le_succ_of_le hle)]

theorem count_given_of_ne {n : BufferId} (hne : n ≠ id) (h : BufferHold) :
    (e.given id + outside).count (.buffer n h) = outside.count (.buffer n h) := by
  rw [Multiset.count_add]
  cases e with
  | release => simp [Ending.given]
  | hold g => simp [Ending.given, hne]

/-- A hold on a buffer that is not in the list does not matter to the list. -/
theorem SoundBuffers.of_given (hlt : bs.length < id) (hs : SoundBuffers bs (e.given id + outside)) :
    SoundBuffers bs outside :=
  hs.congr fun _ h hle => count_given_of_ne (Nat.ne_of_lt (Nat.lt_of_le_of_lt hle hlt)) h

/-- Bringing an ending to a buffer gives up the hold that it stands for, and with it the pins of all
stores that are torn down on the way; it keeps the list sound, and every hold that goes was
counted. -/
theorem soundBuffers_endBuffer (hs : SoundBuffers bs (e.given id + outside)) :
    SoundBuffers (endBuffer bs id e).1 outside ∧
      ∀ n h, .underflow n h ∉ (endBuffer bs id e).2 := by
  induction bs generalizing id e outside with
  | nil => exact ⟨trivial, fun _ _ => List.not_mem_nil⟩
  | cons b older ih =>
    obtain ⟨hb, holder⟩ := hs
    rw [add_assoc] at holder
    by_cases hid : id = Numbered.next older
    · subst hid
      have hrest := holder.of_given (Nat.lt_succ_self _)
      rcases endBuffer_next b older e with ⟨hd, found, hfound, heq⟩ |
        ⟨cause, torn, hd, -, htorn, heq⟩
      · rw [heq, hb.underflow_eq_nil]
        refine ⟨⟨hb.after hd, by rwa [Buffer.holds_after]⟩, fun n h => ?_⟩
        rcases hfound with rfl | rfl <;> simp
      · rw [heq, hb.underflow_eq_nil]
        have hold : SoundBuffers torn.1 outside ∧ ∀ n h, .underflow n h ∉ torn.2 := by
          rcases htorn with ⟨hnone, rfl⟩ | ⟨-, parent, hpin, rfl⟩
          · rw [hnone] at hrest
            exact ⟨by simpa using hrest, by simp⟩
          · -- the store's own pin is the next hold to go
            rw [hpin, add_comm] at hrest
            exact ih hrest
        refine ⟨⟨?_, by simpa [Buffer.holds] using hold.1⟩, fun n h => by simpa using hold.2 n h⟩
        rw [htorn.next_eq]
        exact hb.tearDown hd
    · have hne : Numbered.next older ≠ id := Ne.symm hid
      obtain ⟨hsound, hfault⟩ := ih holder
      rw [endBuffer, if_neg hid]
      refine ⟨⟨⟨fun h => ?_, hb.viewed, hb.fate⟩, hsound⟩, hfault⟩
      rw [hb.counted, count_given_of_ne hne, next_endBuffer]

/-- A new hold is counted. A buffer that is torn down takes only handles, and those only while it is
held. -/
theorem soundBuffers_gain {h : BufferHold} (hs : SoundBuffers bs outside)
    (hb : ∀ b, Numbered.get? bs id = some b →
      h = .handle ∧ b.isHeld = true ∨ b.isReleased = false) :
    SoundBuffers (Numbered.update (·.gain h) bs id) ({.buffer id h} + outside) := by
  induction bs generalizing outside with
  | nil => trivial
  | cons x older ih =>
    obtain ⟨hx, holder⟩ := hs
    rw [Numbered.update]
    split
    · next hid =>
      subst hid
      refine ⟨hx.gain (hb x (Numbered.get?_cons_next ..)), ?_⟩
      rw [add_assoc, Buffer.holds_gain]
      refine holder.congr fun n h' hle => (count_given_of_ne (e := .hold h) ?_ h').symm
      exact Nat.ne_of_lt (Nat.lt_succ_of_le hle)
    · next hid =>
      refine ⟨?_, ?_⟩
      · rw [Numbered.next_update]
        refine ⟨fun h' => ?_, hx.viewed, hx.fate⟩
        rw [hx.counted, ← count_given_of_ne (e := .hold h) (Ne.symm hid)]
        rfl
      · rw [add_assoc]
        exact ih holder fun b hget => hb b (Numbered.get?_cons_of_get? x hget)

/-- Rewriting bytes changes no account. -/
theorem soundBuffers_writeBytes (start : Nat) (new : List UInt8) (hs : SoundBuffers bs outside) :
    SoundBuffers (writeBytes bs id start new) outside := by
  induction bs generalizing id start outside with
  | nil => trivial
  | cons x older ih =>
    obtain ⟨hx, holder⟩ := hs
    have hback : ∀ id start, SoundBuffers (x :: writeBytes older id start new) outside := by
      intro id start
      refine ⟨?_, ih start holder⟩
      rw [Numbered.next, length_writeBytes]
      exact hx
    rw [writeBytes]
    split
    · split
      · exact ⟨hx, holder⟩
      · next bytes hl =>
        rw [Buffer.holds, hl] at holder
        exact ⟨hx.rewrite hl _, holder⟩
      · next label bytes hl =>
        rw [Buffer.holds, hl] at holder
        exact ⟨hx.rewrite hl _, holder⟩
      · exact hback ..
    · exact hback ..

/-- A new buffer is held by its handle, and takes the holds of its store. -/
theorem soundBuffers_cons_ofStore {s : Store} (r : Option RegistryId)
    (hnew : ∀ h, outside.count (.buffer (Numbered.next bs) h) = 0)
    (hs : SoundBuffers bs ((s.holds : Multiset Hold) + outside)) :
    SoundBuffers (.ofStore s r :: bs) ({.buffer (Numbered.next bs) .handle} + outside) := by
  refine ⟨⟨fun h => ?_, fun h => absurd h (Nat.lt_irrefl 0), ?_⟩, ?_⟩
  · rw [Multiset.count_add, hnew]
    cases h <;> simp [Buffer.ofStore, Buffer.count]
  · refine ⟨rfl, ?_⟩
    rintro ⟨h, -⟩
    cases h
  · have hholds : (Buffer.ofStore s r).holds = s.holds := rfl
    rw [hholds, add_assoc, add_comm outside]
    refine hs.congr fun n h hle => (count_given_of_ne (e := .hold .handle) ?_ h).symm
    exact Nat.ne_of_lt (Nat.lt_succ_of_le hle)

theorem SoundBuffers.soundAt {b : Buffer} (hs : SoundBuffers bs outside)
    (hb : Numbered.get? bs id = some b) : ∃ outside', outside ≤ outside' ∧ b.SoundAt id outside' := by
  induction bs generalizing outside with
  | nil => cases hb
  | cons x older ih =>
    obtain ⟨hx, holder⟩ := hs
    rw [Numbered.get?] at hb
    split at hb
    · next hid =>
      subst hid
      cases hb
      exact ⟨outside, le_rfl, hx⟩
    · obtain ⟨outside', hle, hsound⟩ := ih holder hb
      exact ⟨outside', (Multiset.le_add_right ..).trans hle, hsound⟩

/-- Where every exported store is newer than the buffer that it pins, the counts of a buffer are those
of all holds on it: those from outside and those of all buffers. -/
theorem SoundBuffers.count_eq {b : Buffer} {h : BufferHold} (hs : SoundBuffers bs outside)
    (hold : ∀ n x, Numbered.get? bs n = some x → ∀ m h, .buffer m h ∈ x.holds → m < n)
    (hb : Numbered.get? bs id = some b) :
    b.count h = (outside + (bs.flatMap Buffer.holds : List Hold)).count (.buffer id h) := by
  induction bs generalizing outside with
  | nil => cases hb
  | cons x older ih =>
    obtain ⟨hx, holder⟩ := hs
    rw [List.flatMap_cons, ← Multiset.coe_add, ← add_assoc]
    rw [Numbered.get?] at hb
    split at hb
    · next hid =>
      subst hid
      cases hb
      -- neither the buffer itself nor an older one pins it
      have hself : .buffer (Numbered.next older) h ∉ b.holds := fun hm =>
        Nat.lt_irrefl _ (hold _ b (Numbered.get?_cons_next ..) _ _ hm)
      have holders : .buffer (Numbered.next older) h ∉ older.flatMap Buffer.holds := by
        rw [List.mem_flatMap]
        rintro ⟨y, hy, hm⟩
        obtain ⟨n, hn⟩ := Numbered.mem_iff_get?.mp hy
        have hlt := hold n y (Numbered.get?_cons_of_get? b hn) _ _ hm
        have hle := Numbered.le_length_of_get? hn
        simp only [Numbered.next] at hlt
        omega
      rw [Multiset.count_add, Multiset.count_add, Multiset.coe_count, Multiset.coe_count,
        List.count_eq_zero.mpr hself, List.count_eq_zero.mpr holders, hx.counted, add_zero, add_zero]
    · exact ih holder (fun n y hn => hold n y (Numbered.get?_cons_of_get? x hn)) hb

/-! ### Pools -/

/-- A pool whose buffers are sound for the holds from outside, and in which no count was ever lowered
below zero. -/
structure Pool.Sound (p : Pool) (outside : Multiset Hold) : Prop where
  buffers : SoundBuffers p.buffers outside
  faultless : p.underflows = []

namespace Pool.Sound

variable {p : Pool}

theorem congr (hp : p.Sound outside)
    (hc : ∀ id h, id ≤ p.buffers.length →
      outside.count (.buffer id h) = outside'.count (.buffer id h)) : p.Sound outside' :=
  ⟨hp.buffers.congr hc, hp.faultless⟩

theorem bring {e : Ending} (hp : p.Sound (e.given id + outside)) : (p.bring id e).Sound outside := by
  obtain ⟨hsound, hfault⟩ := soundBuffers_endBuffer hp.buffers
  refine ⟨by rwa [buffers_bring], ?_⟩
  rw [← hp.faultless]
  exact underflows_record _ hfault

theorem gain {h : BufferHold} (hp : p.Sound outside)
    (hb : ∀ b, p.get? id = some b → h = .handle ∧ b.isHeld = true ∨ b.isReleased = false) :
    Pool.Sound { p with buffers := Numbered.update (·.gain h) p.buffers id }
      ({.buffer id h} + outside) :=
  ⟨soundBuffers_gain hp.buffers hb, hp.faultless⟩

theorem overwrite (hp : p.Sound outside) (id : BufferId) (new : List UInt8) :
    (p.overwrite id new).Sound outside :=
  ⟨soundBuffers_writeBytes 0 new hp.buffers, hp.faultless⟩

theorem create {s : Store} (r : Option RegistryId)
    (hnew : ∀ h, outside.count (.buffer (Numbered.next p.buffers) h) = 0)
    (hp : p.Sound ((s.holds : Multiset Hold) + outside)) :
    (p.create s r).2.Sound ({.buffer (p.create s r).1 .handle} + outside) := by
  refine ⟨?_, (underflows_book ..).trans hp.faultless⟩
  rw [Pool.create, buffers_book]
  exact soundBuffers_cons_ofStore r hnew hp.buffers

end Pool.Sound

end StridedViews
