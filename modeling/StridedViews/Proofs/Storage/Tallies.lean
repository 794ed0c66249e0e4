import StridedViews.Proofs.Storage.Books
import StridedViews.Proofs.Storage.Endings

/-!
Teardowns by cause. For every cause, the books of a registry count as many releases as buffers of the
registry were torn down for that cause (`Pool.Tallied`), and all that is done to a pool keeps it so.
-/

namespace StridedViews

/-- The releases that are counted for a cause. -/
def ReleaseStats.releases (s : ReleaseStats) : ReleaseCause → Nat
  | .explicit => s.explicitReleases
  | .deferred => s.deferredReleases
  | .dropped => s.droppedReleases

theorem ReleaseStats.releases_addRelease (s : ReleaseStats) (cause cause' : ReleaseCause) :
    (s.addRelease cause').releases cause = s.releases cause + if cause' = cause then 1 else 0 := by
  cases cause <;> cases cause' <;> rfl

/-- Whether a buffer of a registry was torn down for a cause. -/
def Buffer.fellIn (r : RegistryId) (cause : ReleaseCause) (b : Buffer) : Bool :=
  b.registry = some r ∧ b.contents = .tornDown cause

/-- How often some events tear down a buffer of a registry for a cause. -/
def fallsIn (r : RegistryId) (cause : ReleaseCause) (events : List StorageEvent) : Nat :=
  events.countP fun
    | .tornDown registry _ c => registry = some r ∧ c = cause
    | _ => false

variable {r : RegistryId} {cause : ReleaseCause} {b : Buffer} {bs : List Buffer} {id : BufferId}
  {e : Ending}

theorem fallsIn_append (es es' : List StorageEvent) :
    fallsIn r cause (es ++ es') = fallsIn r cause es + fallsIn r cause es' :=
  List.countP_append

theorem countP_underflow {counts : StorageEvent → Bool} (h : ∀ id g, counts (.underflow id g) = false)
    (n : BufferId) : (b.underflow n e).countP counts = 0 := by
  cases e with
  | release => rfl
  | hold g =>
    rw [Buffer.underflow]
    split
    · exact List.countP_eq_zero.mpr fun event hmem => by
        rw [List.mem_singleton.mp hmem, h]
        exact Bool.false_ne_true
    · rfl

theorem countP_lent {counts : StorageEvent → Bool} (h : ∀ id label, counts (.gaveBack id label) = false)
    (labels : List String) (n : BufferId) : (labels.map (.gaveBack n)).countP counts = 0 := by
  rw [List.countP_eq_zero]
  simp [h]

theorem fallsIn_underflow (n : BufferId) : fallsIn r cause (b.underflow n e) = 0 :=
  countP_underflow (fun _ _ => rfl) n

theorem fallsIn_lent (labels : List String) (n : BufferId) :
    fallsIn r cause (labels.map (.gaveBack n)) = 0 :=
  countP_lent (fun _ _ => rfl) labels n

theorem Buffer.fellIn_after (b : Buffer) : (b.after e).fellIn r cause = b.fellIn r cause := by
  rcases e with _ | _ | _ | _ <;> rfl

theorem Buffer.fellIn_of_live (hl : b.isReleased = false) : b.fellIn r cause = false := by
  refine decide_eq_false ?_
  rintro ⟨-, hc⟩
  cases hl.symm.trans (isReleased_iff.mpr ⟨cause, hc⟩)

/-- An ending tears down as many buffers as its events say. -/
theorem countP_endBuffer :
    (endBuffer bs id e).1.countP (Buffer.fellIn r cause) =
      bs.countP (Buffer.fellIn r cause) + fallsIn r cause (endBuffer bs id e).2 := by
  induction bs generalizing id e with
  | nil => rfl
  | cons x older ih =>
    by_cases hid : id = Numbered.next older
    · subst hid
      rcases endBuffer_next x older e with ⟨-, found, hfound, heq⟩ |
        ⟨c, torn, -, hlive, htorn, heq⟩
      · have hnone : fallsIn r cause found = 0 := by rcases hfound with rfl | rfl <;> rfl
        rw [heq, fallsIn_append, fallsIn_underflow, hnone, List.countP_cons, List.countP_cons,
          Buffer.fellIn_after]
        rfl
      · have hpassed : torn.1.countP (Buffer.fellIn r cause) =
            older.countP (Buffer.fellIn r cause) + fallsIn r cause torn.2 := by
          rcases htorn with ⟨-, rfl⟩ | ⟨-, parent, -, rfl⟩
          · rw [fallsIn_lent]
            rfl
          · exact ih
        have hlast : fallsIn r cause [.tornDown x.registry x.length c] =
            if Buffer.fellIn r cause { x.after e with contents := .tornDown c } then 1 else 0 := by
          have hregistry : (x.after e).registry = x.registry := by rcases e with _ | _ | _ | _ <;> rfl
          simp [fallsIn, Buffer.fellIn, hregistry]
        rw [heq, fallsIn_append, fallsIn_append, fallsIn_underflow, hlast, List.countP_cons,
          List.countP_cons, hpassed, Buffer.fellIn_of_live hlive]
        simp only [Bool.false_eq_true, if_false]
        omega
    · rw [endBuffer, if_neg hid, List.countP_cons, List.countP_cons, ih]
      exact Nat.add_right_comm ..

theorem countP_eq_length_flatMap (q : Buffer → Bool) (bs : List Buffer) :
    bs.countP q = (bs.flatMap fun b => if q b then [()] else []).length := by
  induction bs with
  | nil => rfl
  | cons b bs ih =>
    rw [List.countP_cons, List.flatMap_cons, List.length_append, ih, Nat.add_comm]
    cases q b <;> rfl

/-- Rewritten bytes do not change how many buffers have what only torn down buffers can have. -/
theorem countP_writeBytes {q : Buffer → Bool} (hq : ∀ b : Buffer, b.isReleased = false → q b = false)
    (bs : List Buffer) (id : BufferId) (start : Nat) (new : List UInt8) :
    (writeBytes bs id start new).countP q = bs.countP q := by
  rw [countP_eq_length_flatMap, countP_eq_length_flatMap]
  refine congrArg _ (flatMap_writeBytes fun b source source' hl _ => ?_)
  have hlive : b.isReleased = false := by rw [Buffer.isReleased, hl]
  have hlive' : Buffer.isReleased { b with contents := .live source' } = false := rfl
  rw [hq b hlive, hq _ hlive']

namespace Pool

variable {p p' : Pool} {d : Option Deed}

/-- Neither does a new buffer. -/
theorem countP_create {q : Buffer → Bool} (hq : ∀ b : Buffer, b.isReleased = false → q b = false)
    (s : Store) (r : Option RegistryId) :
    (p.create s r).2.buffers.countP q = p.buffers.countP q := by
  have hbuffers : (p.create s r).2.buffers = Buffer.ofStore s r :: p.buffers := buffers_book ..
  rw [hbuffers, List.countP_cons, hq _ rfl]
  rfl

/-- The books of every registry count the buffers of the registry that were torn down, cause by
cause. -/
def Tallied (p : Pool) : Prop :=
  ∀ r cause, (p.registry r).stats.releases cause = p.buffers.countP (Buffer.fellIn r cause)

theorem releases_record (p : Pool) (event : StorageEvent) (hr : r < p.registries.length) :
    ((p.record event).registry r).stats.releases cause =
      (p.registry r).stats.releases cause + fallsIn r cause [event] := by
  cases event with
  | gaveBack id label => rfl
  | underflow id h => rfl
  | redundant r' =>
    rw [record, registry_book]
    split
    · cases cause <;> rfl
    · rfl
  | tornDown r' length c =>
    rw [record, registry_book]
    by_cases hr' : r' = some r
    · rw [if_pos ⟨hr', hr⟩]
      refine ((p.registry r).stats.releases_addRelease cause c).trans ?_
      simp [fallsIn, hr']
    · rw [if_neg fun h => hr' h.1]
      simp [fallsIn, hr']

/-- What every event adds to an entry of the books, some events add for each of them that counts. -/
theorem entry_foldl_record {f : Registry → Nat} {counts : StorageEvent → Bool}
    (h : ∀ (p : Pool) event, r < p.registries.length →
      f ((p.record event).registry r) = f (p.registry r) + [event].countP counts)
    (p : Pool) (events : List StorageEvent) (hr : r < p.registries.length) :
    f ((events.foldl record p).registry r) = f (p.registry r) + events.countP counts := by
  induction events generalizing p with
  | nil => rfl
  | cons event rest ih =>
    rw [List.foldl_cons, ih _ (by rwa [length_registries_record]), h p event hr, Nat.add_assoc,
      ← List.countP_append]
    rfl

/-- A registry that there is not has no buffer. -/
theorem Booked.registry_ne (hb : p.Booked) (hle : p.registries.length ≤ r) :
    ∀ b ∈ p.buffers, b.registry ≠ some r := by
  intro b hmem hr
  have hnone := List.flatMap_eq_nil_iff.mp (hb.known r hle) b hmem
  rw [Buffer.entry, if_pos hr] at hnone
  cases hnone

theorem Booked.countP_fellIn (hb : p.Booked) (hle : p.registries.length ≤ r) :
    p.buffers.countP (Buffer.fellIn r cause) = 0 := by
  rw [List.countP_eq_zero]
  exact fun b hmem hfell => hb.registry_ne hle b hmem (of_decide_eq_true hfell).1

theorem Tallied.bring (hp : p.Booked ∧ p.Tallied) (id : BufferId) (e : Ending) :
    (p.bring id e).Booked ∧ (p.bring id e).Tallied := by
  have hbooked := (p.keepsBooks_bring id e).booked hp.1
  refine ⟨hbooked, fun r cause => ?_⟩
  rcases Nat.lt_or_ge r p.registries.length with hlt | hle
  · rw [buffers_bring, countP_endBuffer, ← hp.2 r cause]
    exact entry_foldl_record (f := fun registry => registry.stats.releases cause)
      releases_record { p with buffers := (endBuffer p.buffers id e).1 } _ hlt
  · have hle' : (p.bring id e).registries.length ≤ r := (p.length_registries_bring id e).trans_le hle
    rw [hbooked.countP_fellIn hle', registry_of_le hle']
    cases cause <;> rfl

theorem Tallied.bringAll (hb : p.Booked) (hp : p.Tallied) (endings : List (BufferId × Ending)) :
    (p.bringAll endings).Tallied :=
  (bringAll_induction (P := fun p => p.Booked ∧ p.Tallied) (fun _ id e h => Tallied.bring h id e)
    ⟨hb, hp⟩ endings).2

theorem Tallied.of_countP (hp : p.Tallied) (hr : ∀ r, p'.registry r = p.registry r)
    (hcount : ∀ r cause, p'.buffers.countP (Buffer.fellIn r cause) =
      p.buffers.countP (Buffer.fellIn r cause)) : p'.Tallied := by
  intro r cause
  rw [hr, hcount]
  exact hp r cause

theorem Tallied.gain (hp : p.Tallied) (id : BufferId) (h : BufferHold) :
    Tallied { p with buffers := Numbered.update (·.gain h) p.buffers id } := by
  refine hp.of_countP (fun _ => rfl) fun r cause => ?_
  rw [countP_eq_length_flatMap, countP_eq_length_flatMap]
  exact congrArg _ (Numbered.flatMap_update fun _ _ => by cases h <;> rfl)

/-- Whatever is done to a pool, the books keep count. -/
theorem Tallied.change (hb : p.Booked) (hp : p.Tallied) (hc : p.Change d p') : p'.Tallied := by
  cases hc with
  | quiet | giveBack => exact hp
  | addRegistry => exact hp.of_countP p.registry_makeRegistry fun _ _ => rfl
  | hold hhold =>
    obtain ⟨-, -, -, rfl⟩ := hold_eq_ok_iff.mp hhold
    exact hp.gain _ _
  | share => exact hp.gain _ .handle
  | giveUp => exact hp.bringAll hb _
  | release => exact hp.bringAll hb _
  | overwrite =>
    exact hp.of_countP (fun _ => rfl) fun _ _ => countP_writeBytes (fun _ => Buffer.fellIn_of_live) ..
  | @create s r' hr =>
    intro r cause
    rw [countP_create fun _ => Buffer.fellIn_of_live, ← hp r cause, registry_create hr]
    split
    · cases cause <;> rfl
    · rfl

end Pool

end StridedViews
