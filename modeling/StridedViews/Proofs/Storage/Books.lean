import Mathlib.Algebra.Order.BigOperators.Group.List
import Mathlib.Algebra.Order.Group.Multiset
import Mathlib.Data.List.Flatten
import Mathlib.Data.Multiset.AddSub
import StridedViews.Proofs.Storage.Course

/-!
The books of registries. A registry's books agree with the buffers if they count just those of its
buffers that are not torn down, and their bytes. Every ending keeps them in agreement, in whatever
order the teardowns that it causes are entered: each takes out of the books what it takes out of the
pool (`booked_bring`).
-/

namespace StridedViews

variable {r : RegistryId} {b b' : Buffer} {bs bs' : List Buffer} {id : BufferId} {e : Ending}

/-! ### The buffers of a registry -/

/-- What the books of a registry know of a buffer: its length, if it is one of theirs. -/
def Buffer.entry (r : RegistryId) (b : Buffer) : List Nat :=
  if b.registry = some r then [b.length] else []

/-- The same of a buffer that is not torn down. -/
def Buffer.liveEntry (r : RegistryId) (b : Buffer) : List Nat :=
  if b.isReleased then [] else b.entry r

/-- The lengths of all buffers of a registry. -/
def lengthsIn (r : RegistryId) (bs : List Buffer) : List Nat := bs.flatMap (Buffer.entry r)

/-- The lengths of the buffers of a registry that are not torn down. -/
def liveLengthsIn (r : RegistryId) (bs : List Buffer) : List Nat := bs.flatMap (Buffer.liveEntry r)

/-- The lengths of the buffers of a registry that are torn down in some events. -/
def tornIn (r : RegistryId) (events : List StorageEvent) : List Nat :=
  events.flatMap fun
    | .tornDown registry length _ => if registry = some r then [length] else []
    | _ => []

theorem liveLengthsIn_eq_map :
    liveLengthsIn r bs =
      (bs.filter fun b => b.registry = some r ∧ b.isReleased = false).map (·.length) := by
  induction bs with
  | nil => rfl
  | cons b bs ih =>
    rw [liveLengthsIn, List.flatMap_cons, ← liveLengthsIn, ih]
    by_cases h : b.registry = some r <;> cases hr : b.isReleased <;>
      simp [Buffer.liveEntry, Buffer.entry, h, hr]

theorem tornIn_append (es es' : List StorageEvent) :
    tornIn r (es ++ es') = tornIn r es ++ tornIn r es' :=
  List.flatMap_append

theorem tornIn_lent (labels : List String) (n : BufferId) :
    tornIn r (labels.map (.gaveBack n)) = [] := by
  simp [tornIn]

theorem Buffer.entry_after (b : Buffer) : (b.after e).entry r = b.entry r := by
  rcases e with _ | _ | _ | _ <;> rfl

theorem Buffer.liveEntry_after (b : Buffer) : (b.after e).liveEntry r = b.liveEntry r := by
  rw [liveEntry, liveEntry, entry_after, isReleased, contents_after, isReleased]

/-- An ending changes no length and no registry. -/
theorem lengthsIn_endBuffer : lengthsIn r (endBuffer bs id e).1 = lengthsIn r bs := by
  induction bs generalizing id e with
  | nil => rfl
  | cons x older ih =>
    by_cases hid : id = Numbered.next older
    · subst hid
      rcases endBuffer_next x older e with ⟨-, found, -, heq⟩ | ⟨cause, torn, -, -, htorn, heq⟩
      · rw [heq, lengthsIn, List.flatMap_cons, x.entry_after, lengthsIn, List.flatMap_cons]
      · have hpassed : lengthsIn r torn.1 = lengthsIn r older := by
          rcases htorn with ⟨-, rfl⟩ | ⟨-, parent, -, rfl⟩
          · rfl
          · exact ih
        rw [heq, lengthsIn, List.flatMap_cons, ← lengthsIn, hpassed]
        exact congrArg (· ++ _) x.entry_after
    · rw [endBuffer, if_neg hid]
      exact congrArg (x.entry r ++ ·) ih

/-- What some events account for of what the buffers have: a teardown enters all that its buffer had,
and nothing else takes anything from a buffer. -/
structure AccountsFor {α : Type} (entered : StorageEvent → List α) (had : Buffer → List α) : Prop where
  after : ∀ (b : Buffer) e, had (b.after e) = had b
  tornDown : ∀ (b : Buffer) cause, had { b with contents := .tornDown cause } = []
  teardown : ∀ (b : Buffer) id cause, b.isReleased = false →
    had b = (b.lent.map (.gaveBack id)).flatMap entered ++
      entered (.tornDown b.registry b.length cause)
  redundant : ∀ r, entered (.redundant r) = []
  underflow : ∀ id h, entered (.underflow id h) = []

/-- What an ending takes from the buffers is what it enters. -/
theorem AccountsFor.endBuffer {α : Type} {entered : StorageEvent → List α} {had : Buffer → List α}
    (h : AccountsFor entered had) :
    (bs.flatMap had).Perm
      ((endBuffer bs id e).2.flatMap entered ++ (endBuffer bs id e).1.flatMap had) := by
  have hfault : ∀ (x : Buffer) n e, (x.underflow n e).flatMap entered = [] := by
    intro x n e
    cases e with
    | release => rfl
    | hold hold =>
      rw [Buffer.underflow]
      split
      · simp [h.underflow]
      · rfl
  induction bs generalizing id e with
  | nil => exact .refl _
  | cons x older ih =>
    by_cases hid : id = Numbered.next older
    · subst hid
      rcases endBuffer_next x older e with ⟨-, found, hfound, heq⟩ |
        ⟨cause, torn, -, hlive, htorn, heq⟩
      · have hnone : found.flatMap entered = [] := by rcases hfound with rfl | rfl <;> simp [h.redundant]
        rw [heq, List.flatMap_append, hfault, hnone, List.flatMap_cons, List.flatMap_cons, h.after]
        exact .refl _
      · have hpassed :
            ((x.lent.map (.gaveBack (Numbered.next older))).flatMap entered ++ older.flatMap had).Perm
              (torn.2.flatMap entered ++ torn.1.flatMap had) := by
          rcases htorn with ⟨-, rfl⟩ | ⟨hlent, parent, -, rfl⟩
          · exact .refl _
          · rw [hlent]
            exact ih
        rw [heq]
        dsimp only
        rw [List.flatMap_append, List.flatMap_append, hfault, List.flatMap_singleton, List.flatMap_cons,
          List.flatMap_cons, h.tornDown, h.teardown x (Numbered.next older) cause hlive]
        simp only [← Multiset.coe_eq_coe, ← Multiset.coe_add, List.nil_append] at hpassed ⊢
        rw [add_right_comm, hpassed, add_right_comm]
    · rw [StridedViews.endBuffer, if_neg hid]
      have hrest : (older.flatMap had).Perm ((StridedViews.endBuffer older id e).2.flatMap entered ++
          (StridedViews.endBuffer older id e).1.flatMap had) := ih
      simp only [← Multiset.coe_eq_coe, ← Multiset.coe_add, List.flatMap_cons] at hrest ⊢
      rw [hrest, add_left_comm]

/-- What an ending tears down is what is live before and not after it. -/
theorem liveLengthsIn_endBuffer :
    (liveLengthsIn r bs).Perm
      (tornIn r (endBuffer bs id e).2 ++ liveLengthsIn r (endBuffer bs id e).1) := by
  refine AccountsFor.endBuffer ⟨fun b e => b.liveEntry_after, fun _ _ => rfl, fun b n cause hlive => ?_,
    fun _ => rfl, fun _ _ => rfl⟩
  rw [← tornIn, tornIn_lent, Buffer.liveEntry, hlive]
  rfl

theorem flatMap_writeBytes {α : Type} {f : Buffer → List α} {start : Nat} {new : List UInt8}
    (hf : ∀ (b : Buffer) source source', b.contents = .live source → source'.lent = source.lent →
      f { b with contents := .live source' } = f b) :
    (writeBytes bs id start new).flatMap f = bs.flatMap f := by
  induction bs generalizing id start with
  | nil => rfl
  | cons x older ih =>
    rw [writeBytes]
    split
    · split
      · rfl
      · next bytes hl =>
        have hx := hf x _ (.owned (splice bytes start new)) hl rfl
        rw [List.flatMap_cons, hx, List.flatMap_cons]
      · next label bytes hl =>
        have hx := hf x _ (.foreign label (splice bytes start new)) hl rfl
        rw [List.flatMap_cons, hx, List.flatMap_cons]
      · rw [List.flatMap_cons, ih, List.flatMap_cons]
    · rw [List.flatMap_cons, ih, List.flatMap_cons]

/-! ### Books that agree -/

/-- The books of registry `r` agree with a list of buffers. -/
structure Registry.Agrees (books : Registry) (r : RegistryId) (bs : List Buffer) : Prop where
  liveBuffers : books.liveBuffers = (liveLengthsIn r bs).length
  liveBytes : books.liveBytes = (liveLengthsIn r bs).sum
  buffersCreated : books.stats.buffersCreated = (lengthsIn r bs).length
  bytesCreated : books.stats.bytesCreated = (lengthsIn r bs).sum
  closed : books.stats.buffersCreated = books.liveBuffers + books.stats.totalReleases

/-- Books in which teardowns of buffers of some lengths have been entered. -/
structure Registry.Tears (books : Registry) (lengths : List Nat) (books' : Registry) : Prop where
  liveBuffers : books'.liveBuffers = books.liveBuffers - lengths.length
  liveBytes : books'.liveBytes = books.liveBytes - lengths.sum
  buffersCreated : books'.stats.buffersCreated = books.stats.buffersCreated
  bytesCreated : books'.stats.bytesCreated = books.stats.bytesCreated
  peakLiveBytes : books'.stats.peakLiveBytes = books.stats.peakLiveBytes
  totalReleases : books'.stats.totalReleases = books.stats.totalReleases + lengths.length

theorem Registry.Tears.refl (books : Registry) : books.Tears [] books := ⟨rfl, rfl, rfl, rfl, rfl, rfl⟩

theorem Registry.Tears.trans {books books' books'' : Registry} {lengths lengths' : List Nat}
    (h : books.Tears lengths books') (h' : books'.Tears lengths' books'') :
    books.Tears (lengths ++ lengths') books'' where
  liveBuffers := by rw [h'.liveBuffers, h.liveBuffers, List.length_append, Nat.sub_sub]
  liveBytes := by rw [h'.liveBytes, h.liveBytes, List.sum_append, Nat.sub_sub]
  buffersCreated := h'.buffersCreated.trans h.buffersCreated
  bytesCreated := h'.bytesCreated.trans h.bytesCreated
  peakLiveBytes := h'.peakLiveBytes.trans h.peakLiveBytes
  totalReleases := by rw [h'.totalReleases, h.totalReleases, List.length_append, Nat.add_assoc]

theorem Registry.tears_recordTeardown (books : Registry) (length : Nat) (cause : ReleaseCause) :
    books.Tears [length] (books.recordTeardown length cause) where
  liveBuffers := rfl
  liveBytes := by rw [List.sum_singleton]; rfl
  buffersCreated := by cases cause <;> rfl
  bytesCreated := by cases cause <;> rfl
  peakLiveBytes := by cases cause <;> rfl
  totalReleases := books.stats.totalReleases_addRelease cause

/-- Books stay in agreement if the teardowns entered are those that happened. -/
theorem Registry.Agrees.tears {books books' : Registry} {lengths : List Nat}
    (h : books.Agrees r bs) (ht : books.Tears lengths books')
    (hlengths : lengthsIn r bs' = lengthsIn r bs)
    (hlive : (liveLengthsIn r bs).Perm (lengths ++ liveLengthsIn r bs')) : books'.Agrees r bs' := by
  have hcount := hlive.length_eq
  have hsum := hlive.sum_eq
  rw [List.length_append, ← h.liveBuffers] at hcount
  rw [List.sum_append, ← h.liveBytes] at hsum
  refine ⟨?_, ?_, ?_, ?_, ?_⟩
  · rw [ht.liveBuffers]
    omega
  · rw [ht.liveBytes]
    omega
  · rw [ht.buffersCreated, h.buffersCreated, hlengths]
  · rw [ht.bytesCreated, h.bytesCreated, hlengths]
  · rw [ht.buffersCreated, h.closed, ht.liveBuffers, ht.totalReleases]
    omega

/-- No more bytes are live than were ever entered. -/
theorem Registry.Agrees.liveBytes_le {books : Registry} (h : books.Agrees r bs) :
    books.liveBytes ≤ books.stats.bytesCreated := by
  rw [h.liveBytes, h.bytesCreated]
  refine List.Sublist.sum_le_sum (List.Sublist.flatMap_right bs fun b _ => ?_) fun _ _ => Nat.zero_le _
  rw [Buffer.liveEntry]
  split
  · exact List.nil_sublist _
  · exact List.Sublist.refl _

/-! ### Pools -/

namespace Pool

variable {p p' p'' : Pool}

theorem registry_of_le (h : p.registries.length ≤ r) : p.registry r = {} := by
  rw [registry, List.getElem?_eq_none h]
  rfl

theorem registry_book (p : Pool) (r' : Option RegistryId) (f : Registry → Registry) :
    (p.book r' f).registry r =
      if r' = some r ∧ r < p.registries.length then f (p.registry r) else p.registry r := by
  cases r' with
  | none => simp [book]
  | some n =>
    simp only [book, registry, List.getElem?_modify, Option.some.injEq]
    by_cases hn : n = r
    · by_cases hr : r < p.registries.length
      · simp [hn, hr]
      · simp [hn, hr]
    · simp [hn]

@[simp] theorem length_registries_book (p : Pool) (r' : Option RegistryId)
    (f : Registry → Registry) : (p.book r' f).registries.length = p.registries.length := by
  cases r' <;> simp [book]

@[simp] theorem length_registries_record (p : Pool) (event : StorageEvent) :
    (p.record event).registries.length = p.registries.length := by
  cases event <;> simp [record]

/-- Entering one event tears down in the books what it tears down. -/
theorem tears_record (p : Pool) (event : StorageEvent)
    (hr : r < p.registries.length ∨ tornIn r [event] = []) :
    (p.registry r).Tears (tornIn r [event]) ((p.record event).registry r) := by
  cases event with
  | gaveBack id label => exact .refl _
  | underflow id h => exact .refl _
  | redundant r' =>
    rw [record, registry_book]
    split
    · exact ⟨rfl, rfl, rfl, rfl, rfl, rfl⟩
    · exact .refl _
  | tornDown r' length cause =>
    rw [record, registry_book]
    by_cases hr' : r' = some r
    · have hone : tornIn r [.tornDown r' length cause] = [length] := by simp [tornIn, hr']
      have hlt := hr.resolve_right (by simp [hone])
      rw [hone, if_pos ⟨hr', hlt⟩]
      exact Registry.tears_recordTeardown ..
    · have hnone : tornIn r [.tornDown r' length cause] = [] := by simp [tornIn, hr']
      rw [hnone, if_neg fun h => hr' h.1]
      exact .refl _

theorem tears_foldl_record (p : Pool) (events : List StorageEvent)
    (hr : r < p.registries.length ∨ tornIn r events = []) :
    (p.registry r).Tears (tornIn r events) ((events.foldl record p).registry r) := by
  induction events generalizing p with
  | nil => exact .refl _
  | cons event rest ih =>
    have hsplit : tornIn r (event :: rest) = tornIn r [event] ++ tornIn r rest :=
      tornIn_append [event] rest
    rw [hsplit, List.append_eq_nil_iff] at hr
    rw [hsplit]
    refine (p.tears_record event (hr.imp_right And.left)).trans (ih _ ?_)
    rw [length_registries_record]
    exact hr.imp_right And.right

theorem length_registries_foldl_record (p : Pool) (events : List StorageEvent) :
    (events.foldl record p).registries.length = p.registries.length := by
  induction events generalizing p with
  | nil => rfl
  | cons event rest ih => rw [List.foldl_cons, ih, length_registries_record]

theorem length_registries_bring (p : Pool) (id : BufferId) (e : Ending) :
    (p.bring id e).registries.length = p.registries.length :=
  length_registries_foldl_record ..

/-- All books agree with the buffers, and no buffer belongs to a registry that there is not. -/
structure Booked (p : Pool) : Prop where
  known : ∀ r, p.registries.length ≤ r → lengthsIn r p.buffers = []
  agrees : ∀ r, (p.registry r).Agrees r p.buffers

/-- What an operation that makes no buffer does to the books. -/
structure KeepsBooks (p p' : Pool) : Prop where
  booked : p.Booked → p'.Booked
  lengths : ∀ r, lengthsIn r p'.buffers = lengthsIn r p.buffers
  peakLiveBytes : ∀ r, (p'.registry r).stats.peakLiveBytes = (p.registry r).stats.peakLiveBytes
  liveBytes_le : ∀ r, (p'.registry r).liveBytes ≤ (p.registry r).liveBytes

theorem KeepsBooks.trans (h : p.KeepsBooks p') (h' : p'.KeepsBooks p'') : p.KeepsBooks p'' where
  booked hb := h'.booked (h.booked hb)
  lengths r := (h'.lengths r).trans (h.lengths r)
  peakLiveBytes r := (h'.peakLiveBytes r).trans (h.peakLiveBytes r)
  liveBytes_le r := (h'.liveBytes_le r).trans (h.liveBytes_le r)

/-- An operation keeps the books if it changes neither them nor what they know of the buffers. -/
theorem KeepsBooks.of_lengths (hr : ∀ r, p'.registry r = p.registry r)
    (hlen : p.registries.length ≤ p'.registries.length)
    (hall : ∀ r, lengthsIn r p'.buffers = lengthsIn r p.buffers)
    (hlive : ∀ r, liveLengthsIn r p'.buffers = liveLengthsIn r p.buffers) : p.KeepsBooks p' where
  booked hb := by
    refine ⟨fun r hle => (hall r).trans (hb.known r (hlen.trans hle)), fun r => ?_⟩
    rw [hr]
    exact (hb.agrees r).tears (.refl _) (hall r) (by rw [hlive]; exact .refl _)
  lengths := hall
  peakLiveBytes r := by rw [hr]
  liveBytes_le r := by rw [hr]

theorem KeepsBooks.refl (p : Pool) : p.KeepsBooks p :=
  .of_lengths (fun _ => rfl) le_rfl (fun _ => rfl) fun _ => rfl

/-- A new registry has nothing in its books. -/
theorem registry_makeRegistry (p : Pool) (r : RegistryId) :
    Pool.registry { p with registries := p.registries ++ [{}] } r = p.registry r := by
  rw [registry, registry, List.getElem?_append]
  split
  · rfl
  · next hlt =>
    rw [List.getElem?_eq_none (Nat.not_lt.mp hlt)]
    cases r - p.registries.length <;> rfl

theorem keepsBooks_makeRegistry (p : Pool) :
    p.KeepsBooks { p with registries := p.registries ++ [{}] } :=
  .of_lengths p.registry_makeRegistry (by simp) (fun _ => rfl) fun _ => rfl

theorem keepsBooks_bring (p : Pool) (id : BufferId) (e : Ending) : p.KeepsBooks (p.bring id e) := by
  set buffers := (endBuffer p.buffers id e).1 with hbuffers
  set events := (endBuffer p.buffers id e).2 with hevents
  have hbring : p.bring id e = events.foldl record { p with buffers } := rfl
  have hlen := p.length_registries_bring id e
  have hreg : ∀ r, p.registries.length ≤ r → (p.bring id e).registry r = p.registry r := by
    intro r hle
    rw [registry_of_le hle, registry_of_le (hlen.symm ▸ hle)]
  have htears : ∀ r, r < p.registries.length ∨ tornIn r events = [] →
      (p.registry r).Tears (tornIn r events) ((p.bring id e).registry r) :=
    fun r hr => tears_foldl_record { p with buffers } events hr
  have hall : ∀ r, lengthsIn r (p.bring id e).buffers = lengthsIn r p.buffers := fun r => by
    rw [buffers_bring, lengthsIn_endBuffer]
  refine ⟨fun hb => ⟨fun r hle => ?_, fun r => ?_⟩, hall, fun r => ?_, fun r => ?_⟩
  · rw [hall]
    exact hb.known r (hlen ▸ hle)
  · rw [buffers_bring]
    have hlive : (liveLengthsIn r p.buffers).Perm (tornIn r events ++ liveLengthsIn r buffers) :=
      liveLengthsIn_endBuffer
    refine (hb.agrees r).tears (htears r ?_) lengthsIn_endBuffer hlive
    rcases Nat.lt_or_ge r p.registries.length with hlt | hle
    · exact .inl hlt
    · -- a registry that there is not has no buffer to tear down
      have hnone := (hb.agrees r).liveBuffers
      rw [registry_of_le hle] at hnone
      rw [List.length_eq_zero_iff.mp hnone.symm] at hlive
      exact .inr (List.append_eq_nil_iff.mp hlive.nil_eq.symm).1
  · rcases Nat.lt_or_ge r p.registries.length with hlt | hle
    · exact (htears r (.inl hlt)).peakLiveBytes
    · rw [hreg r hle]
  · rcases Nat.lt_or_ge r p.registries.length with hlt | hle
    · rw [(htears r (.inl hlt)).liveBytes]
      exact Nat.sub_le ..
    · rw [hreg r hle]

theorem keepsBooks_gain (p : Pool) (id : BufferId) (h : BufferHold) :
    p.KeepsBooks { p with buffers := Numbered.update (·.gain h) p.buffers id } :=
  .of_lengths (fun _ => rfl) le_rfl
    (fun _ => Numbered.flatMap_update fun _ _ => by cases h <;> rfl)
    (fun _ => Numbered.flatMap_update fun _ _ => by cases h <;> rfl)

theorem keepsBooks_overwrite (p : Pool) (id : BufferId) (new : List UInt8) :
    p.KeepsBooks (p.overwrite id new) :=
  .of_lengths (fun _ => rfl) le_rfl (fun _ => flatMap_writeBytes fun _ _ _ _ _ => rfl)
    (fun _ => flatMap_writeBytes fun b source source' h _ => by
      rw [Buffer.liveEntry, Buffer.liveEntry, Buffer.isReleased, Buffer.isReleased, h]
      rfl)

theorem registry_create {s : Store} {r' : Option RegistryId}
    (hr' : ∀ n, r' = some n → n < p.registries.length) (r : RegistryId) :
    (p.create s r').2.registry r =
      if r' = some r then (p.registry r).recordCreated s.length else p.registry r := by
  rw [create, registry_book]
  by_cases hr : r' = some r
  · rw [if_pos ⟨hr, hr' r hr⟩, if_pos hr]
    rfl
  · rw [if_neg fun h => hr h.1, if_neg hr]
    rfl

/-- A new buffer is entered into the books of its registry. -/
theorem booked_create {s : Store} {r' : Option RegistryId}
    (hr' : ∀ n, r' = some n → n < p.registries.length) (hb : p.Booked) :
    (p.create s r').2.Booked := by
  have hbuffers : (p.create s r').2.buffers = Buffer.ofStore s r' :: p.buffers := buffers_book ..
  have hentry : ∀ r, (Buffer.ofStore s r').liveEntry r = (Buffer.ofStore s r').entry r := fun _ => rfl
  refine ⟨fun r hle => ?_, fun r => ?_⟩
  · rw [create, length_registries_book] at hle
    have hne : r' ≠ some r := fun h => absurd (hr' r h) (Nat.not_lt.mpr hle)
    rw [hbuffers, lengthsIn, List.flatMap_cons, ← lengthsIn, hb.known r hle, Buffer.entry,
      Buffer.ofStore, if_neg hne, List.append_nil]
  · obtain ⟨hliveBuffers, hliveBytes, hbuffersCreated, hbytesCreated, hclosed⟩ := hb.agrees r
    have hall : lengthsIn r (p.create s r').2.buffers =
        (Buffer.ofStore s r').entry r ++ lengthsIn r p.buffers := by
      rw [hbuffers, lengthsIn, List.flatMap_cons, ← lengthsIn]
    have hlive : liveLengthsIn r (p.create s r').2.buffers =
        (Buffer.ofStore s r').entry r ++ liveLengthsIn r p.buffers := by
      rw [hbuffers, liveLengthsIn, List.flatMap_cons, ← liveLengthsIn, hentry]
    rw [Buffer.entry, Buffer.ofStore] at hall hlive
    rw [registry_create hr']
    by_cases hr : r' = some r
    · rw [if_pos hr] at hall hlive ⊢
      refine ⟨?_, ?_, ?_, ?_, ?_⟩ <;>
        simp only [hall, hlive, Registry.recordCreated, List.length_append, List.sum_append,
          List.length_singleton, List.sum_singleton, ReleaseStats.totalReleases] at * <;> omega
    · rw [if_neg hr] at hall hlive ⊢
      exact ⟨by rw [hlive]; exact hliveBuffers, by rw [hlive]; exact hliveBytes,
        by rw [hall]; exact hbuffersCreated, by rw [hall]; exact hbytesCreated, hclosed⟩

end Pool

end StridedViews
