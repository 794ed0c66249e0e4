import StridedViews.Layout.Offset
import StridedViews.Proofs.Fallible
import StridedViews.Proofs.Storage.Rights

/-!
Access to the bytes of a buffer by a function with effects. A visit goes from the buffer to the one that
it was exported from, and so on up to the bytes, and calls the function there; the function may change a
state of its caller's, so that how often it is called can be told. It is called once, on the bytes that
are read from the buffer (`Pool.accessRuns_of_bytes`, `Pool.editRuns_of_bytes`), or not at all if they
cannot be read (`Pool.accessFails_of_bytes`, `Pool.editFails_of_bytes`). They can if the way leads to
bytes, and otherwise it leads to a released buffer (`Pool.chain_cases`).
-/

namespace StridedViews

open Numbered (get? next)

variable {σ α β : Type}

/-! ### Visits with effects -/

/-- Visits the bytes of a buffer. An exported buffer visits those of its parent and slices its range out
of them. -/
def accessBytes : List Buffer → BufferId → (List UInt8 → Visit VisitFault σ Unit) →
    Visit VisitFault σ Unit
  | [], id, _ => Visit.ofExcept (.error (.error (.released id)))
  | b :: older, id, visit =>
    if id = next older then
      match b.contents with
      | .tornDown _ => Visit.ofExcept (.error (.error (.released id)))
      | .live (.owned bytes) => visit bytes
      | .live (.foreign _ bytes) => visit bytes
      | .live (.exported parent start) =>
          accessBytes older parent fun bytes => do
            visit (← Visit.ofExcept (sliceOf bytes start b.length))
    else
      accessBytes older id visit

/-- Visits a slice of some bytes to change it in place. -/
def editSlice (start length : Nat) (visit : List UInt8 → Visit VisitFault σ (List UInt8))
    (bytes : List UInt8) : Visit VisitFault σ (List UInt8) := do
  let new ← visit (← Visit.ofExcept (sliceOf bytes start length))
  return splice bytes start new

/-- Visits the bytes of a buffer to change them in place. Each buffer on the way has to be writable. -/
def editBytes : List Buffer → BufferId → (List UInt8 → Visit VisitFault σ (List UInt8)) →
    Visit VisitFault σ (List Buffer)
  | [], id, _ => Visit.ofExcept (.error (.error (.released id)))
  | b :: older, id, visit =>
    if id = next older then
      if b.readOnly then Visit.ofExcept (.error (.error (.readOnly id)))
      else match b.contents with
        | .tornDown _ => Visit.ofExcept (.error (.error (.released id)))
        | .live (.owned bytes) => do
            let new ← visit bytes
            return { b with contents := .live (.owned new) } :: older
        -- a lent region has the rights of its buffer, which have been asked for
        | .live (.foreign label bytes) => do
            let new ← visit bytes
            return { b with contents := .live (.foreign label new) } :: older
        | .live (.exported parent start) => do
            return b :: (← editBytes older parent (editSlice start b.length visit))
    else do
      return b :: (← editBytes older id visit)

/-! ### Functions that are called once -/

/-- A function that changes bytes in place and does something to a state of its caller's. -/
structure Editor (σ α : Type) where
  apply : List UInt8 → StateM σ (α × List UInt8)
  length_eq : ∀ bytes s, ((apply bytes).run s).1.2.length = bytes.length

/-- The state of a visit that has a function to call: that of its caller, whether the function has been
called, and what it has given. -/
structure Once (σ α : Type) where
  host : σ
  called : Bool
  result : Option α

namespace Once

/-- Calls a function on bytes, unless it has been called before. -/
def call (f : List UInt8 → StateM σ α) (bytes : List UInt8) : Visit VisitFault (Once σ α) Unit :=
  ExceptT.mk fun o =>
    if o.called then (.ok (), o)
    else
      let r := (f bytes).run o.host
      (.ok (), ⟨r.2, true, some r.1⟩)

/-- Has a function change bytes in place, unless it has been called before. -/
def edit (f : Editor σ α) (bytes : List UInt8) : Visit VisitFault (Once σ α) (List UInt8) :=
  ExceptT.mk fun o =>
    if o.called then (.ok bytes, o)
    else
      let r := (f.apply bytes).run o.host
      (.ok r.1.2, ⟨r.2, true, some r.1.1⟩)

/-- Makes a visit with a function that has not been called yet. If the visit comes about and the function
has not been called then either, the buffer counts as released. -/
def visiting (id : BufferId) (visit : Visit VisitFault (Once σ α) β) : Visit VisitFault σ (α × β) :=
  ExceptT.mk fun s =>
    match visit.run ⟨s, false, none⟩ with
    | (.error e, o) => (.error e, o.host)
    | (.ok b, o) =>
      match o.result with
      | some a => (.ok (a, b), o.host)
      | none => (.error (.error (.released id)), o.host)

end Once

namespace Pool

/-- Has a function do something with the bytes of a buffer. -/
def access (p : Pool) (id : BufferId) (f : List UInt8 → StateM σ α) : Visit VisitFault σ α := do
  let r ← Once.visiting id (accessBytes p.buffers id (Once.call f))
  return r.1

/-- Has a function change the bytes of a buffer in place. -/
def edit (p : Pool) (id : BufferId) (f : Editor σ α) : Visit VisitFault σ (α × Pool) := do
  let r ← Once.visiting id (editBytes p.buffers id (Once.edit f))
  return (r.1, { p with buffers := r.2 })

end Pool

/-! ### Where visits get to -/

variable {bs : List Buffer} {b : Buffer} {id : BufferId}

/-- No slice of a visit is out of range, so that it gets to the bytes that are read from the buffer. -/
theorem accessBytes_eq (hs : SizedBuffers bs) (id : BufferId)
    (visit : List UInt8 → Visit VisitFault σ Unit) :
    accessBytes bs id visit = Visit.ofExcept ((bytesOf bs id).mapError .error) >>= visit := by
  induction bs generalizing id visit with
  | nil => rfl
  | cons b older ih =>
    by_cases hid : id = next older
    · rw [accessBytes, bytesOf, if_pos hid, if_pos hid]
      cases hc : b.contents with
      | tornDown cause => rfl
      | live source =>
        cases source with
        | owned bytes => rfl
        | foreign label bytes => rfl
        | exported parent start =>
          obtain ⟨q, hq, hle, -⟩ := hs.parent_next hc
          dsimp only
          rw [ih hs.tail]
          cases hwhole : bytesOf older parent with
          | error e => rfl
          | ok whole =>
            have hslice : sliceOf whole start b.length = .ok (window whole start b.length) :=
              if_pos (hle.trans (length_bytesOf hs.tail hq hwhole).ge)
            change (Visit.ofExcept (sliceOf whole start b.length) >>= visit) =
              visit (window whole start b.length)
            rw [hslice]
            rfl
    · rw [accessBytes, bytesOf, if_neg hid, if_neg hid]
      exact ih hs.tail id visit

/-- What is done after a visit only matters for what the visit gives. -/
theorem Visit.bind_congr {ε : Type} {m : Visit ε σ α} {k k' : α → Visit ε σ β}
    (h : ∀ s a s', m.run s = (.ok a, s') → k a = k' a) : m >>= k = m >>= k' := by
  refine ExceptT.ext (funext fun s => ?_)
  rcases hm : m.run s with ⟨e | a, s'⟩
  · rw [run_bind_of_error hm, run_bind_of_error hm]
  · rw [run_bind_of_ok hm, run_bind_of_ok hm, h s a s' hm]

/-- A visit keeps the number of bytes that it is made on. -/
def KeepsLength (visit : List UInt8 → Visit VisitFault σ (List UInt8)) : Prop :=
  ∀ region s new s', (visit region).run s = (.ok new, s') → new.length = region.length

theorem editSlice_eq {start length : Nat} {region : List UInt8}
    (visit : List UInt8 → Visit VisitFault σ (List UInt8)) (hin : start + length ≤ region.length) :
    editSlice start length visit region = do
      return splice region start (← visit (window region start length)) := by
  rw [editSlice, sliceOf, if_pos hin]
  rfl

theorem KeepsLength.editSlice {start length : Nat}
    {visit : List UInt8 → Visit VisitFault σ (List UInt8)} (hv : KeepsLength visit) :
    KeepsLength (editSlice start length visit) := by
  intro region s whole s' h
  by_cases hin : start + length ≤ region.length
  · rw [editSlice_eq visit hin] at h
    obtain ⟨new, s₁, hnew, hrest⟩ := run_bind_eq_ok_iff.mp h
    cases hrest
    refine length_splice ?_
    rw [hv _ _ _ _ hnew, length_window hin]
    omega
  · rw [StridedViews.editSlice, sliceOf, if_neg hin] at h
    cases h

/-- A visit that keeps the number of bytes gets to those that are read from a writable buffer, and they
are replaced where they are. -/
theorem editBytes_eq (hs : SizedBuffers bs) (hb : get? bs id = some b) (hro : b.readOnly = false)
    {visit : List UInt8 → Visit VisitFault σ (List UInt8)} (hv : KeepsLength visit) :
    editBytes bs id visit = do
      let region ← Visit.ofExcept ((bytesOf bs id).mapError .error)
      return writeBytes bs id 0 (← visit region) := by
  induction bs generalizing id b visit with
  | nil => cases hb
  | cons x older ih =>
    by_cases hid : id = next older
    · subst hid
      obtain rfl : x = b := by
        rw [Numbered.get?_cons_next] at hb
        exact Option.some.inj hb
      rw [editBytes, if_pos rfl, if_neg (by simp [hro]), bytesOf, if_pos rfl]
      simp only [writeBytes, if_true]
      cases hc : x.contents with
      | tornDown cause => rfl
      | live source =>
        cases source with
        | owned bytes | foreign _ bytes =>
          refine Visit.bind_congr fun s new s' hrun => ?_
          dsimp only
          rw [splice_all (hv bytes s new s' hrun)]
        | exported parent start =>
          -- the parent of a writable buffer is writable, so that the visit goes on there
          obtain ⟨q, hq, hle, hqro⟩ := hs.parent_next hc
          dsimp only
          rw [ih hs.tail hq (hqro ▸ hro) hv.editSlice]
          cases hwhole : bytesOf older parent with
          | error e => rfl
          | ok whole =>
            have hin : start + x.length ≤ whole.length := by rwa [length_bytesOf hs.tail hq hwhole]
            change ((editSlice start x.length visit whole >>= fun new =>
                pure (writeBytes older parent 0 new)) >>= fun rest => pure (x :: rest)) =
              (visit (window whole start x.length) >>= fun new =>
                pure (x :: writeBytes older parent start new))
            rw [editSlice_eq visit hin]
            simp only [bind_assoc, pure_bind]
            refine Visit.bind_congr fun s new s' hrun => ?_
            have hlength : new.length = x.length := by
              rw [hv _ s new s' hrun, length_window hin]
            rw [writeBytes_splice hs.tail hwhole (hlength ▸ hin)]
    · rw [Numbered.get?, if_neg hid] at hb
      rw [editBytes, if_neg hid, ih hs.tail hb hro hv, bytesOf, if_neg hid]
      simp only [writeBytes, if_neg hid, bind_assoc, pure_bind]

/-- No visit that may change bytes gets into a read-only buffer. -/
theorem editBytes_of_readOnly (hb : get? bs id = some b) (hro : b.readOnly = true)
    (visit : List UInt8 → Visit VisitFault σ (List UInt8)) :
    editBytes bs id visit = Visit.ofExcept (.error (.error (.readOnly id))) := by
  induction bs with
  | nil => cases hb
  | cons x older ih =>
    rw [get?] at hb
    rw [editBytes]
    split at hb
    · next hid =>
      cases hb
      rw [if_pos hid, if_pos hro]
    · next hid =>
      rw [if_neg hid, ih hb]
      rfl

namespace Pool

variable {p : Pool}

/-- A function that does something with the bytes of a buffer is called once, on `seen`. -/
def AccessRuns (p : Pool) (id : BufferId) (seen : List UInt8) : Prop :=
  ∀ (σ α : Type) (f : List UInt8 → StateM σ α) (s : σ),
    (p.access id f).run s = (.ok ((f seen).run s).1, ((f seen).run s).2)

/-- No function that does something with the bytes of a buffer is called. -/
def AccessFails (p : Pool) (id : BufferId) (e : BufferError) : Prop :=
  ∀ (σ α : Type) (f : List UInt8 → StateM σ α) (s : σ), (p.access id f).run s = (.error (.error e), s)

/-- A function that changes the bytes of a buffer is called once, on `seen`, and what it makes of them is
what the buffer has then. -/
def EditRuns (p : Pool) (id : BufferId) (seen : List UInt8) : Prop :=
  ∀ (σ α : Type) (f : Editor σ α) (s : σ),
    let r := (f.apply seen).run s
    (p.edit id f).run s = (.ok (r.1.1, p.overwrite id r.1.2), r.2)

/-- No function that changes the bytes of a buffer is called. -/
def EditFails (p : Pool) (id : BufferId) (e : BufferError) : Prop :=
  ∀ (σ α : Type) (f : Editor σ α) (s : σ), (p.edit id f).run s = (.error (.error e), s)

theorem accessRuns_of_bytes {seen : List UInt8} (hs : SizedBuffers p.buffers)
    (h : p.bytes id = .ok seen) : p.AccessRuns id seen := by
  intro σ α f s
  rw [access, accessBytes_eq hs, show bytesOf p.buffers id = _ from h]
  rfl

theorem accessFails_of_bytes {e : BufferError} (hs : SizedBuffers p.buffers)
    (h : p.bytes id = .error e) : p.AccessFails id e := by
  intro σ α f s
  rw [access, accessBytes_eq hs, show bytesOf p.buffers id = _ from h]
  rfl

theorem keepsLength_edit (f : Editor σ α) : KeepsLength (Once.edit f) := by
  intro region o new o' h
  rw [Once.edit] at h
  change (if o.called then _ else _) = _ at h
  split at h
  · cases h
    rfl
  · cases h
    exact f.length_eq region o.host

theorem editRuns_of_bytes {seen : List UInt8} (hs : SizedBuffers p.buffers)
    (hb : p.get? id = some b) (hro : b.readOnly = false) (h : p.bytes id = .ok seen) :
    p.EditRuns id seen := by
  intro σ α f s
  rw [edit, editBytes_eq hs hb hro (keepsLength_edit f), show bytesOf p.buffers id = _ from h]
  rfl

theorem editFails_of_bytes {e : BufferError} (hs : SizedBuffers p.buffers)
    (hb : p.get? id = some b) (hro : b.readOnly = false) (h : p.bytes id = .error e) :
    p.EditFails id e := by
  intro σ α f s
  rw [edit, editBytes_eq hs hb hro (keepsLength_edit f), show bytesOf p.buffers id = _ from h]
  rfl

theorem editFails_of_readOnly (hb : p.get? id = some b) (hro : b.readOnly = true) :
    p.EditFails id (.readOnly id) := by
  intro σ α f s
  rw [edit, editBytes_of_readOnly hb hro]
  rfl

theorem writableBytes_of_writable (hb : p.get? id = some b) (hro : b.readOnly = false) :
    p.writableBytes id = p.bytes id := by
  simp [writableBytes, hb, hro]

theorem writableBytes_of_readOnly (hb : p.get? id = some b) (hro : b.readOnly = true) :
    p.writableBytes id = .error (.readOnly id) := by
  simp [writableBytes, hb, hro]

/-! ### Functions without effects -/

/-- A function without effects gives what it does without a state to thread. -/
theorem access_pure (hs : SizedBuffers p.buffers) (id : BufferId) (f : List UInt8 → α) (s : σ) :
    (p.access id fun bytes => pure (f bytes)).run s = (p.withBytes id f, s) := by
  cases h : p.bytes id with
  | ok seen =>
    rw [accessRuns_of_bytes hs h, (shows_of_bytes hs h).visit]
    rfl
  | error e =>
    rw [accessFails_of_bytes hs h, withBytes, visitBytes_eq hs, show bytesOf p.buffers id = _ from h]
    rfl

theorem edit_pure (hs : SizedBuffers p.buffers) (hb : p.get? id = some b)
    {f : List UInt8 → α × List UInt8} (hf : ∀ w, (f w).2.length = w.length) (s : σ) :
    (p.edit id ⟨fun bytes => pure (f bytes), fun w _ => hf w⟩).run s = (p.withBytesMut id f, s) := by
  cases hro : b.readOnly with
  | true =>
    rw [editFails_of_readOnly hb hro, withBytesMut, alterBytes_of_readOnly hb hro]
    rfl
  | false =>
    cases h : p.bytes id with
    | ok seen =>
      rw [editRuns_of_bytes hs hb hro h, withBytesMut_eq hs hb hro h hf]
      rfl
    | error e =>
      rw [editFails_of_bytes hs hb hro h, withBytesMut, alterBytes_eq hs hb hro,
        show bytesOf p.buffers id = _ from h]
      · rfl
      · intro w changed hw
        cases hw
        exact hf w

/-! ### The way to the bytes -/

/-- A released buffer on the way keeps the bytes from being read. -/
theorem Chain.bytes_of_isReleased {n : BufferId} {q : Buffer} {start : Nat}
    (hs : SizedBuffers p.buffers) (hc : p.Chain n id start) (hq : p.get? n = some q)
    (hr : q.isReleased = true) : p.bytes id = .error (.released n) := by
  induction hc with
  | root => exact bytesOf_of_isReleased hq hr
  | @exported parent id start offset b h hb hl ih =>
    rw [bytes, bytesOf_exported hs hb hl]
    exact congrArg _ ih

/-- The way from a buffer leads to bytes, or to a released buffer. -/
theorem chain_cases (hs : SizedBuffers p.buffers) (hb : p.get? id = some b) :
    (∃ root r source bytes start, p.Root root r source bytes ∧ p.Chain root id start) ∨
      ∃ n q start, p.Chain n id start ∧ p.get? n = some q ∧ q.isReleased = true := by
  induction id using Nat.strong_induction_on generalizing b with
  | h id ih =>
    cases hc : b.contents with
    | tornDown cause =>
      exact .inr ⟨id, b, 0, .root, hb, Buffer.isReleased_iff.mpr ⟨cause, hc⟩⟩
    | live source =>
      cases source with
      | owned bytes => exact .inl ⟨id, b, _, bytes, 0, ⟨hb, hc, rfl⟩, .root⟩
      | foreign label bytes => exact .inl ⟨id, b, _, bytes, 0, ⟨hb, hc, rfl⟩, .root⟩
      | exported parent offset =>
        obtain ⟨q, hq, -, -, hlt⟩ := hs.parent hb hc
        rcases ih parent hlt hq with ⟨root, r, source, bytes, start, hr, hchain⟩ | ⟨n, q, start, hchain, hn⟩
        · exact .inl ⟨root, r, source, bytes, _, hr, .exported hchain hb hc⟩
        · exact .inr ⟨n, q, _, .exported hchain hb hc, hn⟩

end Pool

end StridedViews
