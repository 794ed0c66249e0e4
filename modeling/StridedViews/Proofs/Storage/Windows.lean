import StridedViews.Proofs.Storage.Sizes

/-!
Windows: what exported buffers see of the bytes that they were exported from. A buffer is visited
through all that it was exported from, each of which slices its range out of the bytes of the one
before. No slice is ever out of range (`visitBytes_eq`, `alterBytes_eq`), so the slices of a chain of
exports come to one window of the bytes at its root, for reading and for writing
(`Pool.Chain.bytes_eq`, `Pool.Chain.overwrite_eq`).
-/

namespace StridedViews

open Numbered (get? next update)

/-! ### Ranges of lists -/

/-- The bytes of a range. -/
def window (bytes : List UInt8) (start length : Nat) : List UInt8 := (bytes.drop start).take length

section Ranges

variable {bytes new : List UInt8} {start offset length n : Nat}

theorem length_window (h : start + length ≤ bytes.length) : (window bytes start length).length = length := by
  rw [window, List.length_take, List.length_drop]
  omega

/-- A window of a window is a window. -/
theorem window_window (h : offset + n ≤ length) :
    window (window bytes start length) offset n = window bytes (start + offset) n := by
  rw [window, window, window, List.drop_take, List.take_take, List.drop_drop, Nat.min_eq_left]
  omega

theorem window_zero (bytes : List UInt8) : window bytes 0 bytes.length = bytes := by
  rw [window, List.drop_zero, List.take_length]

theorem length_splice_window (hnew : offset + new.length ≤ length)
    (h : start + length ≤ bytes.length) :
    (splice (window bytes start length) offset new).length = length := by
  rw [length_splice (by rw [length_window h]; omega), length_window h]

/-- Replacing a part of a window replaces it where the window is. -/
theorem splice_window (hnew : offset + new.length ≤ length) (h : start + length ≤ bytes.length) :
    splice bytes start (splice (window bytes start length) offset new) =
      splice bytes (start + offset) new := by
  have hlength := length_splice_window hnew h
  have hbefore : bytes.take start ++ (window bytes start length).take offset =
      bytes.take (start + offset) := by
    rw [window, List.take_take, Nat.min_eq_left (by omega), List.take_add]
  have hbehind : (window bytes start length).drop (offset + new.length) ++
      bytes.drop (start + length) = bytes.drop (start + offset + new.length) := by
    have hrest : bytes.drop (start + length) = (bytes.drop (start + offset + new.length)).drop
        (length - (offset + new.length)) := by
      rw [List.drop_drop]
      congr 1
      omega
    rw [window, List.drop_take, List.drop_drop, ← Nat.add_assoc, hrest, List.take_append_drop]
  rw [splice, hlength, splice, splice, ← hbefore, ← hbehind]
  simp only [List.append_assoc]

theorem splice_all (h : new.length = bytes.length) : splice bytes 0 new = new := by
  rw [splice, List.take_zero, List.nil_append, Nat.zero_add, h, List.drop_length, List.append_nil]

theorem splice_nil (bytes : List UInt8) (start : Nat) : splice bytes start [] = bytes := by
  rw [splice, List.append_nil, List.length_nil, Nat.add_zero, List.take_append_drop]

/-- A splice has the new bytes where they were put, and the old ones everywhere else. -/
theorem getElem?_splice (h : start + new.length ≤ bytes.length) (k : Nat) :
    (splice bytes start new)[k]? =
      if start ≤ k ∧ k < start + new.length then new[k - start]? else bytes[k]? := by
  have hbefore : (bytes.take start).length = start := by
    rw [List.length_take]
    omega
  rw [splice, List.append_assoc]
  rcases Nat.lt_or_ge k start with hk | hk
  · rw [if_neg (by omega), List.getElem?_append_left (by omega), List.getElem?_take_of_lt hk]
  · rw [List.getElem?_append_right (by omega), hbefore]
    rcases Nat.lt_or_ge (k - start) new.length with hin | hout
    · rw [if_pos (by omega), List.getElem?_append_left hin]
    · rw [if_neg (by omega), List.getElem?_append_right hout, List.getElem?_drop]
      congr 1
      omega

theorem window_splice_self (h : start + new.length ≤ bytes.length) :
    window (splice bytes start new) start new.length = new := by
  refine List.ext_getElem? fun k => ?_
  rw [window, List.getElem?_take]
  split
  · next hk =>
    rw [List.getElem?_drop, getElem?_splice h, if_pos (by omega), Nat.add_sub_cancel_left]
  · next hk => exact (List.getElem?_eq_none (Nat.le_of_not_lt hk)).symm

/-- A window that lies apart from the new bytes shows the old ones. -/
theorem window_splice_of_apart (h : start + new.length ≤ bytes.length)
    (hn : offset + n ≤ start ∨ start + new.length ≤ offset) :
    window (splice bytes start new) offset n = window bytes offset n := by
  refine List.ext_getElem? fun k => ?_
  rw [window, window, List.getElem?_take, List.getElem?_take]
  split
  · rw [List.getElem?_drop, List.getElem?_drop, getElem?_splice h, if_neg (by omega)]
  · rfl

/-- New bytes inside a window are seen in it. -/
theorem window_splice (hnew : offset + new.length ≤ length) (h : start + length ≤ bytes.length) :
    window (splice bytes (start + offset) new) start length =
      splice (window bytes start length) offset new := by
  have hlength := length_splice_window hnew h
  rw [← splice_window hnew h]
  nth_rewrite 2 [← hlength]
  exact window_splice_self (by omega)

end Ranges

/-! ### Visits -/

/-- Why a visit to the bytes of a buffer does not come about. -/
inductive VisitFault where
  | error (e : BufferError)
  /-- A range was sliced out of too few bytes. -/
  | sliced (start stop length : Nat)
  deriving DecidableEq

/-- Slices a range out of some bytes. -/
def sliceOf (bytes : List UInt8) (start length : Nat) : Except VisitFault (List UInt8) :=
  if start + length ≤ bytes.length then .ok (window bytes start length)
  else .error (.sliced start (start + length) bytes.length)

/-- Visits the bytes of a buffer. An exported buffer visits those of its parent and slices its range
out of them. -/
def visitBytes {α : Type} : List Buffer → BufferId → (List UInt8 → Except VisitFault α) →
    Except VisitFault α
  | [], id, _ => .error (.error (.released id))
  | b :: older, id, f =>
    if id = next older then
      match b.contents with
      | .tornDown _ => .error (.error (.released id))
      | .live (.owned bytes) => f bytes
      | .live (.foreign _ bytes) => f bytes
      | .live (.exported parent start) =>
          visitBytes older parent fun bytes => do f (← sliceOf bytes start b.length)
    else
      visitBytes older id f

/-- Does something with a slice of some bytes that changes it in place. -/
def onSlice {α : Type} (start length : Nat) (f : List UInt8 → Except VisitFault (α × List UInt8))
    (bytes : List UInt8) : Except VisitFault (α × List UInt8) := do
  let r ← f (← sliceOf bytes start length)
  return (r.1, splice bytes start r.2)

/-- Visits the bytes of a buffer to change them in place. Each buffer on the way has to be
writable. -/
def alterBytes {α : Type} : List Buffer → BufferId →
    (List UInt8 → Except VisitFault (α × List UInt8)) → Except VisitFault (α × List Buffer)
  | [], id, _ => .error (.error (.released id))
  | b :: older, id, f =>
    if id = next older then
      if b.readOnly then .error (.error (.readOnly id))
      else match b.contents with
        | .tornDown _ => .error (.error (.released id))
        | .live (.owned bytes) => do
            let r ← f bytes
            return (r.1, { b with contents := .live (.owned r.2) } :: older)
        | .live (.foreign label bytes) => do
            let r ← f bytes
            return (r.1, { b with contents := .live (.foreign label r.2) } :: older)
        | .live (.exported parent start) => do
            let r ← alterBytes older parent (onSlice start b.length f)
            return (r.1, b :: r.2)
    else do
      let r ← alterBytes older id f
      return (r.1, b :: r.2)

namespace Pool

/-- Does something with the bytes of a buffer. -/
def withBytes {α : Type} (p : Pool) (id : BufferId) (f : List UInt8 → α) : Except VisitFault α :=
  visitBytes p.buffers id fun bytes => .ok (f bytes)

/-- Does something with the bytes of a buffer that may change them. -/
def withBytesMut {α : Type} (p : Pool) (id : BufferId) (f : List UInt8 → α × List UInt8) :
    Except VisitFault (α × Pool) := do
  let r ← alterBytes p.buffers id fun bytes => .ok (f bytes)
  return (r.1, { p with buffers := r.2 })

end Pool

variable {bs : List Buffer} {id : BufferId} {b : Buffer} {α : Type}

theorem SizedBuffers.parent {parent start : Nat} (hs : SizedBuffers bs) (hb : get? bs id = some b)
    (hl : b.contents = .live (.exported parent start)) :
    ∃ q, get? bs parent = some q ∧ start + b.length ≤ q.length ∧ b.readOnly = q.readOnly ∧
      parent < id := by
  obtain ⟨⟨q, hq, hle, hro⟩, helder⟩ := hs id b _ hb hl
  exact ⟨q, hq, hle, hro, helder parent .pin (List.mem_singleton_self _)⟩

/-- The newest buffer is exported from one of the others. -/
theorem SizedBuffers.parent_next {older : List Buffer} {parent start : Nat}
    (hs : SizedBuffers (b :: older)) (hl : b.contents = .live (.exported parent start)) :
    ∃ q, get? older parent = some q ∧ start + b.length ≤ q.length ∧ b.readOnly = q.readOnly := by
  obtain ⟨q, hq, hle, hro, hlt⟩ := hs.parent (Numbered.get?_cons_next ..) hl
  rw [Numbered.get?_cons_of_le b (Nat.le_of_lt_succ hlt)] at hq
  exact ⟨q, hq, hle, hro⟩

/-- No slice of a visit is out of range: it works on the bytes that the buffer has, and what keeps it
from that is what keeps them from being read. -/
theorem visitBytes_eq (hs : SizedBuffers bs) (id : BufferId)
    (f : List UInt8 → Except VisitFault α) :
    visitBytes bs id f = (bytesOf bs id).mapError .error >>= f := by
  induction bs generalizing id f with
  | nil => rfl
  | cons b older ih =>
    by_cases hid : id = next older
    · rw [visitBytes, bytesOf, if_pos hid, if_pos hid]
      cases hc : b.contents with
      | tornDown cause => rfl
      | live source =>
        cases source with
        | owned bytes => rfl
        | foreign label bytes => rfl
        | exported parent start =>
          obtain ⟨q, hq, hle, -⟩ := hs.parent_next hc
          dsimp only
          rw [ih hs.tail]
          cases hwhole : bytesOf older parent with
          | error e => rfl
          | ok whole =>
            have hslice : sliceOf whole start b.length = .ok (window whole start b.length) :=
              if_pos (hle.trans (length_bytesOf hs.tail hq hwhole).ge)
            change (sliceOf whole start b.length >>= f) = f (window whole start b.length)
            rw [hslice]
            rfl
    · rw [visitBytes, bytesOf, if_neg hid, if_neg hid]
      exact ih hs.tail id f

/-- Bytes written into a window of a buffer are written to where the window is. -/
theorem writeBytes_window {region new : List UInt8} {start offset length : Nat}
    (hs : SizedBuffers bs) (h : bytesOf bs id = .ok region) (hin : start + length ≤ region.length)
    (hnew : offset + new.length ≤ length) :
    writeBytes bs id start (splice (window region start length) offset new) =
      writeBytes bs id (start + offset) new := by
  induction bs generalizing id region start with
  | nil => rfl
  | cons b older ih =>
    rw [bytesOf] at h
    by_cases hid : id = next older
    · rw [writeBytes, writeBytes, if_pos hid, if_pos hid]
      rw [if_pos hid] at h
      cases hc : b.contents with
      | tornDown cause => rfl
      | live source =>
        rw [hc] at h
        cases source with
        | owned bytes | foreign _ bytes =>
          cases h
          simp only [splice_window hnew hin]
        | exported parent first =>
          obtain ⟨q, hq, hle, -⟩ := hs.parent_next hc
          obtain ⟨whole, hwhole, hpart⟩ := bind_eq_ok_iff.mp h
          obtain rfl : window whole first b.length = region := Except.ok.inj hpart
          have hwhole' := length_bytesOf hs.tail hq hwhole
          rw [length_window (by omega)] at hin
          dsimp only
          rw [window_window hin, ih hs.tail hwhole (by omega), Nat.add_assoc]
    · rw [writeBytes, writeBytes, if_neg hid, if_neg hid, ih hs.tail (by rwa [if_neg hid] at h) hin]

theorem writeBytes_splice {region new : List UInt8} {start : Nat} (hs : SizedBuffers bs)
    (h : bytesOf bs id = .ok region) (hnew : start + new.length ≤ region.length) :
    writeBytes bs id 0 (splice region start new) = writeBytes bs id start new := by
  have hin : 0 + region.length ≤ region.length := (Nat.zero_add _).le
  have hwindow := writeBytes_window hs h hin hnew
  rwa [window_zero, Nat.zero_add] at hwindow

theorem writeBytes_nil (bs : List Buffer) (id : BufferId) (start : Nat) :
    writeBytes bs id start [] = bs := by
  induction bs generalizing id start with
  | nil => rfl
  | cons b older ih =>
    rw [writeBytes]
    split
    · split
      · rfl
      · next bytes hc => rw [splice_nil, ← hc]
      · next label bytes hc => rw [splice_nil, ← hc]
      · rw [ih]
    · rw [ih]

/-- Putting back the bytes that a buffer has changes nothing. -/
theorem writeBytes_self {region : List UInt8} (hs : SizedBuffers bs) (h : bytesOf bs id = .ok region) :
    writeBytes bs id 0 region = bs := by
  rw [← splice_nil region 0, writeBytes_splice hs h (Nat.zero_le _), writeBytes_nil]

section Slices

variable {f : List UInt8 → Except VisitFault (α × List UInt8)} {start length : Nat}
  {region : List UInt8}

/-- A slice that is in range is a window, and what is changed in it is put back there. -/
theorem onSlice_eq (f : List UInt8 → Except VisitFault (α × List UInt8))
    (hin : start + length ≤ region.length) : onSlice start length f region =
      (f (window region start length)).map fun r => (r.1, splice region start r.2) := by
  rw [onSlice, sliceOf, if_pos hin]
  rfl

/-- A change of a slice that keeps the number of bytes keeps that of the whole. -/
theorem length_onSlice (hf : ∀ region r, f region = .ok r → r.2.length = region.length)
    {r : α × List UInt8} (h : onSlice start length f region = .ok r) :
    r.2.length = region.length := by
  obtain ⟨part, hpart, hrest⟩ := bind_eq_ok_iff.mp h
  obtain ⟨changed, hchanged, hwhole⟩ := bind_eq_ok_iff.mp hrest
  cases hwhole
  rw [sliceOf] at hpart
  split at hpart
  · next hin =>
    cases hpart
    refine length_splice ?_
    rw [hf _ _ hchanged, length_window hin]
    omega
  · cases hpart

end Slices

/-- A change that keeps the number of bytes works on the bytes that a writable buffer has, and they are
replaced where they are. -/
theorem alterBytes_eq (hs : SizedBuffers bs) (hb : get? bs id = some b) (hro : b.readOnly = false)
    {f : List UInt8 → Except VisitFault (α × List UInt8)}
    (hf : ∀ region r, f region = .ok r → r.2.length = region.length) :
    alterBytes bs id f = do
      let region ← (bytesOf bs id).mapError .error
      let r ← f region
      return (r.1, writeBytes bs id 0 r.2) := by
  induction bs generalizing id b f with
  | nil => cases hb
  | cons x older ih =>
    by_cases hid : id = next older
    · subst hid
      obtain rfl : x = b := by
        rw [Numbered.get?_cons_next] at hb
        exact Option.some.inj hb
      rw [alterBytes, if_pos rfl, if_neg (by simp [hro]), bytesOf, if_pos rfl]
      simp only [writeBytes, if_true]
      cases hc : x.contents with
      | tornDown cause => rfl
      | live source =>
        cases source with
        | owned bytes | foreign _ bytes =>
          change (f bytes >>= _) = (f bytes >>= _)
          cases hr : f bytes with
          | error e => rfl
          | ok r => simp only [bind, Except.bind, splice_all (hf bytes r hr)]
        | exported parent start =>
          obtain ⟨q, hq, hle, hqro⟩ := hs.parent_next hc
          dsimp only
          rw [ih hs.tail hq (hqro ▸ hro) fun region r h => length_onSlice hf h]
          cases hwhole : bytesOf older parent with
          | error e => rfl
          | ok whole =>
            have hin : start + x.length ≤ whole.length := by rwa [length_bytesOf hs.tail hq hwhole]
            change ((onSlice start x.length f whole >>= fun r =>
                pure (r.1, writeBytes older parent 0 r.2)) >>= fun r => pure (r.1, x :: r.2)) =
              (f (window whole start x.length) >>= fun r =>
                pure (r.1, x :: writeBytes older parent start r.2))
            rw [onSlice_eq f hin]
            cases hr : f (window whole start x.length) with
            | error e => rfl
            | ok r =>
              have hlength : r.2.length = x.length := by rw [hf _ r hr, length_window hin]
              have hwrite := writeBytes_splice hs.tail hwhole (hlength ▸ hin)
              exact congrArg (fun rest => Except.ok (r.1, x :: rest)) hwrite
    · rw [Numbered.get?, if_neg hid] at hb
      rw [alterBytes, if_neg hid, ih hs.tail hb hro hf, bytesOf, if_neg hid]
      simp only [writeBytes, if_neg hid, bind_assoc, pure_bind]

/-! ### Chains of exports -/

namespace Source

/-- The bytes that a source has itself. -/
def bytes? : Source → Option (List UInt8)
  | owned bytes | foreign _ bytes => some bytes
  | exported .. => none

/-- The source with other bytes, if it has any. -/
def withBytes : Source → List UInt8 → Source
  | owned _, new => owned new
  | foreign label _, new => foreign label new
  | exported parent start, _ => exported parent start

theorem bytes?_withBytes {source : Source} {bytes : List UInt8} (h : source.bytes? = some bytes)
    (new : List UInt8) : (source.withBytes new).bytes? = some new := by
  cases source with
  | owned _ => rfl
  | foreign label _ => rfl
  | exported parent start => cases h

end Source

variable {source : Source} {bytes : List UInt8} {parent start k : Nat}

theorem bytesOf_root (hb : get? bs id = some b) (hl : b.contents = .live source)
    (hbytes : source.bytes? = some bytes) : bytesOf bs id = .ok bytes := by
  induction bs with
  | nil => cases hb
  | cons x older ih =>
    rw [get?] at hb
    rw [bytesOf]
    split at hb
    · next hid =>
      cases hb
      rw [if_pos hid, hl]
      cases source <;> cases hbytes <;> rfl
    · next hid => rw [if_neg hid, ih hb]

theorem writeBytes_root (hb : get? bs id = some b) (hl : b.contents = .live source)
    (hbytes : source.bytes? = some bytes) (new : List UInt8) :
    writeBytes bs id k new =
      update (fun b => { b with contents := .live (source.withBytes (splice bytes k new)) }) bs id := by
  induction bs with
  | nil => rfl
  | cons x older ih =>
    rw [get?] at hb
    rw [writeBytes, update]
    split at hb
    · next hid =>
      cases hb
      rw [if_pos hid, if_pos hid, hl]
      cases source <;> cases hbytes <;> rfl
    · next hid => rw [if_neg hid, if_neg hid, ih hb]

theorem bytesOf_cons_of_le (x : Buffer) (h : id ≤ bs.length) : bytesOf (x :: bs) id = bytesOf bs id := by
  rw [bytesOf, if_neg (show id ≠ next bs from Nat.ne_of_lt (Nat.lt_succ_of_le h))]

theorem writeBytes_cons_of_le (x : Buffer) (h : id ≤ bs.length) (new : List UInt8) :
    writeBytes (x :: bs) id k new = x :: writeBytes bs id k new := by
  rw [writeBytes, if_neg (show id ≠ next bs from Nat.ne_of_lt (Nat.lt_succ_of_le h))]

/-- An exported buffer reads a window of its parent, and writes into it. -/
theorem of_exported (hs : SizedBuffers bs) (hb : get? bs id = some b)
    (hl : b.contents = .live (.exported parent start)) :
    (∀ whole, bytesOf bs parent = .ok whole → bytesOf bs id = .ok (window whole start b.length)) ∧
      ∀ k new, writeBytes bs id k new = writeBytes bs parent (start + k) new := by
  induction bs with
  | nil => cases hb
  | cons x older ih =>
    obtain ⟨-, -, -, -, hlt⟩ := hs.parent hb hl
    have hle : parent ≤ older.length :=
      Nat.le_of_lt_succ (Nat.lt_of_lt_of_le hlt (Numbered.le_length_of_get? hb))
    rw [bytesOf_cons_of_le x hle]
    simp only [writeBytes_cons_of_le x hle]
    rw [get?] at hb
    split at hb
    · next hid =>
      cases hb
      refine ⟨fun whole hwhole => ?_, fun k new => ?_⟩
      · rw [bytesOf, if_pos hid, hl]
        exact bind_eq_ok_iff.mpr ⟨whole, hwhole, rfl⟩
      · rw [writeBytes, if_pos hid, hl]
    · next hid =>
      obtain ⟨hread, hwrite⟩ := ih hs.tail hb
      rw [bytesOf, if_neg hid]
      refine ⟨hread, fun k new => ?_⟩
      rw [writeBytes, if_neg hid, hwrite]

namespace Pool

variable {p : Pool} {root : BufferId} {r : Buffer}

/-- A chain of exports from a buffer `root`: each was made of a range of the one before, and `start`
is the sum of the starts of all ranges. None of them is released. -/
inductive Chain (p : Pool) (root : BufferId) : BufferId → (start : Nat) → Prop
  | root : Chain p root root 0
  | exported {parent id : BufferId} {start offset : Nat} {b : Buffer} (h : Chain p root parent start)
      (hb : p.get? id = some b) (hl : b.contents = .live (.exported parent offset)) :
      Chain p root id (start + offset)

/-- A buffer `root` that has bytes of its own. -/
structure Root (p : Pool) (root : BufferId) (r : Buffer) (source : Source) (bytes : List UInt8) :
    Prop where
  made : p.get? root = some r
  live : r.contents = .live source
  bytes : source.bytes? = some bytes

/-- The pool with other bytes in a buffer that has bytes of its own. -/
def rewrite (p : Pool) (root : BufferId) (source : Source) (new : List UInt8) : Pool :=
  { p with
    buffers := update (fun b => { b with contents := .live (source.withBytes new) }) p.buffers root }

theorem Root.bytes_eq (hr : p.Root root r source bytes) : p.bytes root = .ok bytes :=
  bytesOf_root hr.made hr.live hr.bytes

theorem Root.length_eq (hs : SizedBuffers p.buffers) (hr : p.Root root r source bytes) :
    bytes.length = r.length :=
  length_bytesOf hs hr.made hr.bytes_eq

/-- A chain never leaves the bytes of its root, and keeps the rights to them. -/
theorem Chain.fits (hs : SizedBuffers p.buffers) (hr : p.Root root r source bytes)
    (hc : p.Chain root id start) (hb : p.get? id = some b) :
    start + b.length ≤ bytes.length ∧ b.readOnly = r.readOnly := by
  induction hc generalizing b with
  | root =>
    cases hb.symm.trans hr.made
    rw [hr.length_eq hs, Nat.zero_add]
    exact ⟨le_rfl, rfl⟩
  | exported h hb' hl ih =>
    cases hb.symm.trans hb'
    obtain ⟨q, hq, hle, hro, -⟩ := hs.parent hb hl
    obtain ⟨hin, hrights⟩ := ih hq
    exact ⟨by omega, hro.trans hrights⟩

/-- The slices of a chain are one window of the bytes of its root. -/
theorem Chain.bytes_eq (hs : SizedBuffers p.buffers) (hr : p.Root root r source bytes)
    (hc : p.Chain root id start) (hb : p.get? id = some b) :
    p.bytes id = .ok (window bytes start b.length) := by
  induction hc generalizing b with
  | root =>
    cases hb.symm.trans hr.made
    rw [hr.bytes_eq, ← hr.length_eq hs, window_zero]
  | exported h hb' hl ih =>
    cases hb.symm.trans hb'
    obtain ⟨q, hq, hle, -⟩ := hs.parent hb hl
    rw [← window_window hle]
    exact (of_exported hs hb hl).1 _ (ih hq)

/-- Bytes written through a chain are spliced into those of its root, where the window is. -/
theorem Chain.writeBytes_eq (hs : SizedBuffers p.buffers) (hr : p.Root root r source bytes)
    (hc : p.Chain root id start) (k : Nat) (new : List UInt8) :
    writeBytes p.buffers id k new =
      (p.rewrite root source (splice bytes (start + k) new)).buffers := by
  induction hc generalizing k with
  | root =>
    rw [Nat.zero_add]
    exact writeBytes_root hr.made hr.live hr.bytes new
  | exported h hb hl ih =>
    rw [(of_exported hs hb hl).2, ih, ← Nat.add_assoc]

theorem Chain.overwrite_eq (hs : SizedBuffers p.buffers) (hr : p.Root root r source bytes)
    (hc : p.Chain root id start) (new : List UInt8) :
    p.overwrite id new = p.rewrite root source (splice bytes start new) := by
  rw [overwrite, hc.writeBytes_eq hs hr]
  rfl

/-! #### The root with other bytes -/

theorem get?_rewrite (new : List UInt8) (id : BufferId) :
    (p.rewrite root source new).get? id =
      if id = root then (p.get? id).map fun b => { b with contents := .live (source.withBytes new) }
      else p.get? id :=
  Numbered.get?_update ..

theorem Root.rewrite (hr : p.Root root r source bytes) (new : List UInt8) :
    (p.rewrite root source new).Root root { r with contents := .live (source.withBytes new) }
      (source.withBytes new) new where
  made := by rw [get?_rewrite, if_pos rfl, hr.made, Option.map_some]
  live := rfl
  bytes := Source.bytes?_withBytes hr.bytes new

/-- Other bytes in the root leave every chain as it is. -/
theorem Chain.rewrite (hr : p.Root root r source bytes) (hc : p.Chain root id start)
    (new : List UInt8) : (p.rewrite root source new).Chain root id start := by
  induction hc with
  | root => exact .root
  | @exported parent id start offset b h hb hl ih =>
    refine .exported ih ?_ hl
    rw [get?_rewrite, if_neg, hb]
    rintro rfl
    -- the root is not exported
    cases hb.symm.trans hr.made
    have hsource := hr.live.symm.trans hl
    injection hsource with hsource
    have hbytes := hr.bytes
    rw [hsource] at hbytes
    cases hbytes

theorem sizedBuffers_rewrite (hs : SizedBuffers p.buffers) (hr : p.Root root r source bytes)
    {new : List UInt8} (hnew : new.length = bytes.length) :
    SizedBuffers (p.rewrite root source new).buffers := by
  have heq := Chain.overwrite_eq hs hr .root new
  rw [splice_all hnew] at heq
  rw [← heq]
  exact hs.course (course_overwrite hr.bytes_eq hnew) fun _ _ _ h => nomatch h

/-! #### Visits through chains -/

/-- A buffer shows some bytes: they are read, and a visit gets them. -/
structure Shows (p : Pool) (id : BufferId) (seen : List UInt8) : Prop where
  bytes : p.bytes id = .ok seen
  visit : ∀ (α : Type) (f : List UInt8 → α), p.withBytes id f = .ok (f seen)

theorem shows_of_bytes {seen : List UInt8} (hs : SizedBuffers p.buffers) (h : p.bytes id = .ok seen) :
    p.Shows id seen := by
  refine ⟨h, fun α f => ?_⟩
  rw [withBytes, visitBytes_eq hs, show bytesOf p.buffers id = _ from h]
  rfl

theorem withBytesMut_eq {seen : List UInt8} (hs : SizedBuffers p.buffers) (hb : p.get? id = some b)
    (hro : b.readOnly = false) (h : p.bytes id = .ok seen) {f : List UInt8 → α × List UInt8}
    (hf : ∀ w, (f w).2.length = w.length) :
    p.withBytesMut id f = .ok ((f seen).1, p.overwrite id (f seen).2) := by
  rw [withBytesMut, alterBytes_eq hs hb hro, show bytesOf p.buffers id = _ from h]
  · rfl
  · intro w changed hw
    cases hw
    exact hf w

/-- Whatever is exported from a root shows its own window of other bytes put there. -/
theorem Chain.shows_rewrite (hs : SizedBuffers p.buffers) (hr : p.Root root r source bytes)
    (hc : p.Chain root id start) (hb : p.get? id = some b) {new : List UInt8}
    (hnew : new.length = bytes.length) :
    (p.rewrite root source new).Shows id (window new start b.length) := by
  have hs' := sizedBuffers_rewrite hs hr hnew
  obtain ⟨b', hb', hlength⟩ :
      ∃ b', (p.rewrite root source new).get? id = some b' ∧ b'.length = b.length := by
    rw [get?_rewrite, hb]
    split
    · exact ⟨_, rfl, rfl⟩
    · exact ⟨b, rfl, rfl⟩
  rw [← hlength]
  exact shows_of_bytes hs' ((hc.rewrite hr new).bytes_eq hs' (hr.rewrite new) hb')

end Pool

end StridedViews
