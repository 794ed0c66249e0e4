import StridedViews.Proofs.Storage.Endings
import StridedViews.Proofs.Storage.Windows

/-!
Read-only buffers. A buffer that is exported has the rights of the one that it was exported from, so a
write that passes the check of the buffer that it is made through reaches no read-only buffer
(`get?_writeBytes_of_readOnly`), and no change of a pool rewrites one (`Pool.Change.retained`). What is
read through such buffers stays the same until one of them is torn down (`Pool.bytes_retained`).
-/

namespace StridedViews

open Numbered (get? next)

variable {bs : List Buffer} {b w : Buffer} {id n : BufferId} {α : Type}

/-! ### Writing -/

/-- A write through a writable buffer leaves read-only ones as they are. -/
theorem get?_writeBytes_of_readOnly {start : Nat} {new : List UInt8} (hs : SizedBuffers bs)
    (hw : get? bs id = some w) (hwritable : w.readOnly = false) (hb : get? bs n = some b)
    (hro : b.readOnly = true) : get? (writeBytes bs id start new) n = some b := by
  induction bs generalizing id w start with
  | nil => cases hb
  | cons x older ih =>
    have hback : ∀ {id w start}, get? older id = some w → w.readOnly = false →
        get? (x :: writeBytes older id start new) n = some b := by
      intro id w start hw hwritable
      rw [get?, next, length_writeBytes]
      rw [get?] at hb
      split at hb
      · next hn => exact (if_pos hn).trans hb
      · next hn => exact (if_neg hn).trans (ih hs.tail hw hwritable hb)
    -- bytes of the newest buffer are written only if it may be
    have hfront : x.readOnly = false → ∀ contents,
        get? ({ x with contents } :: older) n = some b := by
      intro hx contents
      rw [get?] at hb ⊢
      split at hb
      · cases hb
        cases hx.symm.trans hro
      · next hn => exact (if_neg hn).trans hb
    rw [writeBytes]
    rw [get?] at hw
    split
    · next hid =>
      rw [if_pos hid] at hw
      cases hw
      split
      · exact hb
      · exact hfront hwritable _
      · exact hfront hwritable _
      · next parent offset hl =>
        obtain ⟨q, hq, -, hqro⟩ := hs.parent_next hl
        exact hback hq (hqro ▸ hwritable)
    · next hid =>
      rw [if_neg hid] at hw
      exact hback hw hwritable

/-- No visit that may change bytes gets into a read-only buffer. -/
theorem alterBytes_of_readOnly (hb : get? bs id = some b) (hro : b.readOnly = true)
    (f : List UInt8 → Except VisitFault (α × List UInt8)) :
    alterBytes bs id f = .error (.error (.readOnly id)) := by
  induction bs with
  | nil => cases hb
  | cons x older ih =>
    rw [get?] at hb
    rw [alterBytes]
    split at hb
    · next hid =>
      cases hb
      rw [if_pos hid, if_pos hro]
    · next hid =>
      rw [if_neg hid, ih hb]
      rfl

/-! ### Changes -/

/-- A buffer still has what it had, or it is torn down. -/
def Buffer.Retained (b b' : Buffer) : Prop := b'.contents = b.contents ∨ b'.isReleased = true

namespace Buffer.Retained

variable {b' b'' : Buffer}

theorem refl (b : Buffer) : b.Retained b := .inl rfl

theorem trans (h : b.Retained b') (h' : b'.Retained b'') : b.Retained b'' := by
  rcases h' with hc | hr
  · rcases h with hc' | hr'
    · exact .inl (hc.trans hc')
    · refine .inr ?_
      rw [isReleased, hc]
      exact hr'
  · exact .inr hr

theorem ended (b : Buffer) (e : Ending) : b.Retained (b.ended e) := by
  rcases b.contents_ended e with hc | ⟨cause, -, -, hc⟩
  · exact .inl hc
  · exact .inr (isReleased_iff.mpr ⟨cause, hc⟩)

theorem gain (b : Buffer) (h : BufferHold) : b.Retained (b.gain h) := by
  cases h <;> exact .inl rfl

end Buffer.Retained

namespace Pool

variable {p p' : Pool} {d : Option Deed}

theorem bringAll_retained (hb : p.get? n = some b) (endings : List (BufferId × Ending)) :
    ∃ b', (p.bringAll endings).get? n = some b' ∧ b.Retained b' :=
  get?_bringAll (fun b₁ e h => h.trans (.ended b₁ e)) hb (.refl b) endings

/-- Whatever is done to a pool, a read-only buffer has what it had until it is torn down. -/
theorem Change.retained (hc : p.Change d p') (hs : SizedBuffers p.buffers)
    (hb : p.get? n = some b) (hro : b.readOnly = true) :
    ∃ b', p'.get? n = some b' ∧ b.Retained b' := by
  have hgain : ∀ id h, ∃ b',
      Pool.get? { p with buffers := Numbered.update (·.gain h) p.buffers id } n = some b' ∧
        b.Retained b' := by
    intro id h
    obtain ⟨b', hb', hcase⟩ := get?_gain id h hb
    refine ⟨b', hb', ?_⟩
    rcases hcase with ⟨-, rfl⟩ | ⟨-, rfl⟩
    · exact .gain b h
    · exact .refl b'
  cases hc with
  | quiet | addRegistry | giveBack => exact ⟨b, hb, .refl b⟩
  | hold hp =>
    obtain ⟨-, -, -, rfl⟩ := hold_eq_ok_iff.mp hp
    exact hgain _ _
  | share => exact hgain _ .handle
  | giveUp holds => exact bringAll_retained hb _
  | release => exact bringAll_retained hb _
  | overwrite hold hlen =>
    obtain ⟨⟨w, hw, hwritable⟩, -⟩ := writableBytes_eq_ok_iff.mp hold
    exact ⟨b, get?_writeBytes_of_readOnly hs hw hwritable hb hro, .refl b⟩
  | create =>
    refine ⟨b, ?_, .refl b⟩
    rw [get?, Pool.create, buffers_book]
    exact Numbered.get?_cons_of_get? _ hb

end Pool

/-! ### Reading -/

theorem bytesOf_of_isReleased (hb : get? bs id = some b) (hr : b.isReleased = true) :
    bytesOf bs id = .error (.released id) := by
  obtain ⟨cause, hc⟩ := Buffer.isReleased_iff.mp hr
  induction bs with
  | nil => cases hb
  | cons x older ih =>
    rw [get?] at hb
    rw [bytesOf]
    split at hb
    · next hid =>
      cases hb
      rw [if_pos hid, hc]
    · next hid => rw [if_neg hid, ih hb]

theorem bytesOf_exported {parent start : Nat} (hs : SizedBuffers bs) (hb : get? bs id = some b)
    (hl : b.contents = .live (.exported parent start)) :
    bytesOf bs id = (bytesOf bs parent).map (window · start b.length) := by
  induction bs with
  | nil => cases hb
  | cons x older ih =>
    obtain ⟨-, -, -, -, hlt⟩ := hs.parent hb hl
    have hle : parent ≤ older.length :=
      Nat.le_of_lt_succ (Nat.lt_of_lt_of_le hlt (Numbered.le_length_of_get? hb))
    rw [bytesOf_cons_of_le x hle]
    rw [get?] at hb
    rw [bytesOf]
    split at hb
    · next hid =>
      cases hb
      rw [if_pos hid, hl]
      dsimp only
      cases bytesOf older parent <;> rfl
    · next hid => rw [if_neg hid, ih hs.tail hb]

namespace Pool

variable {p p' : Pool}

/-- Where all read-only buffers keep what they have until they are torn down, what is read through one
stays the same until one of those on the way to the bytes is torn down, which then is what keeps them
from being read. -/
theorem bytes_retained (hs : SizedBuffers p.buffers) (hs' : SizedBuffers p'.buffers)
    (hkept : ∀ n b, p.get? n = some b → b.readOnly = true →
      ∃ b', p'.get? n = some b' ∧ b'.length = b.length ∧ b.Retained b')
    (hb : p.get? id = some b) (hro : b.readOnly = true) :
    p'.bytes id = p.bytes id ∨
      ∃ a start r, p.Chain a id start ∧ p'.get? a = some r ∧ r.isReleased = true ∧
        p'.bytes id = .error (.released a) := by
  induction id using Nat.strong_induction_on generalizing b with
  | h id ih =>
    obtain ⟨b', hb', hlength, hretained⟩ := hkept id b hb hro
    by_cases hr : b'.isReleased = true
    · exact .inr ⟨id, 0, b', .root, hb', hr, bytesOf_of_isReleased hb' hr⟩
    have hc := hretained.resolve_right hr
    cases hcontents : b.contents with
    | tornDown cause => exact absurd (Buffer.isReleased_iff.mpr ⟨cause, hc.trans hcontents⟩) hr
    | live source =>
      rw [hcontents] at hc
      cases source with
      | owned bytes =>
        exact .inl ((bytesOf_root hb' hc rfl).trans (bytesOf_root hb hcontents rfl).symm)
      | foreign label bytes =>
        exact .inl ((bytesOf_root hb' hc rfl).trans (bytesOf_root hb hcontents rfl).symm)
      | exported parent start =>
        obtain ⟨q, hq, -, hqro, hlt⟩ := hs.parent hb hcontents
        rw [bytes, bytes, bytesOf_exported hs' hb' hc, bytesOf_exported hs hb hcontents, hlength]
        rcases ih parent hlt hq (hqro ▸ hro) with hsame | ⟨a, offset, r, hchain, ha, har, herror⟩
        · exact .inl (congrArg _ hsame)
        · refine .inr ⟨a, offset + start, r, .exported hchain hb hcontents, ha, har, ?_⟩
          exact congrArg _ herror

end Pool

end StridedViews
