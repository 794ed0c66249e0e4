import StridedViews.Proofs.Storage.Order

/-!
What becomes of each buffer. The buffer that an ending is brought to loses a hold, and is torn down if
that is due; any other buffer stays as it is or loses the pin of a store that was exported from it
(`Pool.get?_bring`). All that an operation does to a pool is one of a few changes (`Pool.Change`).
-/

namespace StridedViews

open Numbered (get? next)

namespace Buffer

variable {b : Buffer} {e : Ending} {cause : ReleaseCause}

/-- The buffer behind an ending that is brought to it, torn down if that is due. -/
def ended (b : Buffer) (e : Ending) : Buffer := (b.after e).tear (b.due e)

theorem isReleased_after (b : Buffer) (e : Ending) : (b.after e).isReleased = b.isReleased := by
  rw [isReleased, contents_after, isReleased]

theorem ended_of_kept (h : b.due e = none ∨ b.isReleased = true) : b.ended e = b.after e := by
  rw [ended]
  cases hd : b.due e with
  | none => rfl
  | some cause =>
    have hr : b.isReleased = true := h.resolve_left fun hnone => nomatch hnone.symm.trans hd
    rw [tear, isReleased_after, if_pos hr]

theorem ended_of_due (hl : b.isReleased = false) (hd : b.due e = some cause) :
    b.ended e = { b.after e with contents := .tornDown cause } := by
  rw [ended, hd, tear, isReleased_after, if_neg (by rw [hl]; exact Bool.false_ne_true)]

/-- An ending leaves the contents of a buffer as they are, or tears a live buffer down. -/
theorem contents_ended (b : Buffer) (e : Ending) :
    (b.ended e).contents = b.contents ∨
      ∃ cause, b.isReleased = false ∧ b.due e = some cause ∧
        (b.ended e).contents = .tornDown cause := by
  cases hl : b.isReleased with
  | true => exact .inl (by rw [ended_of_kept (.inr hl), contents_after])
  | false =>
    cases hd : b.due e with
    | none => exact .inl (by rw [ended_of_kept (.inl hd), contents_after])
    | some cause => exact .inr ⟨cause, rfl, rfl, by rw [ended_of_due hl hd]⟩

/-- A buffer that is torn down is not torn down again for another cause. -/
theorem contents_ended_of_tornDown (hc : b.contents = .tornDown cause) :
    (b.ended e).contents = .tornDown cause := by
  rw [ended_of_kept (.inr (isReleased_iff.mpr ⟨cause, hc⟩)), contents_after, hc]

end Buffer

variable {bs : List Buffer} {b : Buffer} {id n : BufferId} {e : Ending}

/-- An ending ends the buffer that it is brought to. Another buffer stays as it is or loses the pin of
a store that is torn down on the way. -/
theorem get?_endBuffer (id : BufferId) (e : Ending) (h : get? bs n = some b) :
    ∃ b', get? (endBuffer bs id e).1 n = some b' ∧
      (n = id ∧ b' = b.ended e ∨ n ≠ id ∧ (b' = b ∨ b' = b.ended (.hold .pin))) := by
  induction bs generalizing id e with
  | nil => cases h
  | cons x older ih =>
    by_cases hid : id = next older
    · subst hid
      rcases endBuffer_next x older e with ⟨hkept, found, -, heq⟩ |
        ⟨cause, torn, hd, hlive, htorn, heq⟩
      · rw [heq]
        rw [get?] at h ⊢
        split at h
        · next hn =>
          cases h
          exact ⟨_, if_pos hn, .inl ⟨hn, (Buffer.ended_of_kept hkept).symm⟩⟩
        · next hn => exact ⟨b, (if_neg hn).trans h, .inr ⟨hn, .inl rfl⟩⟩
      · rw [heq]
        rw [get?] at h ⊢
        rw [htorn.next_eq]
        split at h
        · next hn =>
          cases h
          exact ⟨_, if_pos hn, .inl ⟨hn, (Buffer.ended_of_due hlive hd).symm⟩⟩
        · next hn =>
          rw [if_neg hn]
          rcases htorn with ⟨-, rfl⟩ | ⟨-, parent, -, rfl⟩
          · exact ⟨b, h, .inr ⟨hn, .inl rfl⟩⟩
          · obtain ⟨b', hb', hcase⟩ := ih parent (.hold .pin) h
            refine ⟨b', hb', .inr ⟨hn, ?_⟩⟩
            rcases hcase with ⟨-, hended⟩ | ⟨-, hother⟩
            · exact .inr hended
            · exact hother
    · rw [endBuffer, if_neg hid]
      rw [get?] at h ⊢
      rw [next_endBuffer]
      split at h
      · next hn =>
        cases h
        exact ⟨_, if_pos hn, .inr ⟨fun heq => hid (heq.symm.trans hn), .inl rfl⟩⟩
      · next hn =>
        rw [if_neg hn]
        exact ih id e h

namespace Pool

variable {p p' : Pool} {d : Option Deed}

theorem get?_bring (id : BufferId) (e : Ending) (h : p.get? n = some b) :
    ∃ b', (p.bring id e).get? n = some b' ∧
      (n = id ∧ b' = b.ended e ∨ n ≠ id ∧ (b' = b ∨ b' = b.ended (.hold .pin))) := by
  obtain ⟨b', hb', hcase⟩ := get?_endBuffer id e h
  exact ⟨b', by rw [get?, buffers_bring, hb'], hcase⟩

/-- Brings endings to buffers, one after the other. -/
def bringAll (p : Pool) (endings : List (BufferId × Ending)) : Pool :=
  endings.foldl (fun p ending => p.bring ending.1 ending.2) p

/-- What each ending keeps of the pool, all of them keep. -/
theorem bringAll_induction {P : Pool → Prop} (hbring : ∀ p id e, P p → P (p.bring id e)) (h : P p)
    (endings : List (BufferId × Ending)) : P (p.bringAll endings) := by
  induction endings generalizing p with
  | nil => exact h
  | cons ending rest ih => exact ih (hbring p ending.1 ending.2 h)

theorem length_bringAll (p : Pool) (endings : List (BufferId × Ending)) :
    (p.bringAll endings).buffers.length = p.buffers.length := by
  refine bringAll_induction (P := fun p' => p'.buffers.length = p.buffers.length) ?_ rfl endings
  intro p' id e hlen
  rw [buffers_bring, length_endBuffer, hlen]

/-- What no ending takes from a buffer, a buffer keeps through all of them. -/
theorem get?_bringAll {P : Buffer → Prop} (hended : ∀ b e, P b → P (b.ended e))
    (hb : p.get? n = some b) (h : P b) (endings : List (BufferId × Ending)) :
    ∃ b', (p.bringAll endings).get? n = some b' ∧ P b' := by
  refine bringAll_induction (P := fun p => ∃ b', p.get? n = some b' ∧ P b') ?_ ⟨b, hb, h⟩ endings
  rintro p id e ⟨b₁, hb₁, h₁⟩
  obtain ⟨b₂, hb₂, hcase⟩ := get?_bring id e hb₁
  refine ⟨b₂, hb₂, ?_⟩
  rcases hcase with ⟨-, rfl⟩ | ⟨-, rfl | rfl⟩
  · exact hended b₁ e h₁
  · exact h₁
  · exact hended b₁ _ h₁

/-- What an operation with a deed makes of a pool. -/
inductive Change (p : Pool) : Option Deed → Pool → Prop where
  | quiet : Change p none p
  | addRegistry : Change p none { p with registries := p.registries ++ [{}] }
  | giveBack (label : String) :
      Change p none { p with givenBack := p.givenBack ++ [⟨none, label⟩] }
  | hold {id : BufferId} {h : BufferHold} {p' : Pool} (hp : p.hold id h = .ok p') :
      Change p (h.deed id) p'
  | share {id : BufferId} {b : Buffer} (hb : p.get? id = some b) (hheld : b.isHeld = true) :
      Change p none (p.share id)
  | giveUp (holds : List (BufferId × BufferHold)) :
      Change p none (p.bringAll (holds.map fun h => (h.1, .hold h.2)))
  | release {id : BufferId} {b : Buffer} (hb : p.get? id = some b) :
      Change p (some (.released id)) (p.bringAll [(id, .release)])
  | overwrite {id : BufferId} {old new : List UInt8} (hold : p.writableBytes id = .ok old)
      (hlen : new.length = old.length) : Change p none (p.overwrite id new)
  | create {s : Store} {r : Option RegistryId}
      (hr : ∀ n, r = some n → n < p.registries.length) :
      Change p (some (.made (p.create s r).1 s r)) (p.create s r).2

/-- Only a writable buffer gives its bytes to be written. -/
theorem writableBytes_eq_ok_iff {bytes : List UInt8} :
    p.writableBytes id = .ok bytes ↔
      (∃ b, p.get? id = some b ∧ b.readOnly = false) ∧ p.bytes id = .ok bytes := by
  rw [writableBytes]
  cases hb : p.get? id with
  | none => simp
  | some b => cases hro : b.readOnly <;> simp [hro]

/-- A new hold is on one buffer, and changes no other. -/
theorem get?_gain (id : BufferId) (h : BufferHold) (hb : p.get? n = some b) :
    ∃ b', Pool.get? { p with buffers := Numbered.update (·.gain h) p.buffers id } n = some b' ∧
      (n = id ∧ b' = b.gain h ∨ n ≠ id ∧ b' = b) := by
  rw [get?, Numbered.get?_update, ← get?, hb]
  split
  · next hn => exact ⟨_, rfl, .inl ⟨hn, rfl⟩⟩
  · next hn => exact ⟨b, rfl, .inr ⟨hn, rfl⟩⟩

end Pool

end StridedViews
