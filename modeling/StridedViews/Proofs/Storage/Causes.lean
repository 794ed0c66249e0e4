import StridedViews.Proofs.Storage.Accounts
import StridedViews.Proofs.Storage.Endings

/-!
Why buffers are torn down. No release is ever overdue: a buffer that was attached once and is not in use
any more has been released (`Buffer.Prompt`, kept by all that is done to a pool). So the cause that an
ending calls for tells the truth about the buffer at that moment (`Buffer.Prompt.due`), and an operation
that tears a buffer down does so by one of the endings that it brings, for a cause that its deed tells
(`Pool.Change.torn`).
-/

namespace StridedViews

open Numbered (get? next)

namespace Buffer

variable {b b' : Buffer} {e : Ending} {cause : ReleaseCause} {d : Option Deed} {n : BufferId}

/-- No release of the buffer is overdue, its release was deferred only if it is not in use any more, and
it was dropped only if it was never attached. -/
structure Prompt (b : Buffer) : Prop where
  viewed : b.Viewed
  live : b.isReleased = false → ¬ b.Idle
  deferred : b.contents = .tornDown .deferred → b.Idle
  dropped : b.contents = .tornDown .dropped → b.everAttached = false

theorem prompt_ofStore (s : Store) (r : Option RegistryId) : (ofStore s r).Prompt where
  viewed hpos := absurd hpos (Nat.lt_irrefl 0)
  live _ hidle := nomatch hidle.1
  deferred hc := nomatch hc
  dropped _ := rfl

/-- A buffer that was attached once and is in use is not dropped by the end of a hold. -/
theorem everAttached_of_due {h : BufferHold} (hidle : ¬ b.Idle) (hd : b.due (.hold h) = some .dropped) :
    b.everAttached = false := by
  rw [due] at hd
  split at hd
  · cases hd
  · next huse =>
    split at hd
    · next hfree =>
      rw [Bool.and_eq_true, Bool.not_eq_true'] at hfree
      have hheld := hfree.1
      -- whichever hold was the last, the two others were gone before
      cases h <;> simp only [endsUse, lose, isHeld, Idle] at * <;> grind
    · cases hd

/-- The cause of a release tells the truth about the buffer. -/
theorem Prompt.due (hp : b.Prompt) (hl : b.isReleased = false) (hd : b.due e = some cause) :
    (cause = .explicit ↔ e = .release) ∧ (cause = .deferred → (b.ended e).Idle) ∧
      (cause = .dropped → b.everAttached = false) := by
  have hfate := fate_tearDown hp.viewed hd
  rw [ended_of_due hl hd]
  cases e with
  | release =>
    cases hd
    exact ⟨iff_of_true rfl rfl, (fun h => nomatch h), fun h => nomatch h⟩
  | hold h =>
    refine ⟨iff_of_false ?_ (fun h => nomatch h), ?_, ?_⟩
    · rintro rfl
      exact b.due_hold_ne_explicit h hd
    · rintro rfl
      exact hfate
    · rintro rfl
      exact everAttached_of_due (hp.live hl) hd

/-- An ending that calls for no release leaves a buffer in use. -/
theorem not_idle_of_due {h : BufferHold} (hidle : ¬ b.Idle) (hd : b.due (.hold h) = none) :
    ¬ (b.lose h).Idle := by
  have huse : b.endsUse h = false := by
    rw [due] at hd
    split at hd
    · cases hd
    · next huse => exact Bool.eq_false_iff.mpr huse
  cases h <;> simp only [endsUse, lose, Idle] at * <;> grind

theorem everAttached_ended (b : Buffer) (e : Ending) : (b.ended e).everAttached = b.everAttached := by
  rw [← everAttached_after (b := b) (e := e), ended]
  cases b.due e with
  | none => rfl
  | some cause =>
    rw [tear]
    split <;> rfl

/-- The use of a buffer that is over does not begin again with an ending. -/
theorem Idle.ended (hidle : b.Idle) (e : Ending) : (b.ended e).Idle := by
  obtain ⟨hever, hattached, hpins⟩ := hidle
  have hafter : (b.after e).Idle := by
    rcases e with _ | _ | _ | _
    · exact ⟨hever, hattached, hpins⟩
    · exact ⟨hever, hattached, hpins⟩
    · exact ⟨hever, by rw [after, lose, hattached], hpins⟩
    · exact ⟨hever, hattached, by rw [after, lose, hpins]⟩
  rw [Buffer.ended]
  cases b.due e with
  | none => exact hafter
  | some cause =>
    rw [tear]
    split <;> exact hafter

theorem Viewed.ended (hv : b.Viewed) (e : Ending) : (b.ended e).Viewed := by
  cases e with
  | hold h => exact hv.lose_tear h _
  | release =>
    rw [Buffer.ended]
    change (b.tear (some .explicit)).Viewed
    rw [tear]
    split <;> exact hv

theorem Prompt.ended (hp : b.Prompt) (e : Ending) : (b.ended e).Prompt where
  viewed := hp.viewed.ended e
  live hl := by
    by_cases hkept : b.due e = none ∨ b.isReleased = true
    · rw [ended_of_kept hkept] at hl ⊢
      rw [isReleased_after] at hl
      have hd := hkept.resolve_right (by rw [hl]; exact Bool.false_ne_true)
      cases e with
      | release => cases hd
      | hold h => exact not_idle_of_due (hp.live hl) hd
    · rw [not_or, Bool.not_eq_true] at hkept
      obtain ⟨cause, hd⟩ := Option.ne_none_iff_exists'.mp hkept.1
      rw [ended_of_due hkept.2 hd] at hl
      cases hl
  deferred hc := by
    rcases b.contents_ended e with hsame | ⟨cause, hl, hd, htorn⟩
    · exact (hp.deferred (hsame ▸ hc)).ended e
    · cases hc.symm.trans htorn
      exact (hp.due hl hd).2.1 rfl
  dropped hc := by
    rw [everAttached_ended]
    rcases b.contents_ended e with hsame | ⟨cause, hl, hd, htorn⟩
    · exact hp.dropped (hsame ▸ hc)
    · cases hc.symm.trans htorn
      exact (hp.due hl hd).2.2 rfl

theorem Prompt.gain {h : BufferHold} (hp : b.Prompt) (hl : h = .handle ∨ b.isReleased = false) :
    (b.gain h).Prompt := by
  have hnot : h ≠ .handle → ∀ cause, b.contents ≠ .tornDown cause := fun hne cause hc =>
    Bool.false_ne_true ((hl.resolve_left hne).symm.trans (isReleased_iff.mpr ⟨cause, hc⟩))
  cases h with
  | handle => exact ⟨hp.viewed, hp.live, hp.deferred, hp.dropped⟩
  | pin =>
    exact ⟨hp.viewed, fun _ hidle => (nomatch hidle.2.2),
      fun hc => absurd hc (hnot (fun h => nomatch h) _), hp.dropped⟩
  | reference =>
    exact ⟨fun _ => rfl, fun _ hidle => (nomatch hidle.2.1),
      fun hc => absurd hc (hnot (fun h => nomatch h) _),
      fun hc => absurd hc (hnot (fun h => nomatch h) _)⟩

/-- Rewritten bytes make no release due. -/
theorem Prompt.rewrite {contents : Contents} (hp : b.Prompt)
    (hc : contents.outline = b.contents.outline) : Prompt { b with contents } where
  viewed := hp.viewed
  live hl := hp.live (by rw [← hl]; exact (isReleased_of_outline hc).symm)
  deferred (ht : contents = .tornDown .deferred) := by
    rw [ht] at hc
    exact hp.deferred (Contents.eq_of_outline hc.symm)
  dropped (ht : contents = .tornDown .dropped) := by
    rw [ht] at hc
    exact hp.dropped (Contents.eq_of_outline hc.symm)

/-- A buffer that is torn down stays torn down for the same cause. -/
theorem Continues.tornDown (h : b.Continues d n b') (hc : b.contents = .tornDown cause) :
    b'.contents = .tornDown cause := by
  rcases h.contents with ho | ⟨hl, -⟩
  · rw [hc] at ho
    exact Contents.eq_of_outline ho
  · cases hl.symm.trans (isReleased_iff.mpr ⟨cause, hc⟩)

end Buffer

namespace Pool

variable {p p' : Pool} {b : Buffer} {n id : BufferId} {e : Ending} {cause : ReleaseCause}
  {d : Option Deed} {endings : List (BufferId × Ending)}

/-! ### No release is overdue -/

/-- No release of any buffer is overdue. -/
def Prompt (p : Pool) : Prop := ∀ n b, p.get? n = some b → b.Prompt

theorem Prompt.of_length (hlen : p'.buffers.length = p.buffers.length)
    (h : ∀ n b, p.get? n = some b → ∃ b', p'.get? n = some b' ∧ b'.Prompt) : p'.Prompt := by
  intro n b' hb'
  have hthere : (p.get? n).isSome := by
    rw [get?, Numbered.get?_isSome_iff, ← hlen, ← Numbered.get?_isSome_iff]
    exact Option.isSome_of_eq_some hb'
  obtain ⟨b, hb⟩ := Option.isSome_iff_exists.mp hthere
  obtain ⟨b₁, hb₁, hprompt⟩ := h n b hb
  cases hb'.symm.trans hb₁
  exact hprompt

theorem Prompt.bringAll (hp : p.Prompt) (endings : List (BufferId × Ending)) :
    (p.bringAll endings).Prompt :=
  .of_length (p.length_bringAll endings) fun n b hb =>
    get?_bringAll (fun _ e h => h.ended e) hb (hp n b hb) endings

theorem Prompt.gain {h : BufferHold} (hp : p.Prompt)
    (hl : h = .handle ∨ ∃ b, p.get? id = some b ∧ b.isReleased = false) :
    Prompt { p with buffers := Numbered.update (·.gain h) p.buffers id } := by
  refine Prompt.of_length (p := p) (Numbered.length_update ..) fun n b hb => ?_
  obtain ⟨b', hb', hcase⟩ := get?_gain id h hb
  refine ⟨b', hb', ?_⟩
  rcases hcase with ⟨rfl, rfl⟩ | ⟨-, rfl⟩
  · refine (hp n b hb).gain (hl.imp_right ?_)
    rintro ⟨b₁, hb₁, hlive⟩
    cases hb.symm.trans hb₁
    exact hlive
  · exact hp n b' hb

/-- Whatever is done to a pool makes no release overdue. -/
theorem Prompt.change (hp : p.Prompt) (hc : p.Change d p') : p'.Prompt := by
  cases hc with
  | quiet | addRegistry | giveBack => exact hp
  | hold hhold =>
    obtain ⟨b, hb, hlive, rfl⟩ := hold_eq_ok_iff.mp hhold
    exact hp.gain (.inr ⟨b, hb, hlive⟩)
  | share => exact hp.gain (.inl rfl)
  | giveUp holds => exact hp.bringAll _
  | release => exact hp.bringAll _
  | @overwrite id old new hold hlen =>
    refine Prompt.of_length (p := p) (length_writeBytes ..) fun n b hb => ?_
    have hfits : new.length ≤ old.length - 0 := hlen.le
    obtain ⟨contents, houtline, hb'⟩ :=
      writeBytes_outline (writableBytes_eq_ok_iff.mp hold).2 hfits hb
    exact ⟨_, hb', (hp n b hb).rewrite houtline⟩
  | @create s r =>
    intro n b hb
    rw [get?, Pool.create, buffers_book, Numbered.get?] at hb
    split at hb
    · cases hb
      exact Buffer.prompt_ofStore s r
    · exact hp n b hb

/-! ### The moment of a teardown -/

/-- On the way from one pool to another an ending tears buffer `n` down for a cause, which leaves it as
`torn`. -/
def TornBetween (p p' : Pool) (n : BufferId) (cause : ReleaseCause) (torn : Buffer) : Prop :=
  ∃ front id e back b, p' = ((p.bringAll front).bring id e).bringAll back ∧
    (p.bringAll front).get? n = some b ∧ b.isReleased = false ∧
    ((p.bringAll front).bring id e).get? n = some torn ∧ torn.contents = .tornDown cause

theorem bringAll_tornDown (hb : p.get? n = some b) (hc : b.contents = .tornDown cause)
    (endings : List (BufferId × Ending)) :
    ∃ b', (p.bringAll endings).get? n = some b' ∧ b'.contents = .tornDown cause :=
  get?_bringAll (fun _ _ => Buffer.contents_ended_of_tornDown) hb hc endings

/-- A buffer that some endings tear down is torn down by one of them. -/
theorem tornBetween_of_bringAll (hb : p.get? n = some b) (hl : b.isReleased = false) {b' : Buffer}
    (hb' : (p.bringAll endings).get? n = some b') (hc : b'.contents = .tornDown cause) :
    ∃ torn, p.TornBetween (p.bringAll endings) n cause torn := by
  induction endings generalizing p b with
  | nil =>
    cases hb.symm.trans hb'
    rw [Buffer.isReleased, hc] at hl
    cases hl
  | cons ending rest ih =>
    obtain ⟨b₁, hb₁, -⟩ := get?_bring ending.1 ending.2 hb
    cases hc₁ : b₁.contents with
    | tornDown cause₁ =>
      obtain ⟨b₂, hb₂, hc₂⟩ := bringAll_tornDown hb₁ hc₁ rest
      cases hb₂.symm.trans hb'
      cases hc₂.symm.trans hc
      exact ⟨b₁, [], ending.1, ending.2, rest, b, rfl, hb, hl, hb₁, hc₁⟩
    | live source =>
      obtain ⟨torn, front, id, e, back, b₂, heq, hmoment⟩ :=
        ih hb₁ (by rw [Buffer.isReleased, hc₁]) hb'
      exact ⟨torn, ending :: front, id, e, back, b₂, heq, hmoment⟩

/-- A release is deferred until the buffer is idle. -/
theorem TornBetween.idle {torn : Buffer} (h : p.TornBetween p' n .deferred torn) (hp : p.Prompt) :
    torn.Idle := by
  obtain ⟨front, id, e, back, b, -, hb, hl, htorn, hc⟩ := h
  have hended : ∀ e, (b.ended e).contents = .tornDown .deferred → (b.ended e).Idle := by
    intro e hc
    rcases b.contents_ended e with hsame | ⟨cause, -, hd, hcause⟩
    · rw [Buffer.isReleased, ← hsame, hc] at hl
      cases hl
    · cases hcause.symm.trans hc
      exact ((hp.bringAll front n b hb).due hl hd).2.1 rfl
  obtain ⟨b', hb', hcase⟩ := get?_bring id e hb
  cases hb'.symm.trans htorn
  rcases hcase with ⟨-, rfl⟩ | ⟨-, rfl | rfl⟩
  · exact hended e hc
  · rw [Buffer.isReleased, hc] at hl
    cases hl
  · exact hended _ hc

theorem TornBetween.everAttached {torn : Buffer} (h : p.TornBetween p' n cause torn)
    (hb : p.get? n = some b) : torn.everAttached = b.everAttached := by
  obtain ⟨front, id, e, back, b₁, -, hb₁, -, htorn, -⟩ := h
  obtain ⟨b₂, hb₂, hsame⟩ := get?_bringAll (P := fun b' => b'.everAttached = b.everAttached)
    (fun b₁ e h => (b₁.everAttached_ended e).trans h) hb rfl (front ++ [(id, e)])
  rw [bringAll, List.foldl_append] at hb₂
  cases htorn.symm.trans hb₂
  exact hsame

/-- What changes no contents tears nothing down. -/
theorem not_torn_of_contents {b' : Buffer} (hl : b.isReleased = false)
    (hsame : b'.contents.outline = b.contents.outline) : b'.contents ≠ .tornDown cause := by
  intro hc
  have hr : b'.isReleased = true := Buffer.isReleased_iff.mpr ⟨cause, hc⟩
  rw [Buffer.isReleased_of_outline hsame, hl] at hr
  cases hr

/-- An operation that tears a buffer down does so by an ending. -/
theorem Change.torn (hchange : p.Change d p') {b' : Buffer} (hb : p.get? n = some b)
    (hl : b.isReleased = false) (hb' : p'.get? n = some b') (hc : b'.contents = .tornDown cause) :
    ∃ torn, p.TornBetween p' n cause torn := by
  have hgain : ∀ id h, Pool.get? { p with buffers := Numbered.update (·.gain h) p.buffers id } n ≠
      some b' := by
    intro id h hb'
    obtain ⟨b₁, hb₁, hcase⟩ := get?_gain id h hb
    cases hb'.symm.trans hb₁
    refine not_torn_of_contents hl (congrArg _ ?_) hc
    rcases hcase with ⟨-, rfl⟩ | ⟨-, rfl⟩
    · cases h <;> rfl
    · rfl
  cases hchange with
  | quiet | addRegistry | giveBack =>
    cases hb.symm.trans hb'
    exact absurd hc (not_torn_of_contents hl rfl)
  | hold hhold =>
    obtain ⟨-, -, -, rfl⟩ := hold_eq_ok_iff.mp hhold
    exact absurd hb' (hgain _ _)
  | share => exact absurd hb' (hgain _ .handle)
  | giveUp holds => exact tornBetween_of_bringAll hb hl hb' hc
  | release => exact tornBetween_of_bringAll hb hl hb' hc
  | @overwrite id old new hold hlen =>
    have hfits : new.length ≤ old.length - 0 := hlen.le
    obtain ⟨contents, houtline, hb₁⟩ :=
      writeBytes_outline (writableBytes_eq_ok_iff.mp hold).2 hfits hb
    cases hb'.symm.trans hb₁
    exact absurd hc (not_torn_of_contents hl houtline)
  | @create s r =>
    have hsame : (p.create s r).2.get? n = some b := by
      rw [get?, Pool.create, buffers_book]
      exact Numbered.get?_cons_of_get? _ hb
    cases hsame.symm.trans hb'
    exact absurd hc (not_torn_of_contents hl rfl)

/-- A live buffer is torn down by its release. -/
theorem Change.released (hchange : p.Change d p') (hd : d = some (.released n))
    (hb : p.get? n = some b) (hl : b.isReleased = false) :
    ∃ b', p'.get? n = some b' ∧ b'.contents = .tornDown .explicit := by
  cases hchange with
  | release =>
    cases hd
    obtain ⟨b', hb', hcase⟩ := get?_bring n .release hb
    refine ⟨b', hb', ?_⟩
    rcases hcase with ⟨-, rfl⟩ | ⟨hne, -⟩
    · rw [Buffer.ended_of_due hl rfl]
    · exact absurd rfl hne
  | @hold _ h => cases h <;> cases hd
  | _ => cases hd

/-- A buffer that an operation makes is not torn down by it. -/
theorem Change.live_of_none (hchange : p.Change d p') (hnone : p.get? n = none)
    (hb : p'.get? n = some b) : b.isReleased = false := by
  have hlength : p'.buffers.length = p.buffers.length → False := by
    intro hlen
    have hthere := Option.isSome_of_eq_some hb
    rw [get?, Numbered.get?_isSome_iff, hlen, ← Numbered.get?_isSome_iff, ← get?, hnone] at hthere
    cases hthere
  cases hchange with
  | quiet | addRegistry | giveBack => exact (hlength rfl).elim
  | hold hhold =>
    obtain ⟨-, -, -, rfl⟩ := hold_eq_ok_iff.mp hhold
    exact (hlength (Numbered.length_update ..)).elim
  | share => exact (hlength (Numbered.length_update ..)).elim
  | giveUp => exact (hlength (p.length_bringAll _)).elim
  | release => exact (hlength (p.length_bringAll _)).elim
  | overwrite => exact (hlength (length_writeBytes ..)).elim
  | create =>
    rw [get?, Pool.create, buffers_book, Numbered.get?] at hb
    split at hb
    · cases hb
      rfl
    · cases hnone.symm.trans hb

end Pool

end StridedViews
