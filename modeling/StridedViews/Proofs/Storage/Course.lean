import StridedViews.Proofs.Layout.Recipe
import StridedViews.Proofs.Storage.Teardown

/-!
The course of buffers. A buffer keeps its size, its rights and its registry for good; its store
changes in nothing but its bytes until it is torn down, and then it stays torn down. What else can
happen to a buffer is a deed: it is made, attached or released, each by one operation. All other
operations are courses without a deed, and courses can be put end to end (`Pool.Course.trans`).
-/

namespace StridedViews

open Numbered (get? next)

/-- What an operation does to one buffer of its own accord. -/
inductive Deed where
  | made (id : BufferId) (s : Store) (registry : Option RegistryId)
  | attached (id : BufferId)
  | released (id : BufferId)
  deriving DecidableEq, Repr

/-- The buffer of a deed. -/
def Deed.buffer : Deed → BufferId
  | made id .. | attached id | released id => id

/-- An operation that makes no buffer. -/
def Deed.MakesNone (d : Option Deed) : Prop := ∀ id s r, d ≠ some (.made id s r)

/-- The deed of an ending. -/
def Ending.deed (id : BufferId) : Ending → Option Deed
  | .release => some (.released id)
  | .hold _ => none

/-- The deed of a new hold. -/
def BufferHold.deed (id : BufferId) : BufferHold → Option Deed
  | .reference => some (.attached id)
  | .handle | .pin => none

/-- What stays of a source when its bytes are rewritten. -/
def Source.outline : Source → Source
  | .owned bytes => .owned (List.replicate bytes.length 0)
  | .foreign label bytes => .foreign label (List.replicate bytes.length 0)
  | .exported parent start => .exported parent start

/-- What stays of the contents of a buffer when its bytes are rewritten. -/
def Contents.outline : Contents → Contents
  | .live source => .live source.outline
  | .tornDown cause => .tornDown cause

theorem Contents.eq_of_outline {contents : Contents} {cause : ReleaseCause}
    (h : contents.outline = .tornDown cause) : contents = .tornDown cause := by
  cases contents with
  | live source => cases h
  | tornDown c => exact h

/-! ### One buffer -/

namespace Buffer

variable {b b' b'' : Buffer} {d : Option Deed} {id : BufferId}

/-- How the buffer of number `id` may look after an operation with deed `d`. -/
structure Continues (d : Option Deed) (id : BufferId) (b b' : Buffer) : Prop where
  made : ∀ s r, d ≠ some (.made id s r)
  length : b'.length = b.length
  readOnly : b'.readOnly = b.readOnly
  registry : b'.registry = b.registry
  contents : b'.contents.outline = b.contents.outline ∨
    b.isReleased = false ∧ b'.isReleased = true
  explicit : b'.contents = .tornDown .explicit →
    b.contents = .tornDown .explicit ∨ d = some (.released id)
  everAttached : b'.everAttached = true ↔ b.everAttached = true ∨ d = some (.attached id)
  released : d = some (.released id) → b'.isReleased = true

theorem isReleased_of_outline (h : b'.contents.outline = b.contents.outline) :
    b'.isReleased = b.isReleased := by
  simp only [isReleased]
  cases hb : b.contents <;> cases hb' : b'.contents <;> simp_all [Contents.outline]

theorem Continues.refl (hd : d.map Deed.buffer ≠ some id) : b.Continues d id b where
  made := fun s r h => hd (by rw [h]; rfl)
  length := rfl
  readOnly := rfl
  registry := rfl
  contents := .inl rfl
  explicit := .inl
  everAttached := (or_iff_left fun h => hd (by rw [h]; rfl)).symm
  released := fun h => absurd (by rw [h]; rfl) hd

/-- A buffer that no deed is about goes on in the same way under any other deed. -/
theorem Continues.of_none (h : b.Continues none id b') (hd : d.map Deed.buffer ≠ some id) :
    b.Continues d id b' where
  made := fun s r h => hd (by rw [h]; rfl)
  length := h.length
  readOnly := h.readOnly
  registry := h.registry
  contents := h.contents
  explicit := fun he => (h.explicit he).imp_right fun h => nomatch h
  everAttached := by
    rw [h.everAttached, or_iff_left (fun h => nomatch h),
      or_iff_left fun h => hd (by rw [h]; rfl)]
  released := fun h => absurd (by rw [h]; rfl) hd

/-- A released buffer stays released. -/
theorem Continues.isReleased (h : b.Continues d id b') (hr : b.isReleased = true) :
    b'.isReleased = true := by
  rcases h.contents with ho | ⟨hl, -⟩
  · rw [isReleased_of_outline ho, hr]
  · rw [hr] at hl
    cases hl

theorem Continues.trans (h : b.Continues d id b') (h' : b'.Continues none id b'') :
    b.Continues d id b'' where
  made := h.made
  length := h'.length.trans h.length
  readOnly := h'.readOnly.trans h.readOnly
  registry := h'.registry.trans h.registry
  contents := by
    rcases h.contents with ho | ⟨hl, ht⟩
    · rcases h'.contents with ho' | ⟨hl', ht'⟩
      · exact .inl (ho'.trans ho)
      · exact .inr ⟨isReleased_of_outline ho ▸ hl', ht'⟩
    · exact .inr ⟨hl, h'.isReleased ht⟩
  explicit := fun he => h.explicit ((h'.explicit he).resolve_right fun h => nomatch h)
  everAttached := by
    rw [h'.everAttached, or_iff_left (fun h => nomatch h), h.everAttached]
  released := fun hd => h'.isReleased (h.released hd)

theorem lent_of_outline (h : b'.contents.outline = b.contents.outline) : b'.lent = b.lent := by
  unfold lent
  cases hb : b.contents with
  | tornDown cause => cases hb' : b'.contents <;> simp_all [Contents.outline]
  | live source =>
    cases hb' : b'.contents with
    | tornDown cause => simp_all [Contents.outline]
    | live source' => cases source <;> cases source' <;> simp_all [Contents.outline, Source.outline]

end Buffer

/-! ### Lists of buffers -/

/-- The labels of a buffer that are given back in some events. -/
def returnedIn (events : List StorageEvent) (n : BufferId) : List String :=
  events.filterMap fun
    | .gaveBack id label => if id = n then some label else none
    | _ => none

theorem returnedIn_append (es es' : List StorageEvent) (n : BufferId) :
    returnedIn (es ++ es') n = returnedIn es n ++ returnedIn es' n :=
  List.filterMap_append

theorem returnedIn_underflow (b : Buffer) (id n : BufferId) (e : Ending) :
    returnedIn (b.underflow id e) n = [] := by
  cases e with
  | release => rfl
  | hold h =>
    rw [Buffer.underflow]
    split <;> rfl

variable {bs : List Buffer} {b : Buffer} {id n : BufferId} {e : Ending} {d : Option Deed}

theorem returnedIn_lent (labels : List String) (id : BufferId) :
    returnedIn (labels.map (.gaveBack id)) id = labels := by
  simp [returnedIn]

theorem returnedIn_lent_of_ne (labels : List String) (h : id ≠ n) :
    returnedIn (labels.map (.gaveBack id)) n = [] := by
  simp [returnedIn, h]

/-- Only buffers of the list give anything back. -/
theorem returnedIn_endBuffer_of_none (h : get? bs n = none) :
    returnedIn (endBuffer bs id e).2 n = [] := by
  induction bs generalizing id e with
  | nil => rfl
  | cons x older ih =>
    have hn : n ≠ next older := by
      rintro rfl
      rw [Numbered.get?_cons_next] at h
      cases h
    rw [get?, if_neg hn] at h
    by_cases hid : id = next older
    · subst hid
      rcases endBuffer_next x older e with ⟨-, found, hfound, heq⟩ |
        ⟨cause, torn, -, -, htorn, heq⟩
      · rw [heq, returnedIn_append, returnedIn_underflow]
        rcases hfound with rfl | rfl <;> rfl
      · have hpassed : returnedIn torn.2 n = [] := by
          rcases htorn with ⟨-, rfl⟩ | ⟨-, parent, -, rfl⟩
          · exact returnedIn_lent_of_ne _ (Ne.symm hn)
          · exact ih h
        rw [heq, returnedIn_append, returnedIn_append, returnedIn_underflow, hpassed]
        rfl
    · rw [endBuffer, if_neg hid]
      exact ih h

namespace Buffer

theorem due_hold_ne_explicit (b : Buffer) (h : BufferHold) :
    b.due (.hold h) ≠ some .explicit := by
  simp only [due]
  split
  · simp
  · split <;> simp

/-- A buffer goes on if an ending does not tear it down now. -/
theorem continues_after (hr : e = .release → b.isReleased = true) :
    b.Continues (e.deed id) id (b.after e) where
  made := by cases e <;> simp [Ending.deed]
  length := by rcases e with _ | _ | _ | _ <;> rfl
  readOnly := by rcases e with _ | _ | _ | _ <;> rfl
  registry := by rcases e with _ | _ | _ | _ <;> rfl
  contents := .inl (by rw [contents_after])
  explicit := fun he => .inl (by rw [← he, contents_after])
  everAttached := by
    rw [everAttached_after]
    cases e <;> simp [Ending.deed]
  released := by
    cases e with
    | release => exact fun _ => hr rfl
    | hold h => exact fun h => nomatch h

theorem continues_gain (h : BufferHold) : b.Continues (h.deed id) id (b.gain h) where
  made := by cases h <;> simp [BufferHold.deed]
  length := by cases h <;> rfl
  readOnly := by cases h <;> rfl
  registry := by cases h <;> rfl
  contents := .inl (by cases h <;> rfl)
  explicit := fun he => .inl (by cases h <;> exact he)
  everAttached := by cases h <;> simp [BufferHold.deed, gain]
  released := by cases h <;> simp [BufferHold.deed]

/-- Rewritten bytes are no deed. -/
theorem continues_outline {contents : Contents} (h : contents.outline = b.contents.outline) :
    b.Continues none id { b with contents } where
  made := fun _ _ h => nomatch h
  length := rfl
  readOnly := rfl
  registry := rfl
  contents := .inl h
  explicit := fun he => by
    change contents = .tornDown .explicit at he
    rw [he] at h
    exact .inl (Contents.eq_of_outline h.symm)
  everAttached := (or_iff_left fun h => nomatch h).symm
  released := fun h => nomatch h

theorem continues_tearDown {cause : ReleaseCause} (hl : b.isReleased = false)
    (hd : b.due e = some cause) :
    b.Continues (e.deed id) id { b.after e with contents := .tornDown cause } where
  made := by cases e <;> simp [Ending.deed]
  length := by rcases e with _ | _ | _ | _ <;> rfl
  readOnly := by rcases e with _ | _ | _ | _ <;> rfl
  registry := by rcases e with _ | _ | _ | _ <;> rfl
  contents := .inr ⟨hl, rfl⟩
  explicit := by
    intro he
    injection he with he
    subst he
    cases e with
    | release => exact .inr rfl
    | hold h => exact absurd hd (b.due_hold_ne_explicit h)
  everAttached := by
    change (b.after e).everAttached = true ↔ _
    rw [everAttached_after]
    cases e <;> simp [Ending.deed]
  released := fun _ => rfl

end Buffer

/-- The newest buffer goes on when it is ended. What it owes is given back if it is torn down, and the
buffers behind it give back nothing in its name. -/
theorem endBuffer_next_continues (b : Buffer) (older : List Buffer) (e : Ending) :
    ∃ b', get? (endBuffer (b :: older) (next older) e).1 (next older) = some b' ∧
      b.Continues (e.deed (next older)) (next older) b' ∧
      returnedIn (endBuffer (b :: older) (next older) e).2 (next older) ++ b'.lent = b.lent := by
  rcases endBuffer_next b older e with ⟨hd, found, hfound, heq⟩ |
    ⟨cause, torn, hd, hlive, htorn, heq⟩
  · have hr : e = .release → b.isReleased = true := by
      rintro rfl
      exact hd.resolve_left fun h => nomatch h
    rw [heq]
    refine ⟨_, Numbered.get?_cons_next .., Buffer.continues_after hr, ?_⟩
    rw [returnedIn_append, returnedIn_underflow, Buffer.lent, Buffer.contents_after]
    rcases hfound with rfl | rfl <;> rfl
  · have hpassed : returnedIn torn.2 (next older) = b.lent := by
      rcases htorn with ⟨-, rfl⟩ | ⟨hlent, parent, -, rfl⟩
      · exact returnedIn_lent ..
      · have hnone : get? older (next older) = none := Numbered.get?_eq_none (Nat.lt_succ_self _)
        rw [returnedIn_endBuffer_of_none hnone, hlent]
    rw [heq]
    refine ⟨_, by rw [get?, htorn.next_eq, if_pos rfl], Buffer.continues_tearDown hlive hd, ?_⟩
    rw [returnedIn_append, returnedIn_append, returnedIn_underflow, hpassed]
    simp [returnedIn, Buffer.lent]

/-- An ending is a course of every buffer, and a label is given back when it is not owed any more. -/
theorem endBuffer_continues (id : BufferId) (e : Ending) (h : get? bs n = some b) :
    ∃ b', get? (endBuffer bs id e).1 n = some b' ∧ b.Continues (e.deed id) n b' ∧
      returnedIn (endBuffer bs id e).2 n ++ b'.lent = b.lent := by
  induction bs generalizing id e with
  | nil => cases h
  | cons x older ih =>
    have hdeed : n ≠ id → (e.deed id).map Deed.buffer ≠ some n := by
      intro hne
      cases e <;> simp [Ending.deed, Deed.buffer, Ne.symm hne]
    by_cases hn : n = next older
    · subst hn
      rw [Numbered.get?_cons_next] at h
      cases h
      by_cases hid : id = next older
      · subst hid
        exact endBuffer_next_continues b older e
      · have hnone : get? older (next older) = none := Numbered.get?_eq_none (Nat.lt_succ_self _)
        refine ⟨b, ?_, .refl (hdeed (Ne.symm hid)), ?_⟩
        · rw [endBuffer, if_neg hid, get?, next_endBuffer, if_pos rfl]
        · rw [endBuffer, if_neg hid, returnedIn_endBuffer_of_none hnone, List.nil_append]
    · rw [get?, if_neg hn] at h
      by_cases hid : id = next older
      · subst hid
        rcases endBuffer_next x older e with ⟨-, found, hfound, heq⟩ |
          ⟨cause, torn, -, -, htorn, heq⟩
        · rw [heq]
          refine ⟨b, by rw [get?, if_neg hn, h], .refl (hdeed hn), ?_⟩
          rw [returnedIn_append, returnedIn_underflow]
          rcases hfound with rfl | rfl <;> rfl
        · have hpassed : ∃ b', get? torn.1 n = some b' ∧ b.Continues none n b' ∧
              returnedIn torn.2 n ++ b'.lent = b.lent := by
            rcases htorn with ⟨-, rfl⟩ | ⟨-, parent, -, rfl⟩
            · refine ⟨b, h, .refl (by simp), ?_⟩
              rw [returnedIn_lent_of_ne _ (Ne.symm hn), List.nil_append]
            · exact ih parent (.hold .pin) h
          obtain ⟨b', hb', hcont, hlent⟩ := hpassed
          rw [heq]
          refine ⟨b', by rw [get?, htorn.next_eq, if_neg hn, hb'], hcont.of_none (hdeed hn), ?_⟩
          rw [returnedIn_append, returnedIn_append, returnedIn_underflow, ← hlent]
          simp [returnedIn]
      · obtain ⟨b', hb', hcont, hlent⟩ := ih id e h
        rw [endBuffer, if_neg hid]
        exact ⟨b', by rw [get?, next_endBuffer, if_neg hn, hb'], hcont, hlent⟩

/-- Rewriting the bytes of the newest buffer changes nothing but bytes. -/
theorem get?_cons_outline {x : Buffer} {older : List Buffer} {contents : Contents}
    (h : get? (x :: older) n = some b) (hc : contents.outline = x.contents.outline) :
    ∃ contents', contents'.outline = b.contents.outline ∧
      get? ({ x with contents } :: older) n = some { b with contents := contents' } := by
  rw [get?] at h ⊢
  split at h
  · next hn =>
    cases h
    exact ⟨contents, hc, if_pos hn⟩
  · next hn => exact ⟨b.contents, rfl, by rw [if_neg hn, h]⟩

/-- Rewriting the bytes of a buffer changes nothing but bytes. -/
theorem writeBytes_outline {start : Nat} {new old : List UInt8} (hold : bytesOf bs id = .ok old)
    (hlen : new.length ≤ old.length - start) (h : get? bs n = some b) :
    ∃ contents, contents.outline = b.contents.outline ∧
      get? (writeBytes bs id start new) n = some { b with contents } := by
  induction bs generalizing id start old with
  | nil => cases h
  | cons x older ih =>
    have hback : ∀ id start old, bytesOf older id = .ok old → new.length ≤ old.length - start →
        ∃ contents, contents.outline = b.contents.outline ∧
          get? (x :: writeBytes older id start new) n = some { b with contents } := by
      intro id start old hold hlen
      rw [get?, Numbered.next, length_writeBytes]
      rw [get?] at h
      split at h
      · next hn =>
        cases h
        exact ⟨_, rfl, if_pos hn⟩
      · next hn =>
        obtain ⟨contents, hc, hget⟩ := ih hold hlen h
        exact ⟨contents, hc, by rw [← hget]; exact if_neg hn⟩
    rw [writeBytes]
    rw [bytesOf] at hold
    split
    · next hid =>
      rw [if_pos hid] at hold
      split
      · exact ⟨_, rfl, h⟩
      · next bytes hl =>
        rw [hl] at hold
        cases hold
        refine get?_cons_outline h ?_
        simp [hl, Contents.outline, Source.outline, length_splice hlen]
      · next label bytes hl =>
        rw [hl] at hold
        cases hold
        refine get?_cons_outline h ?_
        simp [hl, Contents.outline, Source.outline, length_splice hlen]
      · next parent offset hl =>
        rw [hl] at hold
        obtain ⟨whole, hwhole, hpart⟩ := bind_eq_ok_iff.mp hold
        cases hpart
        refine hback parent (offset + start) whole hwhole ?_
        simp only [List.length_take, List.length_drop] at hlen
        omega
    · next hid =>
      rw [if_neg hid] at hold
      exact hback id start old hold hlen

/-! ### Pools -/

namespace Pool

variable {p p' p'' : Pool}

/-- The labels that were given back at the teardown of a buffer. -/
def returned (p : Pool) (id : BufferId) : List String :=
  p.givenBack.filterMap fun g => if g.buffer = some id then some g.label else none

/-- What an operation with deed `d` may do to a pool. Of every buffer, the labels that it owes and
those that were given back for it stay the same together. -/
structure Course (d : Option Deed) (p p' : Pool) : Prop where
  old : ∀ id b, p.get? id = some b → ∃ b', p'.get? id = some b' ∧ b.Continues d id b' ∧
    p'.returned id ++ b'.lent = p.returned id ++ b.lent
  new : ∀ id, p.get? id = none →
    d.map Deed.buffer ≠ some id ∧ p'.get? id = none ∧ p'.returned id = p.returned id ∨
      ∃ s r b', d = some (.made id s r) ∧ p'.get? id = some b' ∧
        (Buffer.ofStore s r).Continues none id b' ∧
        p'.returned id ++ b'.lent = p.returned id ++ (Buffer.ofStore s r).lent

theorem Course.trans (h : p.Course d p') (h' : p'.Course none p'') : p.Course d p'' := by
  have hstep : ∀ {id} {b₀ b' : Buffer} {d : Option Deed} {l : List String}, b₀.Continues d id b' →
      p'.get? id = some b' → p'.returned id ++ b'.lent = l →
      ∃ b'', p''.get? id = some b'' ∧ b₀.Continues d id b'' ∧ p''.returned id ++ b''.lent = l := by
    intro id b₀ b' d l hcont hget hl
    obtain ⟨b'', hget', hcont', hl'⟩ := h'.old id b' hget
    exact ⟨b'', hget', hcont.trans hcont', hl'.trans hl⟩
  refine ⟨fun id b hget => ?_, fun id hnone => ?_⟩
  · obtain ⟨b', hget', hcont, hl⟩ := h.old id b hget
    exact hstep hcont hget' hl
  · rcases h.new id hnone with ⟨hd, hnone', hl⟩ | ⟨s, r, b', hd, hget, hcont, hl⟩
    · rcases h'.new id hnone' with ⟨-, hnone'', hl'⟩ | ⟨s, r, b', hd', -⟩
      · exact .inl ⟨hd, hnone'', hl'.trans hl⟩
      · cases hd'
    · obtain ⟨b'', hget', hcont', hl'⟩ := hstep hcont hget hl
      exact .inr ⟨s, r, b'', hd, hget', hcont', hl'⟩

/-- A course in which no buffer is made and nothing is given back. -/
theorem Course.of_length (hlen : p'.buffers.length = p.buffers.length)
    (hret : ∀ id, p'.returned id = p.returned id)
    (hd : ∀ id, d.map Deed.buffer = some id → (p.get? id).isSome)
    (hold : ∀ id b, p.get? id = some b → ∃ b', p'.get? id = some b' ∧ b.Continues d id b' ∧
      b'.lent = b.lent) : p.Course d p' := by
  refine ⟨fun id b hget => ?_, fun id hnone => .inl ⟨fun h => ?_, ?_, hret id⟩⟩
  · obtain ⟨b', hget', hcont, hl⟩ := hold id b hget
    exact ⟨b', hget', hcont, by rw [hret, hl]⟩
  · have hsome := hd id h
    rw [hnone] at hsome
    cases hsome
  · rw [← Option.not_isSome_iff_eq_none, get?, Numbered.get?_isSome_iff, hlen,
      ← Numbered.get?_isSome_iff, Option.not_isSome_iff_eq_none]
    exact hnone

theorem Course.of_eq (hb : p'.buffers = p.buffers) (hret : ∀ id, p'.returned id = p.returned id) :
    p.Course none p' :=
  .of_length (by rw [hb]) hret (fun _ h => nomatch h) fun id b h =>
    ⟨b, by rwa [get?, hb], .refl (fun h => nomatch h), rfl⟩

/-- Changing one buffer is a course if the buffer goes on. -/
theorem course_update {f : Buffer → Buffer} (hd : d = none ∨ ∃ b, p.get? id = some b)
    (hid : ∀ n, n ≠ id → d.map Deed.buffer ≠ some n)
    (hf : ∀ b, p.get? id = some b → b.Continues d id (f b) ∧ (f b).contents = b.contents) :
    p.Course d { p with buffers := Numbered.update f p.buffers id } := by
  refine .of_length (Numbered.length_update ..) (fun _ => rfl) (fun n hn => ?_) fun n b hget => ?_
  · have hn' : n = id := not_not.mp fun h => hid n h hn
    rcases hd with rfl | ⟨b, hb⟩
    · cases hn
    · rw [hn', hb]
      rfl
  · change Numbered.get? _ n = _ at hget
    by_cases hn : n = id
    · subst hn
      obtain ⟨hcont, hc⟩ := hf b hget
      refine ⟨f b, ?_, hcont, by rw [Buffer.lent, hc, Buffer.lent]⟩
      change Numbered.get? (Numbered.update f p.buffers n) n = _
      rw [Numbered.get?_update, if_pos rfl, hget, Option.map_some]
    · refine ⟨b, ?_, .refl (hid n hn), rfl⟩
      change Numbered.get? (Numbered.update f p.buffers id) n = _
      rw [Numbered.get?_update, if_neg hn, hget]

/-! #### Entering what happened -/

@[simp] theorem buffers_book (p : Pool) (r : Option RegistryId) (f : Registry → Registry) :
    (p.book r f).buffers = p.buffers := by
  cases r <;> rfl

@[simp] theorem givenBack_book (p : Pool) (r : Option RegistryId) (f : Registry → Registry) :
    (p.book r f).givenBack = p.givenBack := by
  cases r <;> rfl

@[simp] theorem underflows_book (p : Pool) (r : Option RegistryId) (f : Registry → Registry) :
    (p.book r f).underflows = p.underflows := by
  cases r <;> rfl

theorem buffers_record (p : Pool) (events : List StorageEvent) :
    (events.foldl record p).buffers = p.buffers := by
  induction events generalizing p with
  | nil => rfl
  | cons event rest ih =>
    rw [List.foldl_cons, ih]
    cases event <;> simp [record]

theorem returned_record (p : Pool) (events : List StorageEvent) (n : BufferId) :
    (events.foldl record p).returned n = p.returned n ++ returnedIn events n := by
  induction events generalizing p with
  | nil => simp [returnedIn]
  | cons event rest ih =>
    rw [List.foldl_cons, ih]
    cases event <;> simp [record, returned, returnedIn, List.filterMap_cons]
    split <;> simp_all

theorem underflows_record (p : Pool) {events : List StorageEvent}
    (h : ∀ n hold, .underflow n hold ∉ events) :
    (events.foldl record p).underflows = p.underflows := by
  induction events generalizing p with
  | nil => rfl
  | cons event rest ih =>
    rw [List.foldl_cons, ih _ fun n hold hm => h n hold (List.mem_cons_of_mem _ hm)]
    cases event with
    | underflow n hold => exact absurd List.mem_cons_self (h n hold)
    | gaveBack n label => rfl
    | tornDown r length cause => simp [record]
    | redundant r => simp [record]

/-! #### The operations -/

theorem buffers_bring (p : Pool) (id : BufferId) (e : Ending) :
    (p.bring id e).buffers = (endBuffer p.buffers id e).1 :=
  buffers_record ..

theorem returned_bring (p : Pool) (id : BufferId) (e : Ending) (n : BufferId) :
    (p.bring id e).returned n = p.returned n ++ returnedIn (endBuffer p.buffers id e).2 n :=
  returned_record ..

theorem course_bring (h : e = .release → (p.get? id).isSome) :
    p.Course (e.deed id) (p.bring id e) := by
  refine ⟨fun n b hget => ?_, fun n hnone => .inl ⟨fun hd => ?_, ?_, ?_⟩⟩
  · obtain ⟨b', hget', hcont, hl⟩ := endBuffer_continues id e hget
    refine ⟨b', by rw [get?, buffers_bring, hget'], hcont, ?_⟩
    rw [returned_bring, List.append_assoc, hl]
  · cases e with
    | hold h => cases hd
    | release =>
      injection hd with hd
      have hsome := h rfl
      rw [show id = n from hd, hnone] at hsome
      cases hsome
  · rw [← Option.not_isSome_iff_eq_none, get?, Numbered.get?_isSome_iff, buffers_bring,
      length_endBuffer, ← Numbered.get?_isSome_iff, Option.not_isSome_iff_eq_none]
    exact hnone
  · rw [returned_bring, returnedIn_endBuffer_of_none hnone, List.append_nil]

theorem live_eq_ok_iff {b : Buffer} :
    p.live id = .ok b ↔ p.get? id = some b ∧ b.isReleased = false := by
  rw [live]
  cases hget : p.get? id with
  | none => simp
  | some b' =>
    dsimp only
    split
    · next hr =>
      refine iff_of_false (fun h => nomatch h) ?_
      rintro ⟨h, hl⟩
      cases h
      rw [hr] at hl
      cases hl
    · next hl =>
      rw [Bool.not_eq_true] at hl
      constructor
      · intro h
        cases h
        exact ⟨rfl, hl⟩
      · rintro ⟨h, -⟩
        cases h
        rfl

/-- Only a buffer that is not torn down takes a reference or a pin. -/
theorem hold_eq_ok_iff {h : BufferHold} :
    p.hold id h = .ok p' ↔ ∃ b, p.get? id = some b ∧ b.isReleased = false ∧
      p' = { p with buffers := Numbered.update (·.gain h) p.buffers id } := by
  rw [hold, bind_eq_ok_iff]
  constructor
  · rintro ⟨b, hb, heq⟩
    obtain ⟨hget, hl⟩ := live_eq_ok_iff.mp hb
    cases heq
    exact ⟨b, hget, hl, rfl⟩
  · rintro ⟨b, hget, hl, rfl⟩
    exact ⟨b, live_eq_ok_iff.mpr ⟨hget, hl⟩, rfl⟩

/-- A new hold is a course; only a reference makes it a deed. -/
theorem course_gain {h : BufferHold} (hb : ∃ b, p.get? id = some b) :
    p.Course (h.deed id) { p with buffers := Numbered.update (·.gain h) p.buffers id } := by
  refine course_update (.inr hb) (fun n hn => ?_) fun b _ => ⟨Buffer.continues_gain h, ?_⟩
  · cases h <;> simp [BufferHold.deed, Deed.buffer, Ne.symm hn]
  · cases h <;> rfl

theorem course_overwrite {old new : List UInt8} (hold : p.bytes id = .ok old)
    (hlen : new.length = old.length) : p.Course none (p.overwrite id new) := by
  refine .of_length (length_writeBytes ..) (fun _ => rfl) (fun _ h => nomatch h) fun n b hget => ?_
  have hfits : new.length ≤ old.length - 0 := hlen.le
  obtain ⟨contents, hc, hget'⟩ := writeBytes_outline hold hfits hget
  exact ⟨_, hget', Buffer.continues_outline hc, Buffer.lent_of_outline hc⟩

theorem course_create (p : Pool) (s : Store) (r : Option RegistryId) :
    p.Course (some (.made (p.create s r).1 s r)) (p.create s r).2 := by
  have hbuffers : (p.create s r).2.buffers = Buffer.ofStore s r :: p.buffers := buffers_book ..
  have hret : ∀ id, (p.create s r).2.returned id = p.returned id := fun id => by
    rw [returned, create, givenBack_book, returned]
  refine ⟨fun id b hget => ?_, fun id hnone => ?_⟩
  · have hle := Numbered.le_length_of_get? hget
    refine ⟨b, ?_, .refl fun h => ?_, by rw [hret]⟩
    · rw [get?, hbuffers, Numbered.get?_cons_of_le _ hle, ← get?, hget]
    · have hid : next p.buffers = id := Option.some.inj h
      simp only [next] at hid
      omega
  · by_cases hid : id = next p.buffers
    · subst hid
      refine .inr ⟨s, r, .ofStore s r, rfl, ?_, .refl (by simp), by rw [hret]⟩
      rw [get?, hbuffers, Numbered.get?_cons_next]
    · refine .inl ⟨fun h => hid (Option.some.inj h).symm, ?_, hret id⟩
      rw [get?, hbuffers, Numbered.get?, if_neg hid, ← get?, hnone]

end Pool

end StridedViews
