import StridedViews.Proofs.Storage.Course

/-!
The sizes of buffers. Where every store fits into what it lies over, a buffer that can be read has
as many bytes as it says, through however many exports they are read (`length_bytesOf`). Every course
keeps the stores fitting.
-/

namespace StridedViews

open Numbered (get? next)

variable {bs bs' : List Buffer} {s : Store} {id : BufferId} {b : Buffer} {d : Option Deed}
  {p p' : Pool}

/-- A store has as many bytes as it says, or lies inside a buffer with the same rights. -/
def Store.FitsOn (s : Store) (bs : List Buffer) : Prop :=
  match s.source with
  | .owned bytes => bytes.length = s.length
  | .foreign _ bytes => bytes.length = s.length
  | .exported parent start =>
    ∃ b, get? bs parent = some b ∧ start + s.length ≤ b.length ∧ s.readOnly = b.readOnly

/-- The store that a live buffer is made over. -/
def Buffer.storeOf (b : Buffer) (source : Source) : Store := ⟨source, b.length, b.readOnly⟩

/-- All stores fit, and no buffer is exported from a newer one. -/
def SizedBuffers (bs : List Buffer) : Prop :=
  ∀ id b source, get? bs id = some b → b.contents = .live source →
    (b.storeOf source).FitsOn bs ∧ ∀ n h, .buffer n h ∈ source.holds → n < id

theorem SizedBuffers.elder {n : BufferId} {h : BufferHold} (hp : SizedBuffers bs)
    (hb : get? bs id = some b) (hm : .buffer n h ∈ b.holds) : n < id := by
  rw [Buffer.holds] at hm
  split at hm
  · next source hl => exact (hp id b source hb hl).2 n h hm
  · cases hm

/-- Whether a store fits depends on the size and the rights of the buffer that it pins only. -/
theorem Store.FitsOn.mono (hs : s.FitsOn bs)
    (h : ∀ n h, .buffer n h ∈ s.holds → ∀ b, get? bs n = some b →
      ∃ b', get? bs' n = some b' ∧ b'.length = b.length ∧ b'.readOnly = b.readOnly) :
    s.FitsOn bs' := by
  rw [FitsOn] at hs ⊢
  cases hsource : s.source with
  | owned bytes =>
    rw [hsource] at hs
    exact hs
  | foreign label bytes =>
    rw [hsource] at hs
    exact hs
  | exported parent start =>
    rw [hsource] at hs
    obtain ⟨b, hget, hle, hro⟩ := hs
    have hmem : .buffer parent .pin ∈ s.holds := by
      rw [holds, hsource]
      exact List.mem_singleton_self _
    obtain ⟨b', hget', hlength, hreadOnly⟩ := h parent .pin hmem b hget
    exact ⟨b', hget', by rw [hlength]; exact hle, by rw [hreadOnly]; exact hro⟩

/-- A store that fits lies over a buffer that there is. -/
theorem Store.FitsOn.exists_of_mem_holds {n : BufferId} {h : BufferHold} (hs : s.FitsOn bs)
    (hm : .buffer n h ∈ s.holds) : ∃ b, get? bs n = some b := by
  rw [FitsOn] at hs
  rw [holds] at hm
  cases hsource : s.source with
  | owned bytes =>
    rw [hsource] at hm
    cases hm
  | foreign label bytes =>
    rw [hsource] at hm
    cases hm
  | exported parent start =>
    rw [hsource] at hs hm
    obtain ⟨b, hget, -⟩ := hs
    simp only [Source.holds, List.mem_singleton, Hold.buffer.injEq] at hm
    exact ⟨b, hm.1 ▸ hget⟩

/-- Rewriting bytes does not change whether a store fits. -/
theorem Store.FitsOn.of_outline {source : Source} (hs : s.FitsOn bs)
    (h : source.outline = s.source.outline) : Store.FitsOn { s with source } bs := by
  rw [FitsOn] at hs ⊢
  cases hsource : s.source <;> cases source <;>
    simp_all [Source.outline, List.replicate_inj]

theorem Pool.Course.fitsOn (hc : p.Course d p') (hs : s.FitsOn p.buffers) : s.FitsOn p'.buffers :=
  hs.mono fun id _ _ b hget => by
    obtain ⟨b', hget', hcont, -⟩ := hc.old id b hget
    exact ⟨b', hget', hcont.length, hcont.readOnly⟩

theorem Source.holds_of_outline {source source' : Source} (h : source'.outline = source.outline) :
    source'.holds = source.holds := by
  cases source <;> cases source' <;> simp_all [Source.outline, Source.holds]

/-- A buffer that is live later was live before, over the same store but for the bytes. -/
theorem Buffer.Continues.live {b' : Buffer} {source' : Source} (h : b.Continues d id b')
    (hl : b'.contents = .live source') :
    ∃ source, b.contents = .live source ∧ source'.outline = source.outline := by
  have hlive : b'.isReleased = false := by rw [Buffer.isReleased, hl]
  have ho : b'.contents.outline = b.contents.outline := by
    refine h.contents.resolve_right ?_
    rintro ⟨-, hr⟩
    cases hlive.symm.trans hr
  rw [hl] at ho
  cases hc : b.contents with
  | tornDown cause =>
    rw [hc] at ho
    cases ho
  | live source =>
    rw [hc] at ho
    exact ⟨source, rfl, by injection ho⟩

/-- Every course keeps the stores fitting, if that of a new buffer fits. -/
theorem SizedBuffers.course (hp : SizedBuffers p.buffers) (hc : p.Course d p')
    (hmade : ∀ id s r, d = some (.made id s r) → s.FitsOn p.buffers) : SizedBuffers p'.buffers := by
  intro id b' source' hget' hl'
  cases hget : get? p.buffers id with
  | some b =>
    obtain ⟨b₁, hget₁, hcont, -⟩ := hc.old id b hget
    cases hget₁.symm.trans hget'
    obtain ⟨source, hl, ho⟩ := hcont.live hl'
    obtain ⟨hfits, helder⟩ := hp id b source hget hl
    refine ⟨?_, by rw [Source.holds_of_outline ho]; exact helder⟩
    have hfits' := (hc.fitsOn hfits).of_outline ho
    rw [Buffer.storeOf, hcont.length, hcont.readOnly]
    exact hfits'
  | none =>
    rcases hc.new id hget with ⟨-, hnone, -⟩ | ⟨s, r, b₁, hd, hget₁, hcont, -⟩
    · cases hnone.symm.trans hget'
    · cases hget₁.symm.trans hget'
      obtain ⟨source, hl, ho⟩ := hcont.live hl'
      cases hl
      have hfits := hmade id s r hd
      refine ⟨?_, fun n h hmem => ?_⟩
      · have hfits' := (hc.fitsOn hfits).of_outline ho
        rw [Buffer.storeOf, hcont.length, hcont.readOnly]
        exact hfits'
      · -- the store was made over a buffer that there was already
        rw [Source.holds_of_outline ho] at hmem
        obtain ⟨b, hb⟩ := hfits.exists_of_mem_holds hmem
        have hpos := Numbered.get?_isSome_iff.mp (Option.isSome_of_eq_some hget')
        have hnew : ¬ (0 < id ∧ id ≤ p.buffers.length) := by
          rw [← Numbered.get?_isSome_iff, hget]
          exact Bool.false_ne_true
        have hle := Numbered.le_length_of_get? hb
        omega

theorem SizedBuffers.tail {x : Buffer} (hp : SizedBuffers (x :: bs)) : SizedBuffers bs := by
  intro id b source hget hl
  obtain ⟨hfits, helder⟩ := hp id b source (Numbered.get?_cons_of_get? x hget) hl
  refine ⟨hfits.mono fun n h hm b' hget' => ⟨b', ?_, rfl, rfl⟩, helder⟩
  have hle : n ≤ bs.length := (helder n h hm).le.trans (Numbered.le_length_of_get? hget)
  rwa [Numbered.get?_cons_of_le x hle] at hget'

/-- A buffer that can be read has as many bytes as it says. -/
theorem length_bytesOf {region : List UInt8} (hp : SizedBuffers bs) (hb : get? bs id = some b)
    (h : bytesOf bs id = .ok region) : region.length = b.length := by
  induction bs generalizing id b region with
  | nil => cases hb
  | cons x older ih =>
    rw [bytesOf] at h
    rw [get?] at hb
    split at hb
    · next hid =>
      cases hb
      rw [if_pos hid] at h
      have hself : get? (x :: older) id = some x := by rw [get?, if_pos hid]
      split at h
      · cases h
      · next bytes hl =>
        cases h
        exact (hp id x _ hself hl).1
      · next label bytes hl =>
        cases h
        exact (hp id x _ hself hl).1
      · next parent start hl =>
        obtain ⟨whole, hwhole, hpart⟩ := bind_eq_ok_iff.mp h
        obtain ⟨⟨q, hq, hle, -⟩, helder⟩ := hp id x _ hself hl
        have hlt := helder parent .pin (List.mem_singleton_self _)
        rw [hid, next] at hlt
        rw [Numbered.get?_cons_of_le x (Nat.le_of_lt_succ hlt)] at hq
        have hlength := ih hp.tail hq hwhole
        cases hpart
        simp only [Buffer.storeOf] at hle
        rw [List.length_take, List.length_drop, hlength]
        omega
    · next hid =>
      rw [if_neg hid] at h
      exact ih hp.tail hb h

end StridedViews
