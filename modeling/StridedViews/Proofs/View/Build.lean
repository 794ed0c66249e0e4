import StridedViews.Proofs.Storage.Course
import StridedViews.Sharing.Memory

/-!
Building views. A view over a buffer is made exactly if the layout suits the buffer: what is checked
before the reference is attached is all that is checked after it, so no reference is attached in vain
(`Memory.viewOver_eq_ok_iff`).
-/

namespace StridedViews

variable {p : Pool} {l : Layout} {id : BufferId} {owner : Option ItemId} {policy : ReleasePolicy}
  {source : ViewSource} {requested : ViewFlags} {v : View} {m : Memory}

namespace View

/-- A new view. -/
def fresh (l : Layout) (source : ViewSource) (owner : Option ItemId) (policy : ReleasePolicy)
    (requested : ViewFlags) : View :=
  { layout := l
    flags := { requested with released := false, scalar := l.isScalar }
    source
    owner
    exports := 0
    cachedHash := none
    policy }

theorem checkReleased_eq_ok_iff : v.checkReleased = .ok () ↔ v.isReleased = false := by
  rw [checkReleased]
  split <;> simp_all

/-- A view is built if no scalar is asked for that the layout is not and the layout suits the
source. -/
theorem build_eq_ok_iff :
    View.build p l source owner policy requested = .ok v ↔
      (requested.scalar = true → l.isScalar = true) ∧ checkSource p l source = .ok () ∧
        v = fresh l source owner policy requested := by
  rw [build]
  by_cases hscalar : (requested.scalar && !l.isScalar) = true
  · rw [if_pos hscalar]
    simp only [Bool.and_eq_true, Bool.not_eq_true'] at hscalar
    refine iff_of_false (fun h => nomatch h) fun ⟨h, _⟩ => ?_
    rw [h hscalar.1] at hscalar
    cases hscalar.2
  · rw [if_neg hscalar]
    have hs : requested.scalar = true → l.isScalar = true := by simpa using hscalar
    refine (bind_eq_ok_iff (x := checkSource p l source)).trans ?_
    constructor
    · rintro ⟨_, hcheck, heq⟩
      cases heq
      exact ⟨hs, hcheck, rfl⟩
    · rintro ⟨-, hcheck, rfl⟩
      exact ⟨(), hcheck, rfl⟩

theorem checkBuffer_eq_ok_iff :
    checkBuffer p id l = .ok () ↔ ∃ b, p.get? id = some b ∧ b.isReleased = false ∧
      (b.readOnly = false ∨ l.readOnly = true) ∧ Region.checkExtent l b.length = .ok () := by
  rw [checkBuffer]
  cases hget : p.get? id with
  | none => simp
  | some b =>
    by_cases hr : b.isReleased = true
    · simp [hr]
    · by_cases hro : (b.readOnly && !l.readOnly) = true
      · simp only [Bool.and_eq_true, Bool.not_eq_true'] at hro
        simp [hr, hro]
      · have hro' : b.readOnly = false ∨ l.readOnly = true := by
          cases hb : b.readOnly
          · exact .inl rfl
          · exact .inr (by simpa [hb] using hro)
        simp [hr, hro, hro']

/-- A new hold on a buffer does not change which layouts suit it. -/
theorem checkBuffer_gain (h : BufferHold) :
    checkBuffer { p with buffers := Numbered.update (·.gain h) p.buffers id } id l =
      checkBuffer p id l := by
  rw [checkBuffer, checkBuffer, Pool.get?, Numbered.get?_update, if_pos rfl, Pool.get?]
  cases Numbered.get? p.buffers id with
  | none => rfl
  | some b => cases h <;> rfl

end View

/-- Replacing an item does not change how many bytes there are. -/
theorem Region.length_writeItem {region new item : List UInt8} {index : List Nat}
    (h : Region.writeItem l region index item = .ok new) : new.length = region.length := by
  rw [Region.writeItem] at h
  split at h
  · cases h
  · next hsize =>
    obtain ⟨start, hstart, heq⟩ := bind_eq_ok_iff.mp h
    obtain ⟨offset, -, hspan⟩ := bind_eq_ok_iff.mp hstart
    rw [Region.span] at hspan
    cases heq
    split at hspan
    · next hb =>
      cases hspan
      exact length_splice (by omega)
    · cases hspan

/-- What a successful write does: all bytes of a buffer are replaced by as many. -/
theorem View.writeItem_eq_ok {p' : Pool} {index : List Nat} {item : List UInt8}
    (h : v.writeItem p index item = .ok p') :
    ∃ id old new, p.writableBytes id = .ok old ∧ new.length = old.length ∧
      p' = p.overwrite id new := by
  rw [View.writeItem] at h
  obtain ⟨_, -, h⟩ := bind_eq_ok_iff.mp h
  by_cases hro : v.layout.readOnly = true
  · rw [if_pos hro] at h
    cases h
  · rw [if_neg hro] at h
    cases hsource : v.source with
    | aliased bytes =>
      rw [hsource] at h
      cases h
    | managed buffer =>
      rw [hsource] at h
      cases buffer with
      | none => cases h
      | some id =>
        obtain ⟨old, hold, h⟩ := bind_eq_ok_iff.mp h
        obtain ⟨new, hnew, heq⟩ := bind_eq_ok_iff.mp h
        cases heq
        exact ⟨id, old, new, mapError_eq_ok_iff.mp hold, Region.length_writeItem hnew, rfl⟩

namespace Memory

section Outcome

variable {α ε : Type} {holds : List Hold} {result : Except ε (α × Memory)} {m' : Memory}

theorem orGiveUp_eq_ok_iff {a : α} : m.orGiveUp holds result = (.ok a, m') ↔ result = .ok (a, m') := by
  rcases result with e | ⟨b, n⟩ <;> simp [orGiveUp]

/-- What fails leaves what it was handed given up, and nothing else. -/
theorem orGiveUp_eq_error_iff {e : ε} :
    m.orGiveUp holds result = (.error e, m') ↔ result = .error e ∧ m' = m.giveUp holds := by
  rcases result with e | ⟨b, n⟩ <;> simp [orGiveUp, eq_comm]

end Outcome

variable {i : ItemId} {m' : Memory}

/-- A view of a source is made exactly if it is built, and nothing else changes. -/
theorem newView_eq_ok_iff :
    m.newView l source owner policy requested = (.ok i, m') ↔
      View.build m.pool l source owner policy requested =
          .ok (.fresh l source owner policy requested) ∧
        (i, m') = m.put (.view (.fresh l source owner policy requested)) := by
  rw [newView, orGiveUp_eq_ok_iff, bind_eq_ok_iff]
  constructor
  · rintro ⟨v, hbuild, heq⟩
    obtain ⟨-, -, rfl⟩ := View.build_eq_ok_iff.mp hbuild
    cases heq
    exact ⟨hbuild, rfl⟩
  · rintro ⟨hbuild, heq⟩
    exact ⟨_, hbuild, congrArg Except.ok heq.symm⟩

/-- What is checked before a reference is attached is all that is checked after it. -/
theorem build_of_attach {pool : Pool} (hcheck : View.checkBuffer m.pool id l = .ok ())
    (hattach : m.pool.attach id = .ok pool) :
    View.build pool l (.managed (some id)) owner policy (ViewFlags.ofLayout l) =
      .ok (.fresh l (.managed (some id)) owner policy (ViewFlags.ofLayout l)) := by
  have hsource : View.checkSource pool l (.managed (some id)) = .ok () := by
    obtain ⟨b, -, -, rfl⟩ := Pool.hold_eq_ok_iff.mp hattach
    exact (View.checkBuffer_gain .reference).trans hcheck
  exact View.build_eq_ok_iff.mpr ⟨fun h => h, hsource, rfl⟩

/-- A view over a buffer is made exactly if the layout suits the buffer. -/
theorem viewOver_eq_ok_iff :
    m.viewOver l id owner policy = (.ok i, m') ↔
      View.checkBuffer m.pool id l = .ok () ∧ ∃ pool, m.pool.attach id = .ok pool ∧
        (i, m') = put { m with pool }
          (.view (.fresh l (.managed (some id)) owner policy (ViewFlags.ofLayout l))) := by
  rw [viewOver, orGiveUp_eq_ok_iff]
  constructor
  · intro h
    obtain ⟨_, hcheck, h⟩ := bind_eq_ok_iff.mp h
    obtain ⟨pool, hattach, h⟩ := bind_eq_ok_iff.mp h
    obtain ⟨v, hbuild, h⟩ := bind_eq_ok_iff.mp h
    obtain ⟨-, -, rfl⟩ := View.build_eq_ok_iff.mp hbuild
    cases h
    exact ⟨hcheck, pool, mapError_eq_ok_iff.mp hattach, rfl⟩
  · rintro ⟨hcheck, pool, hattach, heq⟩
    refine bind_eq_ok_iff.mpr ⟨(), hcheck, ?_⟩
    refine bind_eq_ok_iff.mpr ⟨pool, mapError_eq_ok_iff.mpr hattach, ?_⟩
    exact bind_eq_ok_iff.mpr ⟨_, build_of_attach hcheck hattach, congrArg Except.ok heq.symm⟩

/-- A view over a buffer that is refused costs its owner the share that was handed over. -/
theorem eq_of_viewOver_error {e : ViewError} (h : m.viewOver l id owner policy = (.error e, m')) :
    m' = m.giveUp (Hold.ofOwner owner) :=
  (orGiveUp_eq_error_iff.mp h).2

theorem eq_of_viewAliased_error {bytes : List UInt8} {e : ViewError}
    (h : m.viewAliased l bytes owner policy requested = (.error e, m')) :
    m' = m.giveUp (Hold.ofOwner owner) := by
  rw [(orGiveUp_eq_error_iff.mp h).2, ViewSource.holds, List.append_nil]

/-- A release either finds the view released, or releases it. -/
theorem release_cases {i : ItemId} {made : Bool × Memory} (h : m.release i v = .ok made) :
    v.isReleased = true ∧ made = (false, m) ∨
      v.isReleased = false ∧ v.checkReleasable = .ok () ∧
        made = (true, (m.setView i v.released).giveUp v.holds) := by
  rw [release] at h
  split at h
  · next hr =>
    cases h
    exact .inl ⟨hr, rfl⟩
  · next hr =>
    obtain ⟨_, hcheck, heq⟩ := bind_eq_ok_iff.mp h
    cases heq
    exact .inr ⟨Bool.eq_false_iff.mpr hr, hcheck, rfl⟩

/-- A buffer that a layout suits can be attached. -/
theorem exists_attach_of_checkBuffer (h : View.checkBuffer m.pool id l = .ok ()) :
    ∃ pool, m.pool.attach id = .ok pool := by
  obtain ⟨b, hget, hl, -⟩ := View.checkBuffer_eq_ok_iff.mp h
  exact ⟨_, Pool.hold_eq_ok_iff.mpr ⟨b, hget, hl, rfl⟩⟩

end Memory

end StridedViews
