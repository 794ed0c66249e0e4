import Mathlib.Logic.Relation
import StridedViews.Proofs.Sharing.Changes
import StridedViews.Proofs.Sharing.References
import StridedViews.Proofs.Sharing.Suited
import StridedViews.Proofs.Storage.Rights
import StridedViews.Proofs.View.Faults

/-!
Read-only memory is never written. What is exported from a read-only buffer, at any depth, is read-only
(`Client.Run.readOnly_of_lineage`), and no view asks for more rights than its bytes give
(`Client.Run.rightful`). So no operation of a client changes what is read through a read-only buffer, and
an item is never written through a view of one (`Client.Run.readOnly_kept`).
-/

namespace StridedViews

/-! ### Rights of views -/

/-- A view asks for no more rights than its bytes give. -/
structure View.Rightful (p : Pool) (v : View) : Prop where
  managed : ∀ id, v.buffer? = some id → ∃ b, p.get? id = some b ∧
    (b.readOnly = true → v.layout.readOnly = true)
  aliased : ∀ bytes, v.source = .aliased bytes → v.layout.readOnly = true

namespace Client

variable {op : Op} {i : ItemId} {v : View}

namespace Run

variable {run : Run} {ops : List Op} {id n : BufferId} {b : Buffer} {s : Store} {r : Option RegistryId}

/-- After any run, every view asks for no more rights than its bytes give. -/
theorem rightful (ops : List Op) (hv : (of ops).client.memory.view? i = some v) :
    v.Rightful (of ops).client.pool := by
  have hsuited := suited ops hv
  constructor
  · intro id hid
    obtain ⟨b, hb, hrights, -⟩ := hsuited.managed id hid
    exact ⟨b, hb, hrights⟩
  · intro bytes hsource
    exact (hsuited.aliased bytes hsource).1

/-! ### Lineage -/

/-- A buffer was made over a range of another one. -/
def MadeFrom (run : Run) (parent id : BufferId) : Prop :=
  ∃ s r start, (.makeBuffer s r, .buffer id) ∈ run.log ∧ s.source = .exported parent start

/-- A buffer was exported from another one, at any depth. -/
def Lineage (run : Run) : BufferId → BufferId → Prop := Relation.ReflTransGen run.MadeFrom

theorem made_mem_deeds_iff :
    .made id s r ∈ run.deeds ↔ (.makeBuffer s r, .buffer id) ∈ run.log := by
  rw [deeds, List.mem_filterMap]
  constructor
  · rintro ⟨⟨op, outcome⟩, hm, hd⟩
    cases op <;> cases outcome <;> simp only [Op.deed, Option.some.injEq, reduceCtorEq] at hd
    cases hd
    exact hm
  · intro hm
    exact ⟨_, hm, rfl⟩

/-- A buffer has the rights of the store that it was made over, and that lies where it did, in an older
buffer. -/
theorem fitsOn_of_made (ops : List Op) (h : .made id s r ∈ (of ops).deeds) :
    s.FitsOn (of ops).client.pool.buffers ∧ (∀ n h, .buffer n h ∈ s.holds → n < id) ∧
      ∃ b, (of ops).client.pool.get? id = some b ∧ b.readOnly = s.readOnly := by
  induction ops using List.reverseRecOn with
  | nil => cases h
  | append_singleton ops op ih =>
    rw [of_concat] at h ⊢
    have hsteps := (of ops).client.steps_step op
    have hcourse : (of ops).client.pool.Course _ ((of ops).extend op).client.pool :=
      hsteps.moves.course
    rcases mem_deeds_extend.mp h with hmem | hd
    · obtain ⟨hfits, holder, b, hb, hro⟩ := ih hmem
      obtain ⟨b', hb', hcont, -⟩ := hcourse.old id b hb
      exact ⟨hcourse.fitsOn hfits, holder, b', hb', hcont.readOnly.trans hro⟩
    · have hfits := (sound ops).fits s (hsteps.made id s r hd)
      cases hget : (of ops).client.pool.get? id with
      | some b =>
        obtain ⟨b', -, hcont, -⟩ := hcourse.old id b hget
        exact absurd hd (hcont.made s r)
      | none =>
        rcases hcourse.new id hget with ⟨hother, -⟩ | ⟨s', r', b', hd', hb', hcont, -⟩
        · exact absurd (by rw [hd]; rfl) hother
        · cases hd.symm.trans hd'
          refine ⟨hcourse.fitsOn hfits, fun n h hm => ?_, b', hb', hcont.readOnly⟩
          obtain ⟨q, hq⟩ := hfits.exists_of_mem_holds hm
          exact Numbered.lt_of_get? hq hget (Numbered.pos_of_get? hb')

/-- What is exported from a read-only buffer is read-only. -/
theorem readOnly_of_lineage (h : (of ops).Lineage id n) (hb : (of ops).client.pool.get? id = some b)
    (hro : b.readOnly = true) :
    ∃ b', (of ops).client.pool.get? n = some b' ∧ b'.readOnly = true := by
  induction h with
  | refl => exact ⟨b, hb, hro⟩
  | tail _ hmade ih =>
    obtain ⟨q, hq, hqro⟩ := ih
    obtain ⟨s, r, start, hmem, hsource⟩ := hmade
    obtain ⟨hfits, -, b', hb', hro'⟩ := fitsOn_of_made ops (made_mem_deeds_iff.mpr hmem)
    rw [Store.FitsOn, hsource] at hfits
    obtain ⟨q', hq', -, hrights⟩ := hfits
    cases hq.symm.trans hq'
    exact ⟨b', hb', by rw [hro', hrights, hqro]⟩

/-- An exported buffer was made from its parent. -/
theorem madeFrom_of_exported {parent start : Nat} (hb : (of ops).client.pool.get? n = some b)
    (hl : b.contents = .live (.exported parent start)) : (of ops).MadeFrom parent n := by
  obtain ⟨s, r, hstory⟩ := (told ops).present n b hb
  have hlive := hstory.contents.resolve_left (by rw [Buffer.isReleased, hl]; exact Bool.noConfusion)
  have hsource : s.source = .exported parent start := by
    rw [hl] at hlive
    cases hs : s.source <;> simp_all [Contents.outline, Source.outline]
  exact ⟨s, r, start, made_mem_deeds_iff.mp hstory.made, hsource⟩

/-- A chain of exports is a lineage. -/
theorem lineage_of_chain {start : Nat} (h : (of ops).client.pool.Chain id n start) :
    (of ops).Lineage id n := by
  induction h with
  | root => exact .refl
  | exported h hb hl ih => exact ih.tail (madeFrom_of_exported hb hl)

/-! ### Read-only buffers -/

/-- A read-only buffer has what it had until it is torn down. -/
theorem retained_later (ops later : List Op) (hb : (of ops).client.pool.get? id = some b)
    (hro : b.readOnly = true) :
    ∃ b', (of (ops ++ later)).client.pool.get? id = some b' ∧ b'.length = b.length ∧
      b.Retained b' := by
  induction later using List.reverseRecOn with
  | nil => exact ⟨b, by rwa [List.append_nil], rfl, .refl b⟩
  | append_singleton later op ih =>
    obtain ⟨b₁, hb₁, hlength, hkept⟩ := ih
    rw [← List.append_assoc, of_concat]
    have hro₁ : b₁.readOnly = true := by
      obtain ⟨b₂, hb₂, -, hsame⟩ := get?_later ops later hb
      cases hb₁.symm.trans hb₂
      rw [hsame, hro]
    obtain ⟨b₂, hb₂, hcont, -⟩ :=
      ((of (ops ++ later)).client.steps_step op).moves.course.old id b₁ hb₁
    obtain ⟨b₃, hb₃, hkept'⟩ :=
      ((of (ops ++ later)).client.change_step op).retained (sound _).sized hb₁ hro₁
    cases hb₂.symm.trans hb₃
    exact ⟨b₂, hb₂, hcont.length.trans hlength, hkept.trans hkept'⟩

/-- What is read through a read-only buffer stays the same until a buffer of its lineage is torn
down. -/
theorem bytes_later (ops later : List Op) (hb : (of ops).client.pool.get? id = some b)
    (hro : b.readOnly = true) :
    (of (ops ++ later)).client.pool.bytes id = (of ops).client.pool.bytes id ∨
      ∃ a q, (of ops).Lineage a id ∧ (of (ops ++ later)).client.pool.get? a = some q ∧
        q.isReleased = true ∧
        (of (ops ++ later)).client.pool.bytes id = .error (.released a) := by
  refine (Pool.bytes_retained (sound ops).sized (sound _).sized ?_ hb hro).imp_right ?_
  · exact fun n b hb hro => retained_later ops later hb hro
  · rintro ⟨a, start, q, hchain, hq⟩
    exact ⟨a, q, lineage_of_chain hchain, hq⟩

/-! ### Writing items -/

theorem writeItem_of_readOnly (ops : List Op) (hv : (of ops).client.memory.view? i = some v)
    (hro : v.layout.readOnly = true) (index : List Nat) (item : List UInt8) :
    (Call.writeItem i index item).run (of ops).client.memory =
      (.error (if v.isReleased then .released else .readOnly), (of ops).client.memory) := by
  rw [run_call_of_owner ops rfl]
  refine Staged.atOnce_error ?_
  have hview : (of ops).client.memory.viewAt i = .ok v := by rw [Memory.viewAt, hv]
  exact (bind_of_ok hview).trans (bind_of_error (bind_of_error (View.writeItem_of_readOnly hro)))

/-- The check of a view leaves none for its buffer. -/
theorem failsOnly_writeItem (ops : List Op) (i : ItemId) (index : List Nat) (item : List UInt8) :
    FailsOnly (fun e => ∀ id, e ≠ .buffer (.readOnly id))
      ((Call.writeItem i index item).operation (of ops).client.memory) := by
  rw [Call.operation, Memory.viewAt]
  cases hv : (of ops).client.memory.view? i with
  | none => exact failsOnly_error (by rintro _ ⟨⟩)
  | some v =>
    refine FailsOnly.bind (x := Memory.writeItem _ v index item) ?_ fun _ => failsOnly_ok _
    exact .bind (View.failsOnly_writeItem (rightful ops hv).managed) fun _ => failsOnly_ok _

/-- In every run, read-only memory keeps its bytes. A read-only buffer has what it had until it is torn
down, all that is exported from it is read-only, no visit may change it, and what is read through it
stays the same until a buffer of its lineage is torn down. A view of it has a read-only layout, and
writing an item through a view that is read-only or aliased fails and changes nothing; the check of a
buffer is never what makes it fail. -/
theorem readOnly_kept (ops : List Op) :
    (∀ id b, (of ops).client.pool.get? id = some b → b.readOnly = true →
      (∀ later, ∃ b', (of (ops ++ later)).client.pool.get? id = some b' ∧ b.Retained b') ∧
      (∀ n, (of ops).Lineage id n →
        (∃ b', (of ops).client.pool.get? n = some b' ∧ b'.readOnly = true) ∧
        (∀ (α : Type) (f : List UInt8 → α × List UInt8),
          (of ops).client.pool.withBytesMut n f = .error (.error (.readOnly n))) ∧
        ∀ later, (of (ops ++ later)).client.pool.bytes n = (of ops).client.pool.bytes n ∨
          ∃ a q, (of ops).Lineage a n ∧ (of (ops ++ later)).client.pool.get? a = some q ∧
            q.isReleased = true ∧
            (of (ops ++ later)).client.pool.bytes n = .error (.released a)) ∧
      ∀ i v, (of ops).client.memory.view? i = some v → v.buffer? = some id →
        v.layout.readOnly = true) ∧
    (∀ i v, (of ops).client.memory.view? i = some v →
      v.layout.readOnly = true ∨ (∃ bytes, v.source = .aliased bytes) → ∀ index item,
        (Call.writeItem i index item).run (of ops).client.memory =
          (.error (if v.isReleased then .released else .readOnly), (of ops).client.memory)) ∧
    ∀ i index item id m', (Call.writeItem i index item).run (of ops).client.memory ≠
      (.error (.buffer (.readOnly id)), m') := by
  refine ⟨fun id b hb hro => ⟨fun later => ?_, fun n hn => ?_, fun i v hv hid => ?_⟩,
    fun i v hv hrights index item => ?_, fun i index item id m' h => ?_⟩
  · obtain ⟨b', hb', -, hkept⟩ := retained_later ops later hb hro
    exact ⟨b', hb', hkept⟩
  · obtain ⟨b', hb', hro'⟩ := readOnly_of_lineage hn hb hro
    refine ⟨⟨b', hb', hro'⟩, fun α f => ?_, fun later => bytes_later ops later hb' hro'⟩
    exact bind_of_error (alterBytes_of_readOnly hb' hro' _)
  · obtain ⟨b', hb', hrights⟩ := (rightful ops hv).managed id hid
    cases hb.symm.trans hb'
    exact hrights hro
  · refine writeItem_of_readOnly ops hv (hrights.elim id ?_) index item
    rintro ⟨bytes, hsource⟩
    exact (rightful ops hv).aliased bytes hsource
  · exact failsOnly_writeItem ops i index item _ (run_call_eq_error_iff.mp h).1 id rfl

/-- Bytes lent to be read only, the last two of them exported, and a view of the first of these. -/
def lentToRead : List Op :=
  [.lendStore "rom" [1, 2, 3] true, .makeBuffer (.foreign "rom" [1, 2, 3] true) none,
    .exportStore 1 1 3, .makeBuffer ⟨.exported 1 1, 2, true⟩ none,
    .viewOver oneByte 2 none .bestEffort]

/-- Nothing is written through the exported buffer or the view of it. -/
theorem readOnly_kept_lentToRead :
    (of lentToRead).client.pool.withBytesMut 2 (fun w => (w.length, w.map (· + 1))) =
        .error (.error (.readOnly 2)) ∧
      (Call.writeItem 1 [0] [9]).run (of lentToRead).client.memory =
        (.error .readOnly, (of lentToRead).client.memory) ∧
      (of (lentToRead ++ [.writeBuffer 2 [8, 9], .writeItem 1 [0] [9]])).client.pool.bytes 2 =
        .ok [2, 3] := by
  obtain ⟨hbuffers, hviews, -⟩ := readOnly_kept lentToRead
  have hmade : (of lentToRead).MadeFrom 1 2 :=
    ⟨⟨.exported 1 1, 2, true⟩, none, 1, List.mem_iff_getElem?.mpr ⟨3, rfl⟩, rfl⟩
  obtain ⟨-, hvisit, hlater⟩ := (hbuffers 1 _ rfl rfl).2.1 2 (.single hmade)
  refine ⟨hvisit Nat _, hviews 1 _ rfl (.inl rfl) [0] [9], ?_⟩
  rcases hlater [.writeBuffer 2 [8, 9], .writeItem 1 [0] [9]] with hsame | ⟨a, q, -, -, -, herror⟩
  · exact hsame
  · cases herror

end Run

end Client

end StridedViews
