import StridedViews.Proofs.Sharing.Run
import StridedViews.Proofs.View.Bounds

/-!
Views over buffers are safe. A view is made exactly if its buffer grants the rights that it asks for
and all its items lie inside the buffer. From then on, whatever the client does, no access to the view
fails as long as the view is not released and its buffer can be read
(`Client.Run.viewOver_exact_and_safe`).
-/

namespace StridedViews

open Word (maxSigned)

variable {l : Layout} {id : BufferId} {i : ItemId} {m : Memory} {owner : Option ItemId}
  {policy : ReleasePolicy}

/-! ### Accesses of a view -/

/-- Every access to a view that keeps to its shape and its rights succeeds. -/
structure View.Safe (v : View) (p : Pool) : Prop where
  read : ∃ bs, v.read p = .ok bs
  readItem : ∀ index, InShape index v.layout.shape → ∃ item, v.readItem p index = .ok item
  writeItem : v.layout.readOnly = false → ∀ index item, InShape index v.layout.shape →
    item.length = v.layout.itemSize → ∃ p', v.writeItem p index item = .ok p'

/-- A view is safe where its buffer can be read, and written if the view may, and has all its
items. -/
theorem View.safe_of_inside {v : View} {p : Pool} {region : List UInt8} (hs : v.layout.Sound)
    (hd : v.layout.isIndirect = false) (hr : (region.length : Int) ≤ maxSigned)
    (hin : v.layout.Inside region.length) (hlive : v.isReleased = false)
    (hsource : v.source = .managed (some id)) (hbytes : p.bytes id = .ok region)
    (hwritable : v.layout.readOnly = false → p.writableBytes id = .ok region) : v.Safe p := by
  have hcheck : v.checkReleased = .ok () := by simp [checkReleased, hlive]
  have hregion : v.region p = .ok region := by
    refine bind_eq_ok_iff.mpr ⟨(), hcheck, ?_⟩
    rw [hsource]
    exact mapError_eq_ok_iff.mpr hbytes
  refine ⟨?_, fun index hx => ?_, fun hro index item hx hlength => ?_⟩
  · obtain ⟨bs, hbs⟩ := Region.gather_of_inside hs hd hr hin
    exact ⟨bs, bind_eq_ok_iff.mpr ⟨region, hregion, hbs⟩⟩
  · obtain ⟨item, hitem⟩ := Region.readItem_of_inside hs hd hr hin hx
    exact ⟨item, bind_eq_ok_iff.mpr ⟨region, hregion, hitem⟩⟩
  · have hitem := Region.writeItem_of_inside hs hd hr hin hx hlength
    refine ⟨p.overwrite id (splice region (v.layout.place index).toNat item), ?_⟩
    refine bind_eq_ok_iff.mpr ⟨(), hcheck, ?_⟩
    rw [if_neg (by simp [hro]), hsource]
    refine bind_eq_ok_iff.mpr ⟨region, mapError_eq_ok_iff.mpr (hwritable hro), ?_⟩
    exact bind_eq_ok_iff.mpr ⟨_, hitem, rfl⟩

theorem Pool.writableBytes_eq_ok {p : Pool} {b : Buffer} {region : List UInt8}
    (hb : p.get? id = some b) (hro : b.readOnly = false) (hbytes : p.bytes id = .ok region) :
    p.writableBytes id = .ok region := by
  rw [writableBytes, hb]
  simp [hro, hbytes]

/-! ### New views -/

/-- A view over a live buffer is made exactly if the buffer grants its rights and has all its
items. -/
theorem Memory.exists_viewOver_iff (owner : Option ItemId) (policy : ReleasePolicy) {b : Buffer}
    (hs : l.Sound) (hw : l.length < Word.modulus) (hd : l.isIndirect = false)
    (hb : m.pool.get? id = some b) (hlive : b.isReleased = false) (hn : (b.length : Int) ≤ maxSigned) :
    (∃ i m', m.viewOver l id owner policy = (.ok i, m')) ↔
      (b.readOnly = false ∨ l.readOnly = true) ∧ l.Inside b.length := by
  rw [← Region.checkExtent_eq_ok_iff hs hw hd hn]
  constructor
  · rintro ⟨i, m', hmade⟩
    obtain ⟨hcheck, -⟩ := viewOver_eq_ok_iff.mp hmade
    obtain ⟨b', hb', -, hrights, hextent⟩ := View.checkBuffer_eq_ok_iff.mp hcheck
    cases hb.symm.trans hb'
    exact ⟨hrights, hextent⟩
  · rintro ⟨hrights, hextent⟩
    have hcheck := View.checkBuffer_eq_ok_iff.mpr ⟨b, hb, hlive, hrights, hextent⟩
    obtain ⟨pool, hattach⟩ := exists_attach_of_checkBuffer hcheck
    exact ⟨_, _, viewOver_eq_ok_iff.mpr ⟨hcheck, pool, hattach, rfl⟩⟩

namespace Client

/-- Something holds every live buffer. -/
theorem Sound.hasBuffer {c : Client} {b : Buffer} (hs : c.Sound) (hb : c.pool.get? id = some b)
    (hlive : b.isReleased = false) : c.hasBuffer id = true := by
  obtain ⟨_, -, hsound⟩ := hs.balanced.pool.buffers.soundAt hb
  have hfate := hsound.fate
  rw [Buffer.Fate] at hfate
  cases hc : b.contents with
  | live source =>
    rw [hc] at hfate
    exact hasBuffer_iff.mpr ⟨b, hb, hfate.1⟩
  | tornDown cause => cases hlive.symm.trans (Buffer.isReleased_iff.mpr ⟨cause, hc⟩)

namespace Run

variable {ops : List Op}

/-- A view that was made stays the view of its layout over its buffer until it is released. -/
theorem exists_view_later {m' : Memory} (later : List Op)
    (hbuffer : (of ops).client.hasBuffer id = true) (howner : (of ops).client.hasOwner owner = true)
    (h : (of ops).client.memory.viewOver l id owner policy = (.ok i, m')) :
    ∃ v, (of (ops ++ .viewOver l id owner policy :: later)).client.memory.view? i = some v ∧
      v.layout = l ∧ (v.isReleased = false → v.source = .managed (some id)) := by
  obtain ⟨m₁, hlent, hview⟩ := Memory.exists_viewOver_lend h
  have hmade : (of (ops ++ [.viewOver l id owner policy])).client.memory = m₁ := by
    rw [of_append, List.foldl_cons, List.foldl_nil, extend, step_viewOver hbuffer howner, hlent]
    rfl
  have hcontinues := continues (ops ++ [.viewOver l id owner policy]) later
  rw [hmade, List.append_assoc, List.singleton_append] at hcontinues
  obtain ⟨v, hv, hcont⟩ := hcontinues i _ hview
  refine ⟨v, hv, hcont.layout, fun hlive => ?_⟩
  rcases hcont.source with hr | ⟨hsource, -⟩
  · cases hlive.symm.trans hr
  · exact hsource

/-- The check that a direct view over a live buffer passes is exact: the view is made just if the
buffer grants its rights and every item lies inside. And the check is enough: after whatever the
client does later, as long as the view is not released and its buffer can be read, every access that
keeps to the shape succeeds. -/
theorem viewOver_exact_and_safe {recipe : LayoutRecipe} {b : Buffer} (hl : recipe.build = .ok l)
    (hw : recipe.InWords) (hd : l.isIndirect = false)
    (hb : (of ops).client.pool.get? id = some b) (hlive : b.isReleased = false)
    (hn : (b.length : Int) ≤ maxSigned) (owner : Option ItemId) (policy : ReleasePolicy) :
    ((∃ i m', (of ops).client.memory.viewOver l id owner policy = (.ok i, m')) ↔
      (b.readOnly = false ∨ l.readOnly = true) ∧ l.Inside b.length) ∧
    ∀ i m' later, (of ops).client.memory.viewOver l id owner policy = (.ok i, m') →
      (of ops).client.hasOwner owner = true →
      let m := (of (ops ++ .viewOver l id owner policy :: later)).client.memory
      ∃ v, m.view? i = some v ∧ v.layout = l ∧
        (v.isReleased = false → (∃ region, m.pool.bytes id = .ok region) → v.Safe m.pool) := by
  have hs := recipe.sound hl
  have hiff := Memory.exists_viewOver_iff owner policy hs (recipe.length_lt hw hl) hd hb hlive hn
  refine ⟨hiff, fun i m' later hmade howner => ?_⟩
  obtain ⟨hrights, hin⟩ := hiff.mp ⟨i, m', hmade⟩
  obtain ⟨v, hv, rfl, hsource⟩ :=
    exists_view_later later ((sound ops).hasBuffer hb hlive) howner hmade
  obtain ⟨b', hb', hlength, hreadOnly⟩ := get?_later ops (.viewOver v.layout id owner policy :: later) hb
  refine ⟨v, hv, rfl, fun hunreleased ⟨region, hbytes⟩ => ?_⟩
  have hregion : region.length = b.length := by
    rw [← hlength]
    exact length_bytesOf (sound _).sized hb' hbytes
  refine View.safe_of_inside hs hd (hregion ▸ hn) (hregion ▸ hin) hunreleased (hsource hunreleased)
    hbytes fun hro => ?_
  have hwritable : b'.readOnly = false := by
    rw [hreadOnly]
    exact hrights.resolve_right (by simp [hro])
  exact Pool.writableBytes_eq_ok hb' hwritable hbytes

/-- A buffer of four bytes. -/
def fourBytes : List Op := [.ownStore [1, 2, 3, 4], .makeBuffer (.owned [1, 2, 3, 4]) none]

/-- The rows of a matrix from the last to the first, before and after all its bytes are replaced. -/
theorem viewOver_exact_and_safe_backwards :
    ∃ l i m', (LayoutRecipe.parts ⟨4, false, 1, "B", [2, 2], some [-2, 1], [], 2⟩).build = .ok l ∧
      (of fourBytes).client.memory.viewOver l 1 none .rejectWhileExported = (.ok i, m') ∧
      ∃ v, (of (fourBytes ++ [.viewOver l 1 none .rejectWhileExported,
          .writeBuffer 1 [5, 6, 7, 8]])).client.memory.view? i = some v ∧
        v.Safe (of (fourBytes ++ [.viewOver l 1 none .rejectWhileExported,
          .writeBuffer 1 [5, 6, 7, 8]])).client.pool := by
  have hl : (LayoutRecipe.parts ⟨4, false, 1, "B", [2, 2], some [-2, 1], [], 2⟩).build =
      .ok ⟨4, 1, .uint8, "B", [2, 2], [-2, 1], [], false, 2⟩ := by decide
  have hw : (LayoutRecipe.parts ⟨4, false, 1, "B", [2, 2], some [-2, 1], [], 2⟩).InWords := by
    unfold LayoutRecipe.InWords
    decide
  have hb : (of fourBytes).client.pool.get? 1 = some (.ofStore (.owned [1, 2, 3, 4]) none) := rfl
  refine ⟨_, 1, _, hl, rfl, ?_⟩
  obtain ⟨v, hv, -, hsafe⟩ := (viewOver_exact_and_safe hl hw rfl hb rfl (by decide) none
    .rejectWhileExported).2 1 _ [.writeBuffer 1 [5, 6, 7, 8]] rfl rfl
  refine ⟨v, hv, hsafe ?_ ⟨_, rfl⟩⟩
  cases Option.some.inj hv
  rfl

end Run

end Client

end StridedViews
