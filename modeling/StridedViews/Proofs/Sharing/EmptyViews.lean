import StridedViews.Proofs.Layout.Empty
import StridedViews.Proofs.Sharing.Suited
import StridedViews.Proofs.View.Bounds

/-!
Views of layouts without items. Where such a layout is direct, a view of it reads nothing from a region
that it suits, wherever its axes would lead. Where it is indirect, reading walks along the axes outside
of the empty one, and there it can fail though no item is asked for: it reads nothing just if the walk
finds every offset outside (`Client.Run.walk_and_read_of_empty`), and otherwise it fails as the walk
does (`Client.Run.empty_view_unreadable`).
-/

namespace StridedViews

open Word (maxSigned)

/-- Reading an indirect layout without items is walking along its outer axes. -/
theorem Region.gather_of_empty_indirect {l : Layout} {region : List UInt8} (hs : l.Sound)
    (hi : l.isIndirect = true) (hz : 0 ∈ l.shape) :
    gather l region = (l.outerOffsets (resolver region)).map fun _ => [] := by
  have hc : l.isRowContiguous = false := by
    have hi' : hasIndirection l.suboffsets = true := hi
    simp [Layout.isRowContiguous, isRowContiguous, hi']
  rw [gather, hc, if_neg Bool.false_ne_true, walk, Layout.visitItems_of_empty hs.strides_length hz]
  cases l.outerOffsets (resolver region) <;> rfl

namespace View

variable {p : Pool} {v : View} {region : List UInt8}

/-- A view reads from the bytes of its buffer, or from bytes of its own. -/
theorem cases_of_region (h : v.region p = .ok region) :
    (∃ id, v.buffer? = some id ∧ p.bytes id = .ok region) ∨ v.source = .aliased region := by
  obtain ⟨_, -, h⟩ := bind_eq_ok_iff.mp h
  cases hsource : v.source with
  | managed buffer =>
    rw [hsource] at h
    cases buffer with
    | none => cases h
    | some id => exact .inl ⟨id, by rw [buffer?, hsource], mapError_eq_ok_iff.mp h⟩
  | aliased bytes =>
    rw [hsource] at h
    cases h
    exact .inr rfl

/-- A layout stays inside the bytes that a view of it reads from. -/
theorem Suited.checkExtent_of_region (hv : v.Suited p) (hp : SizedBuffers p.buffers)
    (h : v.region p = .ok region) : Region.checkExtent v.layout region.length = .ok () := by
  rcases cases_of_region h with ⟨id, hid, hbytes⟩ | hsource
  · obtain ⟨b, hb, -, hextent⟩ := hv.managed id hid
    rwa [length_bytesOf hp hb hbytes]
  · exact (hv.aliased region hsource).2

end View

namespace Client.Run

/-- What a built layout with an empty axis does.
* The walk over it calls no visitor. It succeeds if its start is a word and the offset of every index
  of the axes before the first empty one is found, and otherwise it fails as the first of these does.
* It cannot fail, and follows no pointer, where these axes are direct and their hull holds words only,
  in particular where there are none.
* After any run, a view of it that is not released and whose bytes can be read reads nothing, if the
  layout is direct; if it is indirect, then just if that walk over its bytes succeeds. -/
theorem walk_and_read_of_empty {recipe : LayoutRecipe} {l : Layout} (hl : recipe.build = .ok l)
    (hz : 0 ∈ l.shape) :
    (∀ (ε σ : Type) (r : Resolver ε) (visit : Int → Visit ε σ Unit) (s : σ),
      (l.visitItems r visit).run.run s = ((l.outerOffsets r).map fun _ => (), s) ∧
      ((∃ offsets, l.outerOffsets r = .ok offsets) ↔
        (l.byteOffset : Int) ≤ maxSigned ∧ ∀ index, InShape index l.outerShape →
          ∃ place, r.offsetFrom 0 (outerAxes l.axes) index l.byteOffset = .ok place)) ∧
    (l.OuterInWords ∨ l.shape.head? = some 0 ∧ (l.byteOffset : Int) ≤ maxSigned →
      ∀ (ε σ : Type) (r : Resolver ε) (visit : Int → Visit ε σ Unit),
        l.visitItems r visit = pure ()) ∧
    ∀ ops i v region, (of ops).client.memory.view? i = some v → v.layout = l →
      v.region (of ops).client.pool = .ok region →
      v.read (of ops).client.pool =
        if l.isIndirect then (l.outerOffsets (Region.resolver region)).map fun _ => []
        else .ok [] := by
  have hs := recipe.sound hl
  refine ⟨fun ε σ r visit s => ⟨?_, Layout.exists_outerOffsets_iff r⟩, ?_, ?_⟩
  · rw [Layout.visitItems_of_empty hs.strides_length hz]
    rfl
  · rintro hwords ε σ r visit
    have houter : l.OuterInWords := by
      rcases hwords with houter | ⟨hhead, hstart⟩
      · exact houter
      · exact Layout.outerInWords_of_head hs.strides_length hhead hstart
    exact houter.visitItems hs.strides_length hz r visit
  · rintro ops i v region hv rfl hregion
    have hread : v.read (of ops).client.pool = Region.gather v.layout region :=
      bind_of_ok hregion
    rw [hread]
    cases hd : v.layout.isIndirect with
    | true => rw [if_pos rfl, Region.gather_of_empty_indirect hs hd hz]
    | false =>
      have hextent := (suited ops hv).checkExtent_of_region (sound ops).sized hregion
      obtain ⟨hstart, hword⟩ := (Region.checkExtent_of_empty_iff hd hz).mp hextent
      rw [if_neg Bool.false_ne_true, Region.gather_of_empty hs hd hz hstart hword]

/-- One row of no items behind a pointer, in a buffer of some bytes. -/
def emptyRowIn (bytes : List UInt8) : List Op :=
  [.ownStore bytes, .makeBuffer (.owned bytes) none,
    .viewOver ⟨0, 1, .uint8, "B", [1, 0], [1, 1], [0, -1], true, 0⟩ 1 none .bestEffort]

/-- The pointer lies in eight bytes, so it is followed and nothing is read behind it. -/
theorem walk_and_read_of_empty_behindPointer :
    ∃ v, (of (emptyRowIn [0, 0, 0, 0, 0, 0, 0, 0])).client.memory.view? 1 = some v ∧
      0 ∈ v.layout.shape ∧ v.layout.isIndirect = true ∧
      v.read (of (emptyRowIn [0, 0, 0, 0, 0, 0, 0, 0])).client.pool = .ok [] := by
  have hl : (LayoutRecipe.parts ⟨0, true, 1, "B", [1, 0], some [1, 1], [0, -1], 0⟩).build =
      .ok ⟨0, 1, .uint8, "B", [1, 0], [1, 1], [0, -1], true, 0⟩ := by decide
  have hread := (walk_and_read_of_empty hl (by decide)).2.2
    (emptyRowIn [0, 0, 0, 0, 0, 0, 0, 0]) 1 _ [0, 0, 0, 0, 0, 0, 0, 0] rfl rfl rfl
  exact ⟨_, rfl, by decide, rfl, hread⟩

/-- The pointer does not lie in one byte, so the walk fails, and so does reading the view, which is
not released and over a buffer that can be read. And a direct layout that has no items, and was
accepted for it, is walked along its outer axis until an offset is no word. -/
theorem empty_view_unreadable :
    (∃ v, (of (emptyRowIn [0])).client.memory.view? 1 = some v ∧
      (LayoutRecipe.parts ⟨0, true, 1, "B", [1, 0], some [1, 1], [0, -1], 0⟩).build =
        .ok v.layout ∧ v.isReleased = false ∧ 0 ∈ v.layout.shape ∧ v.layout.byteOffset = 0 ∧
      v.region (of (emptyRowIn [0])).client.pool = .ok [0] ∧
      (v.layout.visitItems (Region.resolver [0]) (Region.collect v.layout [0])).run.run [] =
        (.error (.outOfBounds 0 8 1), []) ∧
      v.read (of (emptyRowIn [0])).client.pool = .error (.outOfBounds 0 8 1)) ∧
    ∃ l, (LayoutRecipe.parts
        ⟨0, true, 1, "B", [3, 0], some [4611686018427387904, 1], [], 0⟩).build = .ok l ∧
      0 ∈ l.shape ∧ l.isIndirect = false ∧
      (l.visitItems (Region.resolver [0]) (Region.collect l [0])).run.run [] =
        (.error (.layout .lengthOverflow), []) := by
  refine ⟨⟨_, rfl, by decide, rfl, by decide, rfl, rfl, rfl, rfl⟩, ?_⟩
  exact ⟨⟨0, 1, .uint8, "B", [3, 0], [4611686018427387904, 1], [], true, 0⟩, by decide, by decide,
    rfl, rfl⟩

end Client.Run

end StridedViews
