import StridedViews.Proofs.Host.Run
import StridedViews.Proofs.View.Filling

/-!
Views of objects. What a host makes of an object is a copy of the bytes that the object has then, whatever
they are read from. It shares no bytes with anything, so that it reads the same until it is released; and
as long it upholds the object and all that hangs on that, down to the buffers of the views behind it
(`Guest.Run.object_view_is_stable_snapshot`).
-/

namespace StridedViews

/-- A view that was made of the bytes of an object, as a later memory has it. -/
structure Snapshot (made now : Memory) (k i : ItemId) (bytes : List UInt8) (v : View) : Prop where
  view : now.view? k = some v
  layout : v.layout = Layout.bytes bytes.length true
  contiguous : v.layout.isRowContiguous = true
  read : v.isReleased = false → v.read now.pool = .ok bytes
  owner : v.isReleased = false → v.owner = some i
  upholds : v.isReleased = false → now.Living k → ∀ a, made.Chain now i a → made.Upheld now a

/-- A view of bytes of its own reads as these bytes. -/
theorem View.read_of_aliased {v : View} {bytes : List UInt8} (hlive : v.isReleased = false)
    (hsource : v.source = .aliased bytes) (hlayout : v.layout.Filling)
    (hlength : bytes.length = v.layout.length) (p : Pool) : v.read p = .ok bytes := by
  have hregion : v.region p = .ok bytes := by
    rw [region, checkReleased_eq_ok_iff.mpr hlive, hsource]
    rfl
  rw [read, hregion]
  exact hlayout.gather hlength

theorem Client.Sound.snapshot {c : Client} {m : Memory} {i k : ItemId} {bytes : List UInt8}
    {policy : ReleasePolicy} {flags : ViewFlags} (hc : c.Sound) (hkeeps : m.Keeps c.memory)
    (hview : m.view? k =
      some (.fresh (Layout.bytes bytes.length true) (.aliased bytes) (some i) policy flags)) :
    ∃ v, Snapshot m c.memory k i bytes v := by
  obtain ⟨v, hv, hlayout, hsame⟩ := hkeeps.view k _ hview
  have hfilling := Layout.filling_bytes bytes.length true
  refine ⟨v, hv, hlayout, ?_, fun hlive => ?_, fun hlive => (hsame hlive).2.2, ?_⟩
  · rw [hlayout]
    exact hfilling.contiguous
  · exact View.read_of_aliased hlive (hsame hlive).2.1 (hlayout ▸ hfilling) (hlayout ▸ rfl) _
  · intro hlive hliving a ha
    have hhead : m.HoldsOn c.memory k i := by
      refine ⟨Memory.mentions_of_owner hview rfl, fun w hw => ?_⟩
      cases hv.symm.trans hw
      exact hlive
    exact hc.upheld hkeeps hliving (.head hhead ha)

namespace Guest

variable {σ : Type} {g : Guest σ} {i k : ItemId} {o : HostObject}

/-- A view that a guest is given of an object is one of the bytes that the object has. -/
theorem view_of_ofObject {raise : RaiseHandler σ}
    (h : (g.step raise (.make (.ofObject i o))).1 = .view k) :
    ∃ source bytes, o.bytes = some source ∧ g.host.memory.bytesOf source = .ok bytes ∧
      (g.step raise (.make (.ofObject i o))).2.host.memory.object? i = some o ∧
      ∃ policy flags, (g.step raise (.make (.ofObject i o))).2.host.memory.view? k =
        some (.fresh (Layout.bytes bytes.length true) (.aliased bytes) (some i) policy flags) := by
  rw [step] at h ⊢
  split at h
  · next hthere =>
    rw [if_pos hthere]
    obtain ⟨-, ho⟩ := (Bool.and_eq_true _ _).mp hthere
    rcases hmade : g.host.viewOfObject i o with ⟨e | j, host'⟩
    all_goals
      have hmake : (g.host.lend (Host.Making.ofObject i o).owner).make (.ofObject i o) = _ := hmade
      rw [make, hmake] at h ⊢
      cases h
    obtain ⟨source, bytes, hsource, hbytes, haliased⟩ := Host.viewOfObject_eq_ok hmade
    obtain ⟨-, m, hview, rfl⟩ := Host.viewAliased_eq_ok_iff.mp haliased
    obtain ⟨-, hadd⟩ := Memory.newView_lend_eq_ok_iff.mp hview
    obtain ⟨rfl, rfl⟩ := Prod.mk.inj hadd
    refine ⟨source, bytes, hsource, hbytes, ?_, _, _, Memory.view?_add_self ..⟩
    exact (g.host.memory.keepsThings_add _).keepsObject (of_decide_eq_true ho)
  · cases h

namespace Run

variable {config : Config} {host : Host}

/-- At any time, a view that is made of an object is flat, read-only and contiguous, with the bytes that
the object has then. Whatever is done later, the view is still that, and until it is released it reads as
these bytes and keeps the object, with everything that hangs on it. -/
theorem object_view_is_stable_snapshot (raise : RaiseHandler σ) (hhost : Host.create config = .ok host)
    (raiser : σ) (ops : List Op)
    (hmade : ((of raise host raiser ops).guest.step raise (.make (.ofObject i o))).1 = .view k) :
    ∃ source bytes, o.bytes = some source ∧
      (of raise host raiser ops).memory.bytesOf source = .ok bytes ∧
      (of raise host raiser (ops ++ [.make (.ofObject i o)])).memory.object? i = some o ∧
      ∀ later, ∃ v,
        Snapshot (of raise host raiser (ops ++ [.make (.ofObject i o)])).memory
          (of raise host raiser (ops ++ [.make (.ofObject i o)] ++ later)).memory k i bytes v ∧
        (v.isReleased = false → ∀ raiser', ∃ host',
          (Host.read raise (of raise host raiser
            (ops ++ [.make (.ofObject i o)] ++ later)).guest.host v).run raiser' =
              ((.ok bytes, host'), raiser')) := by
  obtain ⟨source, bytes, hsource, hbytes, hobject, policy, flags, hview⟩ := view_of_ofObject hmade
  rw [of_concat]
  refine ⟨source, bytes, hsource, hbytes, hobject, fun later => ?_⟩
  have hkeeps := keeps raise hhost raiser (ops ++ [.make (.ofObject i o)]) later
  rw [of_concat] at hkeeps
  obtain ⟨v, hsnapshot⟩ := (ready hhost _).sound.snapshot hkeeps hview
  exact ⟨v, hsnapshot, fun hlive raiser' => ⟨_, Host.read_of_read raise raiser' hlive
    (hsnapshot.read hlive)⟩⟩

/-- A view, a view of it as an object, and one of that view as an object. -/
def viewOfView : List Op :=
  [.make (.allocate "B" [2]), .own (.makeObject (.ofView 1)), .make (.ofObject 2 (.ofView 1)),
    .own (.makeObject (.ofView 3)), .make (.ofObject 4 (.ofView 3))]

/-- Then the first view is written to, and all is let go of but the last view. -/
def writtenAndDropped : List Op :=
  [.own (.writeItem 1 [0] [7]), .own (.drop (.view 1)), .own (.drop (.object 2)),
    .own (.drop (.view 3)), .own (.drop (.object 4))]

/-- The last view has the old bytes. It keeps the first one, which has the new bytes. -/
theorem object_view_is_stable_snapshot_viewOfView :
    ∃ v first, Snapshot (standard viewOfView).memory
        (standard (viewOfView ++ writtenAndDropped)).memory 5 4 [0, 0] v ∧
      v.isReleased = false ∧
      (standard (viewOfView ++ writtenAndDropped)).memory.view? 1 = some first ∧
      first.read (standard (viewOfView ++ writtenAndDropped)).memory.pool = .ok [7, 0] ∧
      (standard viewOfView).memory.Upheld (standard (viewOfView ++ writtenAndDropped)).memory 1 := by
  have hhost : Host.create {} = .ok .standard := rfl
  have hmade : ((standard (viewOfView.take 4)).guest.step RaiseHandler.plain
    (.make (.ofObject 4 (.ofView 3)))).1 = .view 5 := rfl
  obtain ⟨source, bytes, hsource, hbytes, -, hlater⟩ :=
    object_view_is_stable_snapshot RaiseHandler.plain hhost () _ hmade
  obtain rfl : source = .view 3 := (Option.some.inj hsource).symm
  have hread : (standard (viewOfView.take 4)).memory.bytesOf (.view 3) = .ok [0, 0] := rfl
  obtain rfl : [0, 0] = bytes := Except.ok.inj (hread.symm.trans hbytes)
  obtain ⟨v, hsnapshot, -⟩ := hlater writtenAndDropped
  have hlive : v.isReleased = false := by
    have hv := hsnapshot.view
    cases hv
    rfl
  -- the last view was made of the object 4, which holds the view 3, made of the object 2, and so on
  have hobject : Memory.HoldsOn (standard viewOfView).memory
      (standard (viewOfView ++ writtenAndDropped)).memory 4 3 :=
    ⟨⟨_, rfl, by decide⟩, fun w hw => nomatch hw⟩
  have hview : Memory.HoldsOn (standard viewOfView).memory
      (standard (viewOfView ++ writtenAndDropped)).memory 3 2 :=
    ⟨⟨_, rfl, by decide⟩, fun w hw => by cases hw; rfl⟩
  have hobject' : Memory.HoldsOn (standard viewOfView).memory
      (standard (viewOfView ++ writtenAndDropped)).memory 2 1 :=
    ⟨⟨_, rfl, by decide⟩, fun w hw => nomatch hw⟩
  have hchain := ((Relation.ReflTransGen.single hobject).tail hview).tail hobject'
  exact ⟨v, _, hsnapshot, hlive, rfl, rfl, hsnapshot.upholds hlive ⟨_, rfl, by decide⟩ 1 hchain⟩

end Run

end Guest

end StridedViews
