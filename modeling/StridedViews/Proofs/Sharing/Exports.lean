import StridedViews.Proofs.Sharing.Run
import StridedViews.Proofs.Storage.Windows

/-!
Exports alias their root. However a client made a chain of exports, its last buffer is one window of
the bytes at the root: it reads just these, and what it writes is all that changes
(`Client.Run.exports_alias_root`).
-/

namespace StridedViews

namespace Client.Run

/-- After any run, the last buffer of a chain of exports shows its window of the bytes at the root, and
no slice on the way there is out of range. A change made through a writable one is spliced into the
bytes at the root and changes nothing else; whatever is exported from the root shows its own window of
them afterwards. -/
theorem exports_alias_root {ops : List Op} {root id : BufferId} {start : Nat} {r b : Buffer}
    {source : Source} {bytes : List UInt8} (hr : (of ops).client.pool.Root root r source bytes)
    (hc : (of ops).client.pool.Chain root id start) (hb : (of ops).client.pool.get? id = some b) :
    let p := (of ops).client.pool
    let seen := window bytes start b.length
    start + b.length ≤ bytes.length ∧ p.Shows id seen ∧
    (b.readOnly = false →
      ∀ (α : Type) (f : List UInt8 → α × List UInt8), (∀ w, (f w).2.length = w.length) →
        let p' := p.rewrite root source (splice bytes start (f seen).2)
        p.withBytesMut id f = .ok ((f seen).1, p') ∧ p.overwrite id (f seen).2 = p' ∧
        ∀ id' start' b', p.Chain root id' start' → p.get? id' = some b' →
          p'.Shows id' (window (splice bytes start (f seen).2) start' b'.length)) := by
  intro p seen
  have hs : SizedBuffers p.buffers := (sound ops).sized
  obtain ⟨hin, -⟩ := hc.fits hs hr hb
  have hseen : p.bytes id = .ok seen := hc.bytes_eq hs hr hb
  refine ⟨hin, Pool.shows_of_bytes hs hseen, fun hro α f hf => ?_⟩
  have hover := hc.overwrite_eq hs hr (f seen).2
  refine ⟨?_, hover, fun id' start' b' hc' hb' => hc'.shows_rewrite hs hr hb' ?_⟩
  · rw [Pool.withBytesMut_eq hs hb hro hseen hf, hover]
  · refine length_splice ?_
    rw [hf, length_window hin]
    omega

/-- Four bytes, the last three of them exported, the middle two of these exported again, and the first
three exported beside them. -/
def nestedExports : List Op :=
  [.ownStore [1, 2, 3, 4], .makeBuffer (.owned [1, 2, 3, 4]) none,
    .exportStore 1 1 4, .makeBuffer ⟨.exported 1 1, 3, false⟩ none,
    .exportStore 2 1 3, .makeBuffer ⟨.exported 2 1, 2, false⟩ none,
    .exportStore 1 0 3, .makeBuffer ⟨.exported 1 0, 3, false⟩ none]

/-- Two bytes written through two exports change one of the three bytes beside them. -/
theorem exports_alias_root_nested :
    (of nestedExports).client.pool.Shows 3 [3, 4] ∧
      ∃ p', (of nestedExports).client.pool.withBytesMut 3 (fun w => (w.length, w.map (· + 5))) =
          .ok (2, p') ∧ p'.Shows 1 [1, 2, 8, 9] ∧ p'.Shows 4 [1, 2, 8] := by
  have hr : (of nestedExports).client.pool.Root 1 _ (.owned [1, 2, 3, 4]) [1, 2, 3, 4] :=
    ⟨rfl, rfl, rfl⟩
  have hfirst : (of nestedExports).client.pool.Chain 1 2 (0 + 1) := .exported .root rfl rfl
  have hc : (of nestedExports).client.pool.Chain 1 3 (0 + 1 + 1) := .exported hfirst rfl rfl
  have hbeside : (of nestedExports).client.pool.Chain 1 4 (0 + 0) := .exported .root rfl rfl
  obtain ⟨-, hshows, hwrite⟩ := exports_alias_root hr hc rfl
  obtain ⟨hmut, -, hothers⟩ := hwrite rfl Nat (fun w => (w.length, w.map (· + 5)))
    fun w => List.length_map ..
  exact ⟨hshows, _, hmut, hothers 1 0 _ .root rfl, hothers 4 0 _ hbeside rfl⟩

end Client.Run

end StridedViews
