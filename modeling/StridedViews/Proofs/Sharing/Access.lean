import StridedViews.Proofs.Sharing.Exports
import StridedViews.Proofs.Sharing.ReadOnly
import StridedViews.Proofs.Storage.Access

/-!
Access through exports. A buffer was made from at most one other, an older one (`Client.Run.eq_of_madeFrom`,
`Client.Run.lt_of_madeFrom`), so one way leads from it up through all that it comes from. Each buffer on
that way may be released while those below it are in use. An access by a function calls it once if none is
released, and otherwise fails with the released one that is nearest, before it gets to the function
(`Client.Run.access_through_exports`).
-/

namespace StridedViews

namespace Client.Run

variable {run : Run} {ops : List Op} {id n a c : BufferId} {b : Buffer}

/-! ### The way up -/

/-- A buffer was made from an older one. -/
theorem lt_of_madeFrom (h : (of ops).MadeFrom a n) : a < n := by
  obtain ⟨s, r, start, hmem, hsource⟩ := h
  obtain ⟨-, holder, -⟩ := fitsOn_of_made ops (made_mem_deeds_iff.mpr hmem)
  refine holder a .pin ?_
  rw [Store.holds, hsource]
  exact List.mem_singleton_self _

/-- A buffer was made from at most one other. -/
theorem eq_of_madeFrom (h : (of ops).MadeFrom a n) (h' : (of ops).MadeFrom c n) : a = c := by
  obtain ⟨s, r, start, hmem, hsource⟩ := h
  obtain ⟨s', r', start', hmem', hsource'⟩ := h'
  obtain ⟨-, -, b, hb, -⟩ := fitsOn_of_made ops (made_mem_deeds_iff.mpr hmem)
  obtain ⟨s₀, r₀, hstory⟩ := (told ops).present n b hb
  obtain ⟨rfl, -⟩ := hstory.only s r (made_mem_deeds_iff.mpr hmem)
  obtain ⟨rfl, -⟩ := hstory.only s' r' (made_mem_deeds_iff.mpr hmem')
  rw [hsource] at hsource'
  injection hsource'

theorem le_of_lineage (h : (of ops).Lineage a n) : a ≤ n := by
  induction h with
  | refl => exact le_rfl
  | tail _ hmade ih => exact ih.trans (lt_of_madeFrom hmade).le

/-- Of two buffers on the way up from a third one, one is above the other. -/
theorem lineage_total (ha : (of ops).Lineage a id) (hc : (of ops).Lineage c id) :
    (of ops).Lineage a c ∨ (of ops).Lineage c a := by
  have hunique : Relator.RightUnique (Function.swap (of ops).MadeFrom) :=
    fun _ _ _ h h' => eq_of_madeFrom h h'
  rcases Relation.ReflTransGen.total_of_right_unique hunique ha.swap hc.swap with h | h
  · exact .inr h.swap
  · exact .inl h.swap

/-- A buffer with bytes of its own was made from no other. -/
theorem not_madeFrom_of_root {r : Buffer} {source : Source} {bytes : List UInt8}
    (hr : (of ops).client.pool.Root n r source bytes) : ¬ (of ops).MadeFrom a n := by
  rintro ⟨s, r', start, hmem, hsource⟩
  obtain ⟨s₀, r₀, hstory⟩ := (told ops).present n r hr.made
  obtain ⟨rfl, -⟩ := hstory.only s r' (made_mem_deeds_iff.mpr hmem)
  have hcontents := hstory.contents
  have hbytes := hr.bytes
  rw [Buffer.isReleased, hr.live, hsource] at hcontents
  cases source <;> simp [Contents.outline, Source.outline, Source.bytes?] at hcontents hbytes

/-! ### Released buffers on it -/

/-- A buffer is torn down. -/
def Released (run : Run) (id : BufferId) : Prop :=
  ∃ b, run.client.pool.get? id = some b ∧ b.isReleased = true

/-- Neither a buffer nor any that it comes from is released. -/
def Intact (run : Run) (id : BufferId) : Prop := ∀ a, run.Lineage a id → ¬ run.Released a

/-- The released buffer that comes first on the way up from a buffer. -/
structure NearestReleased (run : Run) (id n : BufferId) : Prop where
  onTheWay : run.Lineage n id
  released : run.Released n
  nearest : ∀ a, run.Lineage n a → run.Lineage a id → a ≠ n → ¬ run.Released a

theorem not_released_of_live {source : Source} (hb : run.client.pool.get? id = some b)
    (hl : b.contents = .live source) : ¬ run.Released id := by
  rintro ⟨b', hb', hr⟩
  cases hb.symm.trans hb'
  rw [Buffer.isReleased, hl] at hr
  cases hr

/-- What a buffer comes from lies on a chain to it, all of which is live, or above the chain. -/
theorem above_or_live {start : Nat} (hc : (of ops).client.pool.Chain n id start)
    (ha : (of ops).Lineage a id) : (of ops).Lineage a n ∨ ¬ (of ops).Released a := by
  induction hc with
  | root => exact .inl ha
  | exported h hb hl ih =>
    rcases Relation.ReflTransGen.cases_tail ha with rfl | ⟨c, hac, hmade⟩
    · exact .inr (not_released_of_live hb hl)
    · -- the one way up from an exported buffer is to its parent, which is the next on the chain
      obtain rfl := eq_of_madeFrom hmade (madeFrom_of_exported hb hl)
      exact ih hac

/-- The buffers of a chain that starts at bytes are all that its last one comes from. -/
theorem intact_of_root {r : Buffer} {source : Source} {bytes : List UInt8} {start : Nat}
    (hr : (of ops).client.pool.Root n r source bytes) (hc : (of ops).client.pool.Chain n id start) :
    (of ops).Intact id := by
  intro a ha
  rcases above_or_live hc ha with habove | hlive
  · rcases Relation.ReflTransGen.cases_tail habove with rfl | ⟨c, -, hmade⟩
    · exact not_released_of_live hr.made hr.live
    · exact absurd hmade (not_madeFrom_of_root hr)
  · exact hlive

theorem nearestReleased_of_chain {q : Buffer} {start : Nat}
    (hc : (of ops).client.pool.Chain n id start) (hq : (of ops).client.pool.get? n = some q)
    (hr : q.isReleased = true) : (of ops).NearestReleased id n := by
  refine ⟨lineage_of_chain hc, ⟨q, hq, hr⟩, fun a hna ha hne => ?_⟩
  rcases above_or_live hc ha with habove | hlive
  · -- a lineage never gets newer on the way up, so that it does not come back to the released buffer
    exact absurd (Nat.le_antisymm (le_of_lineage habove) (le_of_lineage hna)) hne
  · exact hlive

/-- There is at most one nearest. -/
theorem NearestReleased.eq (h : (of ops).NearestReleased id n) (h' : (of ops).NearestReleased id a) :
    a = n := by
  by_contra hne
  rcases lineage_total h.onTheWay h'.onTheWay with hna | han
  · exact h.nearest a hna h'.onTheWay hne h'.released
  · exact h'.nearest n han h.onTheWay (Ne.symm hne) h.released

/-! ### Access -/

/-- The bytes of a buffer can be read just if it is intact, and otherwise the nearest released buffer
keeps them from it. -/
theorem bytes_cases (ops : List Op) (hb : (of ops).client.pool.get? id = some b) :
    ((of ops).Intact id ∧ ∃ seen, (of ops).client.pool.bytes id = .ok seen) ∨
      ∃ n, (of ops).NearestReleased id n ∧ (of ops).client.pool.bytes id = .error (.released n) := by
  have hs := (sound ops).sized
  rcases Pool.chain_cases hs hb with
    ⟨root, r, source, bytes, start, hr, hc⟩ | ⟨n, q, start, hc, hq, hreleased⟩
  · exact .inl ⟨intact_of_root hr hc, _, hc.bytes_eq hs hr hb⟩
  · exact .inr ⟨n, nearestReleased_of_chain hc hq hreleased, hc.bytes_of_isReleased hs hq hreleased⟩

theorem intact_iff (hb : (of ops).client.pool.get? id = some b) :
    (of ops).Intact id ↔ ∃ seen, (of ops).client.pool.bytes id = .ok seen := by
  rcases bytes_cases ops hb with ⟨hintact, hbytes⟩ | ⟨n, hn, herror⟩
  · exact iff_of_true hintact hbytes
  · refine iff_of_false (fun h => h n hn.onTheWay hn.released) ?_
    rintro ⟨seen, hseen⟩
    cases herror.symm.trans hseen

theorem bytes_of_nearestReleased (hb : (of ops).client.pool.get? id = some b)
    (hn : (of ops).NearestReleased id n) : (of ops).client.pool.bytes id = .error (.released n) := by
  rcases bytes_cases ops hb with ⟨hintact, -⟩ | ⟨n', hn', herror⟩
  · exact absurd hn.released (hintact n hn.onTheWay)
  · rw [herror, hn.eq hn']

theorem existsUnique_nearestReleased (hb : (of ops).client.pool.get? id = some b)
    (h : ¬ (of ops).Intact id) : ∃! n, (of ops).NearestReleased id n := by
  rcases bytes_cases ops hb with ⟨hintact, -⟩ | ⟨n, hn, -⟩
  · exact absurd hintact h
  · exact ⟨n, hn, fun _ hn' => hn.eq hn'⟩

/-- After any run, a function that is to work on the bytes of a buffer is called once if neither the
buffer nor any that it comes from is released, and what it gives is given back. Otherwise one released
buffer is the nearest on the way up; the access fails with it, and the function is not called. A function
that changes bytes fares alike if the buffer may be written, and if it may not, then that comes before
anything else. -/
theorem access_through_exports (ops : List Op) (hb : (of ops).client.pool.get? id = some b) :
    ((of ops).Intact id ↔ ∃ seen, (of ops).client.pool.bytes id = .ok seen ∧
      (of ops).client.pool.AccessRuns id seen) ∧
    (¬ (of ops).Intact id → ∃! n, (of ops).NearestReleased id n) ∧
    (∀ n, (of ops).NearestReleased id n →
      (of ops).client.pool.bytes id = .error (.released n) ∧
        (of ops).client.pool.AccessFails id (.released n)) ∧
    (b.readOnly = false →
      ((of ops).Intact id ↔ ∃ seen, (of ops).client.pool.writableBytes id = .ok seen ∧
        (of ops).client.pool.EditRuns id seen) ∧
      ∀ n, (of ops).NearestReleased id n →
        (of ops).client.pool.writableBytes id = .error (.released n) ∧
          (of ops).client.pool.EditFails id (.released n)) ∧
    (b.readOnly = true →
      (of ops).client.pool.writableBytes id = .error (.readOnly id) ∧
        (of ops).client.pool.EditFails id (.readOnly id)) := by
  have hs := (sound ops).sized
  refine ⟨?_, existsUnique_nearestReleased hb, fun n hn => ?_, fun hro => ⟨?_, fun n hn => ?_⟩,
    fun hro => ⟨Pool.writableBytes_of_readOnly hb hro, Pool.editFails_of_readOnly hb hro⟩⟩
  · rw [intact_iff hb]
    exact exists_congr fun seen =>
      (and_iff_left_of_imp fun h => Pool.accessRuns_of_bytes hs h).symm
  · have herror := bytes_of_nearestReleased hb hn
    exact ⟨herror, Pool.accessFails_of_bytes hs herror⟩
  · rw [intact_iff hb, Pool.writableBytes_of_writable hb hro]
    exact exists_congr fun seen =>
      (and_iff_left_of_imp fun h => Pool.editRuns_of_bytes hs hb hro h).symm
  · have herror := bytes_of_nearestReleased hb hn
    exact ⟨(Pool.writableBytes_of_writable hb hro).trans herror,
      Pool.editFails_of_bytes hs hb hro herror⟩

/-- Counts its calls, and gives the number of bytes. -/
def countCall (bytes : List UInt8) : StateM Nat Nat := do
  modify (· + 1)
  return bytes.length

/-- The run of nested exports, and then the two buffers that the last one comes from are released. -/
def releasedAbove : List Op := nestedExports ++ [.releaseBuffer 1, .releaseBuffer 2]

/-- A buffer that was exported twice over is read by one call. With the two above it released, it is the
nearer one that keeps the function from being called. -/
theorem access_through_exports_nested :
    ((of nestedExports).client.pool.access 3 countCall).run 0 = (.ok 2, 1) ∧
      ((of releasedAbove).client.pool.access 3 countCall).run 0 =
        (.error (.error (.released 2)), 0) := by
  have hr : (of nestedExports).client.pool.Root 1 _ (.owned [1, 2, 3, 4]) [1, 2, 3, 4] :=
    ⟨rfl, rfl, rfl⟩
  have hfirst : (of nestedExports).client.pool.Chain 1 2 (0 + 1) := .exported .root rfl rfl
  have hintact : (of nestedExports).Intact 3 := intact_of_root hr (.exported hfirst rfl rfl)
  have hnearest : (of releasedAbove).NearestReleased 3 2 :=
    nearestReleased_of_chain (.exported .root rfl rfl) rfl rfl
  have hb : (of nestedExports).client.pool.get? 3 = some _ := rfl
  have hb' : (of releasedAbove).client.pool.get? 3 = some _ := rfl
  obtain ⟨hruns, -⟩ := access_through_exports nestedExports hb
  obtain ⟨-, -, hfails, -⟩ := access_through_exports releasedAbove hb'
  obtain ⟨seen, hseen, hcalls⟩ := hruns.mp hintact
  obtain rfl : [3, 4] = seen := by
    cases hseen
    rfl
  exact ⟨hcalls Nat Nat countCall 0, (hfails 2 hnearest).2 Nat Nat countCall 0⟩

end Client.Run

end StridedViews
