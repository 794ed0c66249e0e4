import StridedViews.Proofs.Sharing.Order
import StridedViews.Proofs.Sharing.Run

/-!
Closing handles in any order. A row of closing operations comes to one marking of views followed by
giving up all holds together (`Client.exists_memory_after`), so its order matters neither to the
buffers nor to the books (`Client.Run.closed_in_any_order`).
-/

namespace StridedViews

namespace Client

variable {c : Client} {op : Op}

/-- All operations of a row find what they work on when their turn comes. -/
def Allows (c : Client) : List Op → Prop
  | [] => True
  | op :: rest => (c.step op).1 ≠ .refused ∧ (c.step op).2.Allows rest

/-- A client after a row of operations. -/
def after (c : Client) (ops : List Op) : Client := ops.foldl (fun c op => (c.step op).2) c

theorem of_given_ne_refused {there : Bool} {act : Outcome × Client}
    (h : (c.given there act).1 ≠ .refused) : there = true ∧ c.given there act = act := by
  rw [given] at h ⊢
  split at h
  · next ht => exact ⟨ht, if_pos ht⟩
  · exact absurd rfl h

/-- Releasing a view whose policy allows it at any time marks it and gives up its holds. -/
theorem release_of_bestEffort {m : Memory} {i : ItemId} {v : View} (hv : m.view? i = some v)
    (hp : v.policy = .bestEffort) :
    ∃ released, m.release i v =
      .ok (released, (m.alterView i View.closed).giveUp v.closing) := by
  rw [Memory.release]
  cases hr : v.isReleased with
  | true =>
    have hself : m.alterView i View.closed = m := Memory.alterView_eq_self fun w hw => by
      cases hv.symm.trans hw
      exact if_pos hr
    refine ⟨false, ?_⟩
    rw [if_pos rfl, hself, View.closing, if_pos hr, Memory.giveUp_nil]
  | false =>
    have hcheck : v.checkReleasable = .ok () := if_neg fun hstrict => by
      cases hp.symm.trans hstrict.1
    have hclosed : v.closed = v.released := if_neg (by simp [hr])
    refine ⟨true, ?_⟩
    rw [if_neg Bool.false_ne_true, hcheck, View.closing, if_neg (by simp [hr]),
      ← Memory.setView_eq_alterView hv, hclosed]
    rfl

/-- A closing operation marks what it closes and gives up its holds. -/
theorem memory_step_of_closes (hc : c.memory.Closes op) (h : (c.step op).1 ≠ .refused) :
    (c.step op).2.memory = (c.memory.mark op).giveUp (c.memory.yield op) ∧
      ∀ i, op = .releaseView i → c.memory.Living i := by
  cases op with
  | drop g =>
    obtain ⟨-, hstep⟩ := of_given_ne_refused h
    refine ⟨?_, fun _ hrelease => by cases hrelease⟩
    rw [step, hstep, ← Memory.unexport_eq_mark]
    rfl
  | detach id =>
    obtain ⟨-, hstep⟩ := of_given_ne_refused h
    refine ⟨?_, fun _ hrelease => by cases hrelease⟩
    rw [step, hstep]
    rfl
  | releaseView i =>
    rw [step, onView] at h ⊢
    cases hv : c.memory.view? i with
    | none =>
      rw [hv] at h
      exact absurd rfl h
    | some v =>
      rw [hv] at h
      obtain ⟨hi, hstep⟩ := of_given_ne_refused h
      obtain ⟨released, hrelease⟩ := release_of_bestEffort hv (hc v hv)
      refine ⟨?_, fun j hj => ?_⟩
      · dsimp only
        rw [hstep, hrelease, Memory.yield, hv]
        rfl
      · cases hj
        exact hasItem_iff.mp hi
  | _ => exact hc.elim

/-- A row of closing operations marks all that it closes, and gives up all holds together. -/
theorem exists_memory_after {closings : List Op} {m : Memory} {holds : List Hold}
    (hm : c.memory = m.giveUp holds) (hc : ∀ op ∈ closings, c.memory.Closes op)
    (h : c.Allows closings) :
    ∃ given : List Hold, (given : Multiset Hold) = (closings.foldl Memory.collect (m, ↑holds)).2 ∧
      (c.after closings).memory =
        (closings.foldl Memory.collect (m, ↑holds)).1.giveUp given := by
  induction closings generalizing c m holds with
  | nil => exact ⟨holds, rfl, hm⟩
  | cons op rest ih =>
    obtain ⟨hop, hrest⟩ := List.forall_mem_cons.mp hc
    obtain ⟨hallowed, hlater⟩ := h
    obtain ⟨hstep, hliving⟩ := memory_step_of_closes hop hallowed
    have hmemory : (c.step op).2.memory = (m.mark op).giveUp (holds ++ m.yield op) := by
      rw [hm] at hliving
      rw [hstep, hm, Memory.mark_giveUp hliving, Memory.yield_giveUp, Memory.giveUp_append]
    have hcloses : ∀ op' ∈ rest, (c.step op).2.memory.Closes op' := by
      intro op' hmem
      rw [hstep, Memory.closes_giveUp]
      exact (hrest op' hmem).mark op
    have hcollect : Memory.collect (m, ↑holds) op = (m.mark op, ↑(holds ++ m.yield op)) := by
      rw [Memory.collect, ← Multiset.coe_add]
    rw [List.foldl_cons, hcollect]
    exact ih hmemory hcloses hlater

theorem Sound.viewed (hs : c.Sound) : ∀ b ∈ c.pool.buffers, b.Viewed := by
  intro b hb
  obtain ⟨id, hget⟩ := Numbered.mem_iff_get?.mp hb
  obtain ⟨_, -, hsound⟩ := hs.balanced.pool.buffers.soundAt hget
  exact hsound.viewed

/-- Closing operations leave the same buffers and the same books in any order in which the client can
do them. -/
theorem after_perm {closings closings' : List Op} (hs : c.Sound) (hperm : closings.Perm closings')
    (hc : ∀ op ∈ closings, c.memory.Closes op) (h : c.Allows closings) (h' : c.Allows closings') :
    (c.after closings).pool.buffers = (c.after closings').pool.buffers ∧
      (c.after closings).pool.registries = (c.after closings').pool.registries := by
  have hm : c.memory = c.memory.giveUp [] := c.memory.giveUp_nil.symm
  obtain ⟨given, hgiven, hmemory⟩ := exists_memory_after hm hc h
  obtain ⟨given', hgiven', hmemory'⟩ :=
    exists_memory_after hm (fun op hop => hc op (hperm.mem_iff.mpr hop)) h'
  have hcollect := hperm.foldl_eq (f := Memory.collect) (c.memory, ↑([] : List Hold))
  have hholds : given.Perm given' := by
    rw [← Multiset.coe_eq_coe, hgiven, hgiven', hcollect]
  rw [pool, pool, hmemory, hmemory', ← hcollect]
  refine Memory.giveUp_perm ?_ hholds
  rw [Memory.pool_collect]
  exact hs.viewed

namespace Run

theorem client_of_append (ops later : List Op) :
    (of (ops ++ later)).client = (of ops).client.after later := by
  rw [of_append]
  generalize of ops = run
  induction later generalizing run with
  | nil => rfl
  | cons op rest ih => exact ih (run.extend op)

/-- After any run, some closing operations are done in two orders, in each of which every operation
finds what it works on. Both leave the same buffers, with the same counts, and released for the same
causes, and the same books in every registry. -/
theorem closed_in_any_order {ops closings closings' : List Op} (hperm : closings.Perm closings')
    (hc : ∀ op ∈ closings, (of ops).client.memory.Closes op)
    (h : (of ops).client.Allows closings) (h' : (of ops).client.Allows closings') :
    (of (ops ++ closings)).client.pool.buffers = (of (ops ++ closings')).client.pool.buffers ∧
      (of (ops ++ closings)).client.pool.registries =
        (of (ops ++ closings')).client.pool.registries := by
  rw [client_of_append, client_of_append]
  exact after_perm (sound ops) hperm hc h h'

/-- A buffer with a reference, and one exported from it with an exported view. -/
def viewedChain : List Op :=
  [.makeRegistry, .ownStore [1, 2], .makeBuffer (.owned [1, 2]) (some 0), .attach 1,
    .exportStore 1 0 1, .makeBuffer ⟨.exported 1 0, 1, false⟩ (some 0),
    .viewOver ⟨1, 1, .uint8, "B", [1], [1], [], false, 0⟩ 2 none .bestEffort, .acquire 1]

/-- Closes all of it but the handle of the view. -/
def closeChain : List Op :=
  [.detach 1, .releaseView 1, .drop (.guard 1 (some 2)), .drop (.buffer 2), .drop (.buffer 1)]

/-- From the front the end of the export releases both buffers, from the back one reference after the
other does. -/
theorem closed_in_any_order_viewedChain :
    (of (viewedChain ++ closeChain)).client.pool.buffers =
        (of (viewedChain ++ closeChain.reverse)).client.pool.buffers ∧
      (of (viewedChain ++ closeChain)).client.pool.registries =
        (of (viewedChain ++ closeChain.reverse)).client.pool.registries ∧
      ((of (viewedChain ++ closeChain)).client.pool.registry 0).stats.deferredReleases = 2 := by
  have hc : ∀ op ∈ closeChain, (of viewedChain).client.memory.Closes op := by
    have hpolicy : (of viewedChain).client.memory.Closes (.releaseView 1) := by
      intro v hv
      cases hv
      rfl
    simpa [closeChain, Memory.Closes] using hpolicy
  have h : (of viewedChain).client.Allows closeChain := by
    refine ⟨?_, ?_, ?_, ?_, ?_, trivial⟩ <;> intro hrefused <;> cases hrefused
  have h' : (of viewedChain).client.Allows closeChain.reverse := by
    refine ⟨?_, ?_, ?_, ?_, ?_, trivial⟩ <;> intro hrefused <;> cases hrefused
  obtain ⟨hbuffers, hregistries⟩ := closed_in_any_order (List.reverse_perm closeChain).symm hc h h'
  exact ⟨hbuffers, hregistries, rfl⟩

end Run

end Client

end StridedViews
