import StridedViews.Proofs.Sharing.Lending
import StridedViews.Proofs.Storage.Sizes

/-!
What the operations of a client do. Whatever an operation is asked and however it ends, its memory
makes a row of moves with the deed that the outcome tells, and its stores still fit
(`Client.steps_step`).
-/

namespace StridedViews

namespace Client

variable {c : Client} {op : Op} {h : Handle} {s : Store} {i : ItemId} {id : BufferId}

/-- What an operation can do to a client: its memory makes a row of moves with the deed of the
operation, new stores fit, and buffers are made over loose stores only. -/
structure Steps (c : Client) (op : Op) (r : Outcome × Client) : Prop where
  moves : Moves (op.deed r.1) c.memory c.holds r.2.memory r.2.holds
  stores : ∀ s ∈ r.2.stores, s ∈ c.stores ∨ s.FitsOn c.pool.buffers
  made : ∀ id s r', op.deed r.1 = some (.made id s r') → s ∈ c.stores

/-- An operation without a deed that leaves the stores as they are. -/
theorem Steps.of_moves {o : Outcome} {c' : Client} (hd : op.deed o = none) (hs : c'.stores = c.stores)
    (h : Moves none c.memory c.holds c'.memory c'.holds) : c.Steps op (o, c') where
  moves := by rw [hd]; exact h
  stores _ hmem := .inl (hs ▸ hmem)
  made _ _ _ h := by rw [hd] at h; cases h

theorem steps_given {there : Bool} {act : Outcome × Client} (h : there = true → c.Steps op act) :
    c.Steps op (c.given there act) := by
  rw [given]
  split
  · next ht => exact h ht
  · exact .of_moves (by cases op <;> rfl) rfl .none

theorem steps_attempt {ε : Type} {onError : ε → ViewError} {x : Except ε (Outcome × Client)}
    (h : ∀ r, x = .ok r → c.Steps op r) : c.Steps op (c.attempt onError x) := by
  cases x with
  | ok r => exact h r rfl
  | error e => exact .of_moves (by cases op <;> rfl) rfl .none

theorem hasItem_iff : c.hasItem i = true ↔ c.memory.Living i := by
  rw [hasItem, Option.any_eq_true]
  simp [Memory.Living]

theorem hasBuffer_iff : c.hasBuffer id = true ↔ ∃ b, c.pool.get? id = some b ∧ b.isHeld = true := by
  rw [hasBuffer, Option.any_eq_true]

theorem bytes_of_writableBytes {p : Pool} {bytes : List UInt8}
    (h : p.writableBytes id = .ok bytes) : p.bytes id = .ok bytes := by
  rw [Pool.writableBytes] at h
  split at h
  · cases h
  · split at h
    · cases h
    · exact h

theorem steps_onView {act : View → Outcome × Client}
    (h : ∀ v n, c.memory.item? i = some ⟨.view v, n⟩ → n ≠ 0 → c.Steps op (act v)) :
    c.Steps op (c.onView i act) := by
  rw [onView]
  split
  · next v hv =>
    refine steps_given ?_
    intro hi
    obtain ⟨n, hget⟩ := Memory.view?_eq_some_iff.mp hv
    obtain ⟨x, hget', hx⟩ := hasItem_iff.mp hi
    cases hget.symm.trans hget'
    exact h v n hget hx
  · exact .of_moves (by cases op <;> rfl) rfl .none

theorem steps_exportStore (c : Client) (parent : BufferId) (start stop : Nat) :
    c.Steps (.exportStore parent start stop) (c.step (.exportStore parent start stop)) := by
  refine steps_given fun _ => steps_attempt fun r hr => ?_
  obtain ⟨⟨s, pool⟩, hexport, heq⟩ := bind_eq_ok_iff.mp hr
  cases heq
  rw [Pool.exportRange] at hexport
  split at hexport
  · cases hexport
  · next b hb =>
    split at hexport
    · cases hexport
    · next hrange =>
      obtain ⟨pool', hpin, heq⟩ := bind_eq_ok_iff.mp hexport
      cases heq
      refine ⟨?_, fun s hs => ?_, fun _ _ _ h => nomatch h⟩
      · rw [holds_keepStore]
        exact .one (.hold (h := .pin) hpin)
      · rcases Multiset.mem_cons.mp hs with rfl | hs
        · refine .inr ⟨b, hb, ?_, rfl⟩
          dsimp only
          omega
        · exact .inl hs

theorem steps_dropStore (c : Client) (s : Store) : c.Steps (.dropStore s) (c.step (.dropStore s)) := by
  refine steps_given ?_
  intro hs
  have hs := of_decide_eq_true hs
  refine ⟨?_, fun s' hs' => .inl (Multiset.mem_of_mem_erase hs'), fun _ _ _ h => nomatch h⟩
  change Moves none c.memory c.holds { c.memory with pool := c.pool.discard s } (c.loseStore s).holds
  rw [holds_loseStore hs, Store.holds, Pool.discard]
  cases s.source with
  | owned bytes =>
    rw [Source.holds, Multiset.coe_nil, zero_add]
    exact .none
  | foreign label bytes =>
    rw [Source.holds, Multiset.coe_nil, zero_add]
    exact .one (.giveBack label)
  | exported parent start =>
    have hgive := Memory.giveUp_buffer c.memory parent .pin
    dsimp only
    rw [← show c.memory.pool = c.pool from rfl, ← hgive]
    exact .one (.giveUp _)

theorem steps_makeBuffer (c : Client) (s : Store) (r : Option RegistryId) :
    c.Steps (.makeBuffer s r) (c.step (.makeBuffer s r)) := by
  refine steps_given ?_
  intro hthere
  rw [Bool.and_eq_true] at hthere
  have hs := of_decide_eq_true hthere.1
  have hr : ∀ n, r = some n → n < c.pool.registries.length := by
    rintro n rfl
    exact of_decide_eq_true hthere.2
  refine ⟨?_, fun s' hs' => .inl (Multiset.mem_of_mem_erase hs'), fun id s' r' h => ?_⟩
  · rw [holds_loseStore hs, holds_keep]
    exact .one (.create hr)
  · injection h with h
    injection h with _ h
    exact h ▸ hs

theorem steps_releaseBuffer (c : Client) (id : BufferId) :
    c.Steps (.releaseBuffer id) (c.step (.releaseBuffer id)) := by
  refine steps_given ?_
  intro hb
  obtain ⟨b, hb, -⟩ := hasBuffer_iff.mp hb
  exact ⟨.one (.release hb), fun _ hs => .inl hs, fun _ _ _ h => nomatch h⟩

theorem steps_writeBuffer (c : Client) (id : BufferId) (bytes : List UInt8) :
    c.Steps (.writeBuffer id bytes) (c.step (.writeBuffer id bytes)) := by
  refine steps_given fun _ => steps_attempt fun r hr => ?_
  obtain ⟨old, hold, heq⟩ := bind_eq_ok_iff.mp hr
  cases heq
  split
  · next hlen =>
    exact .of_moves rfl rfl (.one (.overwrite (bytes_of_writableBytes hold) hlen))
  · exact .of_moves rfl rfl .none

theorem steps_pin (c : Client) (id : BufferId) : c.Steps (.pin id) (c.step (.pin id)) := by
  refine steps_given fun _ => steps_attempt fun r hr => ?_
  obtain ⟨pool, hpin, heq⟩ := bind_eq_ok_iff.mp hr
  cases heq
  refine .of_moves rfl rfl ?_
  rw [holds_keep]
  exact .one (.hold (h := .pin) hpin)

theorem steps_attach (c : Client) (id : BufferId) : c.Steps (.attach id) (c.step (.attach id)) := by
  refine steps_given fun _ => steps_attempt fun r hr => ?_
  obtain ⟨pool, hattach, heq⟩ := bind_eq_ok_iff.mp hr
  cases heq
  refine ⟨?_, fun _ hs => .inl hs, fun _ _ _ h => nomatch h⟩
  rw [holds_keep]
  exact .one (.hold (h := .reference) hattach)

theorem steps_detach (c : Client) (id : BufferId) : c.Steps (.detach id) (c.step (.detach id)) := by
  refine steps_given fun hh => .of_moves rfl rfl ?_
  rw [holds_lose (of_decide_eq_true hh)]
  have hkeep : ((c.lose (.reference (some id))).keep (.reference none)).holds =
      (c.lose (.reference (some id))).holds := by
    rw [holds_keep]
    exact zero_add _
  change Moves none c.memory _ _ (((c.lose (.reference (some id))).keep (.reference none)).holds)
  rw [hkeep]
  exact .one (.giveUp _)

theorem steps_share (c : Client) (h : Handle) : c.Steps (.share h) (c.step (.share h)) := by
  have hitem : ∀ i, h.holds = [.share i] →
      c.Steps (.share h) (c.given (c.hasItem i) (.done, (c.withMemory (c.memory.share i)).keep h)) := by
    intro i hholds
    refine steps_given fun hi => .of_moves rfl rfl ?_
    rw [holds_keep, hholds]
    exact .one (.share (hasItem_iff.mp hi))
  cases h with
  | buffer id =>
    refine steps_given fun hb => .of_moves rfl rfl ?_
    obtain ⟨b, hb, hheld⟩ := hasBuffer_iff.mp hb
    rw [holds_keep]
    exact .one (.shareBuffer hb hheld)
  | view i => exact hitem i rfl
  | owner i => exact hitem i rfl
  | object i => exact hitem i rfl
  | reference attached => exact .of_moves rfl rfl .none
  | pin id => exact .of_moves rfl rfl .none
  | guard i pinned => exact .of_moves rfl rfl .none

/-- Dropping a guard ends the export that it counts before it gives up its holds. -/
theorem steps_drop (c : Client) (h : Handle) : c.Steps (.drop h) (c.step (.drop h)) := by
  refine steps_given fun hh => .of_moves rfl rfl ?_
  rw [holds_lose (of_decide_eq_true hh)]
  refine .more ?_ (fun _ _ _ h => nomatch h) (.giveUp h.holds)
  cases h with
  | guard i pinned =>
    rw [Memory.unexport]
    cases hv : c.memory.view? i with
    | none => exact .none
    | some v =>
      obtain ⟨n, hget⟩ := Memory.view?_eq_some_iff.mp hv
      exact .one (.replaceView _ hget (fun h => h) ⟨rfl, .inr ⟨rfl, rfl⟩⟩ rfl)
  | buffer | reference | pin | view | owner | object => exact .none

/-! #### Items and views -/

theorem living_of_hasAll {holds : List Hold} (h : c.hasAll holds = true) (j : ItemId)
    (hj : .share j ∈ holds) : c.memory.Living j :=
  hasItem_iff.mp (List.all_eq_true.mp h _ hj)

/-- A new item without holds on buffers, under a handle that is a share of it. -/
theorem steps_make {t : Thing} {handle : ItemId → Handle}
    (hd : ∀ i, op.deed (.item i) = none) (hhandle : ∀ i, (handle i).holds = [.share i])
    (ht : t.Sound) (hnone : t.holds.filter Hold.isOnBuffer = [])
    (hliving : ∀ j, .share j ∈ t.holds → c.memory.Living j) : c.Steps op (c.make t handle) := by
  refine .of_moves (hd _) rfl ?_
  have hmove : Move none c.memory ((t.holds.filter Hold.isOnBuffer : Multiset Hold) + c.holds)
      (c.memory.add t).2 ({.share (c.memory.add t).1} + c.holds) := .add ht hliving
  rw [hnone, Multiset.coe_nil, zero_add] at hmove
  rw [holds_keep, hhandle]
  exact .one hmove

theorem filter_isOnBuffer_of_object (o : HostObject) : o.holds.filter Hold.isOnBuffer = [] := by
  rw [List.filter_eq_nil_iff]
  intro h hm
  rcases List.mem_append.mp hm with hm | hm
  · split at hm
    · rw [List.mem_singleton.mp hm]
      exact Bool.false_ne_true
    · cases hm
  · obtain ⟨i, -, rfl⟩ : ∃ i, o.releasable = some i ∧ Hold.share i = h := by simpa using hm
    exact Bool.false_ne_true

theorem steps_setView {v v' : View} {n : Nat} {o : Outcome} (hd : op.deed o = none)
    (hget : c.memory.item? i = some ⟨.view v, n⟩)
    (hv' : (Thing.view v).Sound → (Thing.view v').Sound)
    (hcont : v.Continues v') (hholds : v'.holds = v.holds) :
    c.Steps op (o, c.setView i v') := by
  exact .of_moves hd rfl (.one (.replaceView _ hget hv' hcont hholds))

/-- The holds of a new view are its reference, taken beforehand, and a share of its owner. -/
theorem fresh_move {m : Memory} {owner : Option ItemId} (outside : Multiset Hold) (l : Layout)
    (source : ViewSource) (policy : ReleasePolicy) (requested : ViewFlags)
    (howner : ∀ j, owner = some j → m.Living j) :
    Move none m ((source.holds : Multiset Hold) + outside)
      (m.add (.view (.fresh l source owner policy requested))).2
      ({.share (m.add (.view (.fresh l source owner policy requested))).1} + outside) := by
  have hholds : (Thing.view (.fresh l source owner policy requested)).holds =
      source.holds ++ (owner.map Hold.share).toList := by
    cases source <;> rfl
  have hfilter : (Thing.view (.fresh l source owner policy requested)).holds.filter
      Hold.isOnBuffer = source.holds := by
    rw [hholds, List.filter_append]
    rcases source with (_ | id) | bytes <;> cases owner <;> rfl
  have hliving : ∀ j, .share j ∈ (Thing.view (.fresh l source owner policy requested)).holds →
      m.Living j := by
    intro j hj
    rw [hholds] at hj
    rcases source with (_ | id) | bytes <;> cases owner <;> simp_all [ViewSource.holds]
  rw [← hfilter]
  refine .add ?_ hliving
  rintro ⟨⟩

theorem living_of_hasOwner {owner : Option ItemId} (h : c.hasOwner owner = true) (j : ItemId)
    (hj : owner = some j) : c.memory.Living j := by
  subst hj
  exact hasItem_iff.mp h

theorem steps_viewOver (c : Client) (l : Layout) (id : BufferId) (owner : Option ItemId)
    (policy : ReleasePolicy) :
    c.Steps (.viewOver l id owner policy) (c.step (.viewOver l id owner policy)) := by
  refine steps_given ?_
  intro hthere
  rw [Bool.and_eq_true] at hthere
  have howner := living_of_hasOwner hthere.2
  rcases Memory.viewOver_lend_cases howner l id policy with ⟨e, heq⟩ | ⟨pool, -, hattach, heq⟩
  · rw [heq]
    exact .of_moves rfl rfl .none
  · rw [heq]
    refine ⟨?_, fun _ hs => .inl hs, fun _ _ _ h => nomatch h⟩
    rw [keepView, holds_keep]
    refine .more (.one (.hold (h := .reference) hattach)) (fun _ _ _ h => nomatch h) ?_
    exact fresh_move _ l (.managed (some id)) policy _ howner

/-- A client that has the buffer and the owner keeps the view that its memory makes. -/
theorem step_viewOver {l : Layout} {owner : Option ItemId} {policy : ReleasePolicy}
    (hb : c.hasBuffer id = true) (ho : c.hasOwner owner = true) :
    c.step (.viewOver l id owner policy) =
      c.keepView ((c.memory.lend owner).viewOver l id owner policy) := by
  rw [step, given, if_pos (by rw [hb, ho]; rfl)]

theorem steps_viewAliased (c : Client) (l : Layout) (bytes : List UInt8) (owner : Option ItemId)
    (policy : ReleasePolicy) (flags : ViewFlags) :
    c.Steps (.viewAliased l bytes owner policy flags)
      (c.step (.viewAliased l bytes owner policy flags)) := by
  refine steps_given ?_
  intro hthere
  have howner := living_of_hasOwner hthere
  rcases Memory.viewAliased_lend_cases howner l bytes policy flags with ⟨e, heq⟩ | heq
  · rw [heq]
    exact .of_moves rfl rfl .none
  · rw [heq]
    refine .of_moves rfl rfl ?_
    have hmove := fresh_move c.holds l (.aliased bytes) policy flags howner
    rw [ViewSource.holds, Multiset.coe_nil, zero_add] at hmove
    rw [holds_keep]
    exact .one hmove

/-- A view that is refused gives up the reference, one that is made takes it over. -/
theorem steps_viewThrough (c : Client) (l : Layout) (reference : Option BufferId)
    (owner : Option ItemId) (policy : ReleasePolicy) (flags : ViewFlags) :
    c.Steps (.viewThrough l reference owner policy flags)
      (c.step (.viewThrough l reference owner policy flags)) := by
  refine steps_given ?_
  intro hthere
  rw [Bool.and_eq_true] at hthere
  have hholds := holds_lose (of_decide_eq_true hthere.1)
  have howner := living_of_hasOwner hthere.2
  rw [Memory.viewThrough]
  rcases Memory.newView_lend_cases howner l (.managed reference) policy flags with
    ⟨e, heq⟩ | ⟨-, heq⟩
  · rw [heq]
    refine .of_moves rfl rfl ?_
    rw [hholds]
    exact .one (.giveUp _)
  · rw [heq]
    refine .of_moves rfl rfl ?_
    rw [hholds, holds_keep]
    exact .one (fresh_move _ l (.managed reference) policy flags howner)

theorem steps_hash (c : Client) (i : ItemId) : c.Steps (.hash i) (c.step (.hash i)) := by
  refine steps_onView fun v n hget _ => steps_attempt fun r hr => ?_
  obtain ⟨made, hmade, heq⟩ := bind_eq_ok_iff.mp hr
  obtain ⟨h, -, hmade⟩ := bind_eq_ok_iff.mp hmade
  cases hmade
  cases heq
  exact steps_setView rfl hget (fun h => h) ⟨rfl, .inr ⟨rfl, rfl⟩⟩ rfl

/-- Counting an export on a view takes a share of it. -/
theorem export_moves {d : Option Deed} {m₀ m : Memory} {outside₀ outside : Multiset Hold} {v : View}
    {n : Nat} (h : Moves d m₀ outside₀ m outside) (hd : Deed.MakesNone d)
    (hget : m.item? i = some ⟨.view v, n⟩) (hn : n ≠ 0) :
    Moves d m₀ outside₀ ((m.setView i v.exported).share i) ({.share i} + outside) := by
  have hmove : Move none m outside (m.setView i v.exported) outside :=
    .replaceView _ hget (fun h => h) ⟨rfl, .inr ⟨rfl, rfl⟩⟩ rfl
  refine .more (.more h hd hmove) hd (.share ⟨⟨.view v.exported, n⟩, ?_, hn⟩)
  rw [Memory.item?] at hget
  rw [Memory.item?, Memory.setView, Numbered.get?_update, if_pos rfl, hget, Option.map_some]

/-- An export pins the buffer first, if there is one. -/
theorem steps_acquire (c : Client) (i : ItemId) : c.Steps (.acquire i) (c.step (.acquire i)) := by
  refine steps_onView fun v n hget hn => steps_attempt fun r hr => ?_
  obtain ⟨⟨pinned, m⟩, hacquire, heq⟩ := bind_eq_ok_iff.mp hr
  cases heq
  refine .of_moves rfl rfl ?_
  rw [holds_keep]
  obtain ⟨_, -, hacquire⟩ := bind_eq_ok_iff.mp hacquire
  dsimp only at hacquire
  cases hsource : v.source with
  | aliased bytes =>
    rw [hsource] at hacquire
    cases hacquire
    rw [View.buffer?, hsource]
    exact export_moves .none (fun _ _ _ h => nomatch h) hget hn
  | managed buffer =>
    rw [hsource] at hacquire
    cases buffer with
    | none => cases hacquire
    | some id =>
      obtain ⟨pool, hpool, heq⟩ := bind_eq_ok_iff.mp hacquire
      cases heq
      rw [View.buffer?, hsource]
      have hpinned : Moves none c.memory c.holds { c.memory with pool }
          ({.buffer id .pin} + c.holds) := .one (.hold (mapError_eq_ok_iff.mp hpool))
      have hmoves := export_moves hpinned (fun _ _ _ h => nomatch h) hget hn
      rw [add_left_comm, ← add_assoc] at hmoves
      exact hmoves

/-- Releasing a view gives up all that it holds. -/
theorem steps_releaseView (c : Client) (i : ItemId) :
    c.Steps (.releaseView i) (c.step (.releaseView i)) := by
  refine steps_onView fun v n hget hn => steps_attempt fun r hr => ?_
  obtain ⟨⟨released, m⟩, hrelease, heq⟩ := bind_eq_ok_iff.mp hr
  cases heq
  refine .of_moves rfl rfl ?_
  rcases Memory.release_cases hrelease with ⟨-, ⟨⟩⟩ | ⟨-, -, ⟨⟩⟩
  · exact .none
  · have hnone : v.released.buffer? = none := by
      rw [View.released, View.buffer?]
      cases v.source <;> rfl
    have hleft : (v.holds : Multiset Hold) = v.holds + (v.released.holds : Multiset Hold) := by
      rw [View.holds.eq_1 v.released, hnone]
      exact (add_zero _).symm
    exact .more (.one (.setView hget (fun h => absurd h hn) (fun _ _ => hnone) ⟨rfl, .inl rfl⟩ hleft))
      (fun _ _ _ h => nomatch h) (.giveUp v.holds)

theorem steps_writeItem (c : Client) (i : ItemId) (index : List Nat) (item : List UInt8) :
    c.Steps (.writeItem i index item) (c.step (.writeItem i index item)) := by
  refine steps_onView fun v n hget hn => steps_attempt fun r hr => ?_
  obtain ⟨m, hwrite, heq⟩ := bind_eq_ok_iff.mp hr
  cases heq
  obtain ⟨pool, hpool, heq⟩ := bind_eq_ok_iff.mp hwrite
  cases heq
  obtain ⟨id, old, new, hold, hlen, rfl⟩ := View.writeItem_eq_ok hpool
  exact .of_moves rfl rfl (.one (.overwrite (bytes_of_writableBytes hold) hlen))

/-- A loose store whose bytes are its own has no holds. -/
theorem steps_keepStore {bytes : List UInt8} {o : Outcome} (hd : op.deed o = none)
    (hs : s.source = .owned bytes ∨ ∃ label, s.source = .foreign label bytes)
    (hlen : bytes.length = s.length) : c.Steps op (o, c.keepStore s) := by
  refine ⟨?_, fun s' hs' => ?_, fun _ _ _ h => by rw [hd] at h; cases h⟩
  · rw [hd, holds_keepStore, Store.holds]
    rcases hs with hs | ⟨label, hs⟩ <;>
    · rw [hs, Source.holds, Multiset.coe_nil, zero_add]
      exact .none
  · rcases Multiset.mem_cons.mp hs' with rfl | hs'
    · refine .inr ?_
      rw [Store.FitsOn]
      rcases hs with hs | ⟨label, hs⟩ <;> rw [hs] <;> exact hlen
    · exact .inl hs'

/-- Every operation is a row of moves. -/
theorem steps_step (c : Client) (op : Op) : c.Steps op (c.step op) := by
  cases op with
  | makeRegistry => exact .of_moves rfl rfl (.one .makeRegistry)
  | ownStore bytes => exact steps_keepStore rfl (.inl rfl) rfl
  | lendStore label bytes readOnly => exact steps_keepStore rfl (.inr ⟨label, rfl⟩) rfl
  | exportStore parent start stop => exact c.steps_exportStore ..
  | dropStore s => exact c.steps_dropStore s
  | makeBuffer s r => exact c.steps_makeBuffer s r
  | releaseBuffer id => exact c.steps_releaseBuffer id
  | writeBuffer id bytes => exact c.steps_writeBuffer id bytes
  | pin id => exact c.steps_pin id
  | attach id => exact c.steps_attach id
  | detach id => exact c.steps_detach id
  | share h => exact c.steps_share h
  | drop h => exact c.steps_drop h
  | makeText s => exact steps_make (fun _ => rfl) (fun _ => rfl) trivial rfl fun _ h => nomatch h
  | makeInteger i => exact steps_make (fun _ => rfl) (fun _ => rfl) trivial rfl fun _ h => nomatch h
  | makeObject o =>
    exact steps_given fun h => steps_make (fun _ => rfl) (fun _ => rfl) trivial
      (filter_isOnBuffer_of_object o) (living_of_hasAll h)
  | viewOver l id owner policy => exact c.steps_viewOver ..
  | viewAliased l bytes owner policy flags => exact c.steps_viewAliased ..
  | viewThrough l reference owner policy flags => exact c.steps_viewThrough ..
  | setHash i h =>
    exact steps_onView fun v n hget _ =>
      steps_setView rfl hget (fun h => h) ⟨rfl, .inr ⟨rfl, rfl⟩⟩ rfl
  | hash i => exact c.steps_hash i
  | beginExport i =>
    exact steps_onView fun v n hget _ =>
      steps_setView rfl hget (fun h => h) ⟨rfl, .inr ⟨rfl, rfl⟩⟩ rfl
  | endExport i =>
    exact steps_onView fun v n hget _ =>
      steps_setView rfl hget (fun h => h) ⟨rfl, .inr ⟨rfl, rfl⟩⟩ rfl
  | acquire i => exact c.steps_acquire i
  | releaseView i => exact c.steps_releaseView i
  | writeItem i index item => exact c.steps_writeItem ..

end Client

end StridedViews