import StridedViews.Proofs.Session.Reach

/-!
What the steps of a session do to its client: those on stores and buffers, on handles, on views and on
objects. Each is one operation, or one that makes a store and one that uses it up; the name of a new
handle may cost one more, as the handle that had it is dropped.
-/

namespace StridedViews

namespace Session

variable {σ : Type} {s s' : Session σ} {name : String} {h : Handle} {i : ItemId} {id : BufferId}
  {v : View}

/-! ### Stores and buffers -/

/-- A store that a session makes is one that its client makes, or the session stays as it is. -/
theorem storeOf_cases (s : Session σ) (r : StoreRecipe) (f : Store → Session σ → Answer × Session σ) :
    (s.storeOf r f).2 = s ∨ ∃ store pool op, s.storeOf r f = f store (s.withPool pool) ∧
      (s.client.Ready → (s.client.step op).2 = (s.withPool pool).client.keepStore store) := by
  cases r with
  | owned bytes => exact .inr ⟨_, s.pool, .ownStore bytes, rfl, fun _ => rfl⟩
  | foreign label bytes readOnly =>
    exact .inr ⟨_, s.pool, .lendStore label bytes readOnly, rfl, fun _ => rfl⟩
  | exported parent start stop =>
    rw [storeOf]
    cases hparent : s.buffer? parent with
    | none => exact .inl rfl
    | some id =>
      rw [withHandle]
      cases hexport : s.pool.exportRange id start stop with
      | error e => exact .inl rfl
      | ok made =>
        refine .inr ⟨made.1, made.2, .exportStore id start stop, rfl, fun hc => ?_⟩
        have hb := hc.hasBuffer (mem_hands_of_buffer? hparent) (List.mem_singleton_self _)
        have hexport' : s.client.pool.exportRange id start stop = .ok made := hexport
        rw [Client.step, Client.given, if_pos hb, hexport']
        rfl

theorem tracked_makeStore (s : Session σ) (r : StoreRecipe) : s.Tracked (s.makeStore r).2 := by
  rw [makeStore]
  rcases s.storeOf_cases r fun store s => (.store store, s.withPool (s.pool.discard store)) with
    heq | ⟨store, pool, op, heq, hstep⟩
  · rw [heq]
    exact .refl s
  · rw [heq]
    refine fun hc => .trans (Client.reaches_of_step op (hstep hc)) ?_
    refine Client.reaches_of_step (.dropStore store) ?_
    have hmem : store ∈ ((s.withPool pool).client.keepStore store).stores :=
      Multiset.mem_cons_self store 0
    rw [Client.step, Client.given, if_pos (decide_eq_true hmem)]
    exact congrArg (Client.mk _ _) (Multiset.erase_cons_head store 0)

theorem tracked_makeBuffer (s : Session σ) (name : String) (r : StoreRecipe) (registered : Bool) :
    s.Tracked (s.makeBuffer name r registered).2 := by
  rw [makeBuffer]
  rcases s.storeOf_cases r _ with heq | ⟨store, pool, op, heq, hstep⟩
  · rw [heq]
    exact .refl s
  · rw [heq]
    intro hc
    have hreach := Client.reaches_of_step op (hstep hc)
    refine (hreach.trans ?_).trans (reaches_keep ..)
    refine Client.reaches_of_step _ (Client.step_makeBuffer ((hc.reaches hreach).hasRegistry ?_))
    cases registered
    · exact fun _ h => nomatch h
    · rintro n ⟨⟩
      exact Nat.two_pos

theorem tracked_releaseBuffer (hh : .buffer id ∈ s.hands) : s.Tracked (s.releaseBuffer id).2 := by
  refine tracked_of_step (.releaseBuffer id) ?_
  intro hc
  rw [Client.step, Client.given, if_pos (hc.hasBuffer hh (List.mem_singleton_self _))]
  rfl

theorem tracked_writeBuffer (hh : .buffer id ∈ s.hands) (start : Nat) (bytes : List UInt8) :
    s.Tracked (s.writeBuffer id start bytes).2 := by
  rw [writeBuffer]
  cases hold : s.pool.writableBytes id with
  | error e => exact .refl s
  | ok old =>
    dsimp only
    split
    · next hfits =>
      refine tracked_of_step (.writeBuffer id (splice old start bytes)) ?_
      intro hc
      have hold' : s.client.pool.writableBytes id = .ok old := hold
      have hlen : (splice old start bytes).length = old.length := length_splice (by omega)
      rw [Client.step, Client.given, if_pos (hc.hasBuffer hh (List.mem_singleton_self _)), hold']
      exact congrArg (fun r => (s.client.attempt ViewError.buffer (.ok r)).2) (if_pos hlen)
    · exact .refl s

theorem tracked_pin (hh : .buffer id ∈ s.hands) (name : String) : s.Tracked (s.pin name id).2 := by
  refine tracked_answer ?_
  intro r hr
  obtain ⟨pool, hpin, heq⟩ := bind_eq_ok_iff.mp hr
  cases heq
  refine tracked_keep (.pin id) ?_
  intro hc
  have hpin' : s.client.pool.pin id = .ok pool := hpin
  rw [Client.step, Client.given, if_pos (hc.hasBuffer hh (List.mem_singleton_self _)), hpin']
  rfl

theorem tracked_attach (hh : .buffer id ∈ s.hands) (name : String) :
    s.Tracked (s.attach name id).2 := by
  refine tracked_answer ?_
  intro r hr
  obtain ⟨pool, hattach, heq⟩ := bind_eq_ok_iff.mp hr
  cases heq
  refine tracked_keep (.attach id) ?_
  intro hc
  have hattach' : s.client.pool.attach id = .ok pool := hattach
  rw [Client.step, Client.given, if_pos (hc.hasBuffer hh (List.mem_singleton_self _)), hattach']
  rfl

theorem tracked_detach {attached : Option BufferId} (hh : s.reference? name = some attached) :
    s.Tracked (s.detach name attached).2 := by
  have hhandle := handle?_of_reference? hh
  have hmem := mem_hands hhandle
  have hhands : (s.enter name (.reference none)).hands =
      .reference none ::ₘ s.hands.erase (.reference attached) := by
    rw [hands_enter]
    exact congrArg _ (hands_remove hhandle)
  cases attached with
  | none =>
    rw [Multiset.cons_erase hmem] at hhands
    refine .of_client ?_
    change Client.mk (s.memory.giveUp []) (s.enter name (.reference none)).hands 0 = s.client
    rw [Memory.giveUp_nil, hhands, client]
  | some id =>
    refine tracked_of_step (.detach id) ?_
    intro _
    have hkept : .reference (some id) ∈ s.client.handles := hmem
    rw [Client.step, Client.given, if_pos (decide_eq_true hkept)]
    exact congrArg (fun hands => Client.mk _ hands 0) hhands.symm

/-! ### Handles -/

theorem tracked_drop {sort : HandleSort} (hh : s.drop sort name = some s') : s.Tracked s' := by
  rw [drop] at hh
  obtain ⟨old, hold, heq⟩ := Option.bind_eq_some_iff.mp hh
  cases heq
  refine tracked_of_step (.drop old) ?_
  intro _
  have hmem : old ∈ s.client.handles := mem_hands hold
  rw [Client.step, Client.given, if_pos (decide_eq_true hmem)]
  exact congrArg (fun hands => Client.mk _ hands 0) (hands_remove hold).symm

/-- Another handle on a buffer that is held. -/
theorem tracked_shareBuffer (hb : s.client.Ready → s.client.hasBuffer id = true) (name : String) :
    s.Tracked ((s.withPool (s.pool.share id)).keep name (.buffer id)) := by
  refine tracked_keep (.share (.buffer id)) ?_
  intro hc
  rw [Client.step, Client.share, Client.given, if_pos (hb hc)]
  rfl

/-- Another handle on an item that lives. -/
theorem tracked_shareItem (hi : s.client.Ready → s.client.hasItem i = true)
    (hh : h = .view i ∨ h = .owner i) (name : String) :
    s.Tracked ((s.withMemory (s.memory.share i)).keep name h) := by
  refine tracked_keep (.share h) ?_
  intro hc
  rcases hh with rfl | rfl <;>
  · rw [Client.step, Client.share, Client.given, if_pos (hi hc)]
    rfl

theorem tracked_shareBufferOf (hv : s.view? name = some (i, v)) (name' : String) :
    s.Tracked (s.shareBufferOf name' v).2 := by
  obtain ⟨hmem, hview⟩ := of_view? hv
  rw [shareBufferOf]
  cases hbuffer : v.buffer? with
  | none => exact .refl s
  | some id =>
    refine tracked_shareBuffer (fun hc => hc.sound.hasBuffer_of_mem (k := .reference) ?_) name'
    obtain ⟨n, hget⟩ := Memory.view?_eq_some_iff.mp hview
    refine Client.mem_holdsOf (hc.hasItem hmem (List.mem_singleton_self _)) hget ?_
    simp [Thing.holds, View.holds, hbuffer]

theorem tracked_shareOwner (hv : s.view? name = some (i, v)) (name' : String) :
    s.Tracked (s.shareOwner name' v).2 := by
  obtain ⟨hmem, hview⟩ := of_view? hv
  rw [shareOwner]
  cases howner : v.owner with
  | none => exact .refl s
  | some j =>
    refine tracked_shareItem (fun hc => hc.sound.hasItem_of_mem ?_) (.inr rfl) name'
    obtain ⟨n, hget⟩ := Memory.view?_eq_some_iff.mp hview
    refine Client.mem_holdsOf (hc.hasItem hmem (List.mem_singleton_self _)) hget ?_
    simp [Thing.holds, View.holds, howner]

/-! ### Views -/

theorem hasItem_of_view? (hc : s.client.Ready) (hv : s.view? name = some (i, v)) :
    s.client.hasItem i = true :=
  hc.hasItem (of_view? hv).1 (List.mem_singleton_self _)

theorem tracked_setView (op : Client.Op) {o : Client.Outcome} (change : View → View)
    (hv : s.view? name = some (i, v))
    (hop : s.client.step op = s.client.onView i fun v => (o, s.client.setView i (change v))) :
    s.Tracked (s.setView i (change v)) := by
  refine tracked_of_step op ?_
  intro hc
  rw [Client.step_onView op (hasItem_of_view? hc hv) (of_view? hv).2 hop]
  rfl

theorem tracked_writeItem (hv : s.view? name = some (i, v)) (index : List Nat) (item : List UInt8) :
    s.Tracked (s.answer .view do
      return (.done, s.withMemory (← s.memory.writeItem v index item))).2 := by
  refine tracked_answer ?_
  intro r hr
  obtain ⟨m, hm, heq⟩ := bind_eq_ok_iff.mp hr
  cases heq
  refine tracked_of_step (.writeItem i index item) ?_
  intro hc
  have hm' : s.client.memory.writeItem v index item = .ok m := hm
  rw [Client.step_onView _ (hasItem_of_view? hc hv) (of_view? hv).2 rfl, hm']
  rfl

theorem tracked_hash (hv : s.view? name = some (i, v)) :
    s.Tracked (s.answer .view do
      let (h, m) ← s.memory.contentHash i v
      return (.integer h, s.withMemory m)).2 := by
  refine tracked_answer ?_
  intro r hr
  obtain ⟨made, hmade, heq⟩ := bind_eq_ok_iff.mp hr
  cases heq
  refine tracked_of_step (.hash i) ?_
  intro hc
  have hmade' : s.client.memory.contentHash i v = .ok made := hmade
  rw [Client.step_onView _ (hasItem_of_view? hc hv) (of_view? hv).2 rfl, hmade']
  rfl

theorem tracked_acquire (hv : s.view? name = some (i, v)) (name' : String) :
    s.Tracked (s.acquire name' i v).2 := by
  refine tracked_answer ?_
  intro r hr
  obtain ⟨made, hmade, heq⟩ := bind_eq_ok_iff.mp hr
  cases heq
  refine tracked_keep (.acquire i) ?_
  intro hc
  have hmade' : s.client.memory.acquire i v = .ok made := hmade
  rw [Client.step_onView _ (hasItem_of_view? hc hv) (of_view? hv).2 rfl, hmade']
  rfl

theorem tracked_releaseView (hi : s.client.Ready → s.client.hasItem i = true)
    (hview : s.memory.view? i = some v) : s.Tracked (s.releaseView i v).2 := by
  refine tracked_answer ?_
  intro r hr
  obtain ⟨made, hmade, heq⟩ := bind_eq_ok_iff.mp hr
  cases heq
  exact tracked_of_step (.releaseView i) fun hc => Client.step_releaseView (hi hc) hview hmade

/-! ### Making views -/

theorem hasOwner_of_optional? {owner : Option String} {o : Option ItemId} (hc : s.client.Ready)
    (ho : optional? owner s.owner? = some o) : s.client.hasOwner o = true := by
  cases owner with
  | none =>
    cases ho
    rfl
  | some name =>
    obtain ⟨i, hi, rfl⟩ := Option.map_eq_some_iff.mp ho
    exact hc.hasItem (mem_hands_of_owner? hi) (List.mem_singleton_self _)

/-- What the client keeps of a making, the session keeps under a name. -/
theorem tracked_keepMade (op : Client.Op) {made : Except ViewError ItemId × Memory}
    (hstep : s.client.Ready → s.client.step op = s'.client.keepView made) (name : String) :
    s.Tracked (s'.keepMade name made).2 := by
  obtain ⟨e | i, m⟩ := made
  · exact tracked_of_step op fun hc => congrArg Prod.snd (hstep hc)
  · have hkeep : s.Tracked ((s'.withMemory m).keep name (.view i)) :=
      tracked_keep op fun hc => congrArg Prod.snd (hstep hc)
    exact hkeep

/-- The reference of a view is used up, whether the view is made or not. -/
theorem step_viewThrough {l : Layout} {reference : String} {attached : Option BufferId}
    {owner : Option ItemId} {policy : ReleasePolicy} {flags : ViewFlags}
    (ho : s.client.hasOwner owner = true) (hattached : s.reference? reference = some attached) :
    s.client.step (.viewThrough l attached owner policy flags) =
      (s.remove .reference reference).client.keepView
        ((s.memory.lend owner).viewThrough l attached owner policy flags) := by
  have hhandle := handle?_of_reference? hattached
  have hmem : .reference attached ∈ s.client.handles := mem_hands hhandle
  have hlose : s.client.lose (.reference attached) = (s.remove .reference reference).client :=
    congrArg (fun hands => Client.mk s.memory hands 0) (hands_remove hhandle).symm
  rw [Client.step, Client.given, if_pos (by rw [decide_eq_true hmem, ho]; rfl), hlose]
  rfl

theorem tracked_makeViewOf {l : Layout} {owner : Option ItemId} {policy : ReleasePolicy}
    (ho : s.client.Ready → s.client.hasOwner owner = true) (name : String) (r : ViewRecipe) :
    s.Tracked (s.makeViewOf name l owner policy r).2 := by
  cases r with
  | onBuffer buffer =>
    refine tracked_withHandle fun id hid => ?_
    refine tracked_keepMade (.viewOver l id owner policy) (fun hc => ?_) name
    have hb := hc.hasBuffer (mem_hands_of_buffer? hid) (List.mem_singleton_self _)
    exact Client.step_viewOver hb (ho hc)
  | aliased bytes flags =>
    exact tracked_keepMade (.viewAliased ..) (fun hc => Client.step_viewAliased (ho hc)) name
  | through reference flags =>
    refine tracked_withHandle fun attached hattached => ?_
    exact tracked_keepMade (.viewThrough ..) (fun hc => step_viewThrough (ho hc) hattached) name

theorem tracked_makeView (s : Session σ) (name : String) (layout : LayoutRecipe)
    (owner : Option String) (policy : ReleasePolicy) (r : ViewRecipe) :
    s.Tracked (s.makeView name layout owner policy r).2 := by
  rw [makeView]
  cases layout.build with
  | error e => exact .refl s
  | ok l =>
    exact tracked_withHandle fun o ho => tracked_makeViewOf (fun hc => hasOwner_of_optional? hc ho) name r

/-! ### Objects -/

theorem hasAll_holds {c : Client} {o : HostObject}
    (hbytes : ∀ i, o.bytes = some (.view i) → c.hasItem i = true)
    (hreleasable : ∀ i, o.releasable = some i → c.hasItem i = true) : c.hasAll o.holds = true := by
  rw [Client.hasAll, HostObject.holds, List.all_append, Bool.and_eq_true]
  constructor
  · split
    · next i hi => simpa using hbytes i hi
    · rfl
  · cases hr : o.releasable with
    | none => rfl
    | some i => simpa using hreleasable i hr

/-- A view that an object may mention has a handle. -/
theorem hasItem_of_optional? {view : Option String} {found : Option (ItemId × View)}
    (hc : s.client.Ready) (hv : optional? view s.view? = some found) (hi : found.map (·.1) = some i) :
    s.client.hasItem i = true := by
  cases view with
  | none =>
    cases hv
    cases hi
  | some name =>
    obtain ⟨⟨j, v⟩, hview, rfl⟩ := Option.map_eq_some_iff.mp hv
    cases hi
    exact hasItem_of_view? hc hview

/-- The items that an object mentions live. -/
theorem hasAll_of_objectOf? {r : ObjectRecipe} {o : HostObject} (hc : s.client.Ready)
    (ho : s.objectOf? r = some o) : s.client.hasAll o.holds = true := by
  cases r with
  | plain typeName =>
    cases ho
    rfl
  | bytes bs =>
    cases ho
    rfl
  | hidden typeName bs =>
    cases ho
    rfl
  | view view =>
    obtain ⟨⟨i, v⟩, hview, rfl⟩ := Option.map_eq_some_iff.mp ho
    have hi := hasItem_of_view? hc hview
    exact hasAll_holds (by rintro j ⟨⟩; exact hi) (by rintro j ⟨⟩; exact hi)
  | custom typeName buffer releasable =>
    obtain ⟨b, hb, ho⟩ := Option.bind_eq_some_iff.mp ho
    obtain ⟨r, hr, ho⟩ := Option.bind_eq_some_iff.mp ho
    cases ho
    refine hasAll_holds (fun i hi => ?_) fun i hi => hasItem_of_optional? hc hr hi
    refine hasItem_of_optional? hc hb ?_
    cases b with
    | none => cases hi
    | some v =>
      cases hi
      rfl

theorem tracked_makeObject (s : Session σ) (name : String) (r : ObjectRecipe) :
    s.Tracked (s.makeObject name r).2 := by
  refine tracked_withHandle fun o ho => tracked_keep (.makeObject o) fun hc => ?_
  rw [Client.step, Client.given, if_pos (hasAll_of_objectOf? hc ho)]
  rfl

theorem tracked_releaseObject {o : HostObject} (ho : s.object? name = some (i, o)) :
    s.Tracked (s.releaseObject o).2 := by
  obtain ⟨hmem, hobject⟩ := of_object? ho
  rw [releaseObject]
  cases hr : o.releasable with
  | none => exact .refl s
  | some j =>
    refine tracked_withHandle fun v hv => tracked_releaseView (fun hc => ?_) hv
    obtain ⟨n, hget⟩ := Memory.object?_eq_some_iff.mp hobject
    refine hc.sound.hasItem_of_mem ?_
    refine Client.mem_holdsOf (hc.hasItem hmem (List.mem_singleton_self _)) hget ?_
    simp [Thing.holds, HostObject.holds, hr]

end Session

end StridedViews
