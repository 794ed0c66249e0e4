import StridedViews.Proofs.Layout.Walk
import StridedViews.Proofs.Sharing.Hashes
import StridedViews.Proofs.Storage.Windows

/-!
Calls stage by stage. A call that can fail checks, takes holds, checks again, and undoes what it did
where the second check fails. The calls are written here as these stages, on a memory that keeps what
was done before a stage fails. No second check ever fails where the first did not, so each call does
what the operation does that fails or succeeds at once.
-/

namespace StridedViews

/-- The view of a number. One that is not there counts as released. -/
def Memory.viewAt (m : Memory) (i : ItemId) : Except ViewError View :=
  match m.view? i with
  | none => .error .released
  | some v => .ok v

/-- A call that works on a memory stage by stage. What the stages before a failing one did stays. -/
abbrev Staged (α : Type) := Visit ViewError Memory α

namespace Staged

variable {α β : Type}

/-- Looks at the memory, which may show that the call fails. -/
def look (f : Memory → Except ViewError α) : Staged α := do Visit.ofExcept (f (← get))

/-! ### Buffers -/

def alterBuffer (id : BufferId) (f : Buffer → Buffer) : Staged Unit :=
  modify fun m => { m with pool.buffers := Numbered.update f m.pool.buffers id }

/-- The buffer of a number, unless it has been torn down. -/
def liveBuffer (id : BufferId) : Staged Buffer := look fun m => (m.pool.live id).mapError .buffer

def attach (id : BufferId) : Staged Unit := do
  let _ ← liveBuffer id
  alterBuffer id fun b => { b with everAttached := true }
  alterBuffer id fun b => { b with attached := b.attached + 1 }

def pin (id : BufferId) : Staged Unit := do
  let _ ← liveBuffer id
  alterBuffer id fun b => { b with pins := b.pins + 1 }

/-- Makes a buffer over a range of another one. The range is checked before the pin is taken. -/
def exportBuffer (parent : BufferId) (start stop : Nat) (registry : Option RegistryId) :
    Staged BufferId := do
  let b ← look fun m => match m.pool.get? parent with
    | none => .error (.buffer (.released parent))
    | some b => .ok b
  if start > stop ∨ stop > b.length then
    throw (.buffer (.outOfRange start stop b.length))
  pin parent
  modifyGet fun m =>
    let made := m.pool.create ⟨.exported parent start, stop - start, b.readOnly⟩ registry
    (made.1, { m with pool := made.2 })

/-! ### Views -/

def view (i : ItemId) : Staged View := look (·.viewAt i)

def alterView (i : ItemId) (f : View → View) : Staged Unit := modify (·.alterView i f)

def giveUp (holds : List Hold) : Staged Unit := modify (·.giveUp holds)

/-- Does stages that are handed some holds: if one of them fails, the holds are given up. -/
def handing (holds : List Hold) (x : Staged α) : Staged α := ExceptT.mk fun m =>
  match x.run.run m with
  | (.ok a, m) => (.ok a, m)
  | (.error e, m) => (.error e, m.giveUp holds)

/-- Makes a view of a source, which takes over the owner and the reference of the source. -/
def newView (l : Layout) (source : ViewSource) (owner : Option ItemId) (policy : ReleasePolicy)
    (flags : ViewFlags) : Staged ItemId := do
  let v ← handing (Hold.ofOwner owner ++ source.holds) <|
    look fun m => View.build m.pool l source owner policy flags
  modifyGet fun m => m.put (.view v)

/-- Makes a view of a buffer, which it attaches itself. The view that is made through the new reference
is checked once more, and if it is refused the reference goes. -/
def viewOver (l : Layout) (id : BufferId) (owner : Option ItemId) (policy : ReleasePolicy) :
    Staged ItemId := do
  handing (Hold.ofOwner owner) do
    look fun m => View.checkBuffer m.pool id l
    attach id
  newView l (.managed (some id)) owner policy (ViewFlags.ofLayout l)

/-- Pins the buffer of a view, if it has one. -/
def pinView (v : View) : Staged (Option BufferId) :=
  match v.source with
  | .managed none => throw .released
  | .managed (some id) => do
    pin id
    return some id
  | .aliased _ => return none

/-- Counts an export. A view that was released in the meantime takes the count and the pin back. -/
def countExport (i : ItemId) (pinned : Option BufferId) : Staged Unit := do
  alterView i View.exported
  if (← view i).isReleased then
    alterView i View.unexported
    giveUp (pinned.map fun id => Hold.buffer id .pin).toList
    throw .released

/-- Starts an export. -/
def acquire (i : ItemId) : Staged (Option BufferId) := do
  let v ← view i
  Visit.ofExcept v.checkReleased
  let pinned ← pinView v
  countExport i pinned
  modify (·.share i)
  return pinned

/-- The view, flagged as released or not. -/
def flagged (released : Bool) (v : View) : View := { v with flags := { v.flags with released } }

/-- The view without its reference. -/
def detached (v : View) : View :=
  { v with source := match v.source with
      | .managed _ => .managed none
      | .aliased bytes => .aliased bytes }

/-- Checks a flagged view once more: where its policy forbids the release, the flag is taken back. -/
def recheck (i : ItemId) : Staged Unit := do
  let v ← view i
  if v.policy = .rejectWhileExported ∧ v.exports > 0 then
    alterView i (flagged false)
    throw (.exportsOutstanding v.exports)

/-- The view without its owner. -/
def disowned (v : View) : View := { v with owner := none }

/-- Gives up what a view holds: its reference, and then its owner. -/
def letGo (i : ItemId) : Staged Unit := do
  let v ← view i
  alterView i detached
  giveUp (v.buffer?.map fun id => Hold.buffer id .reference).toList
  let v ← view i
  alterView i disowned
  giveUp (v.owner.map Hold.share).toList

/-- Releases a view; whether this call released it. -/
def release (i : ItemId) : Staged Bool := do
  if (← view i).isReleased then
    return false
  Visit.ofExcept (← view i).checkReleasable
  let before ← view i
  alterView i (flagged true)
  if before.isReleased then
    return false
  recheck i
  letGo i
  return true

/-- The region with an item replaced in place, or as it is where that fails. -/
def replaced (l : Layout) (region : List UInt8) (index : List Nat) (item : List UInt8) :
    Except ViewError Unit × List UInt8 :=
  match Region.writeItem l region index item with
  | .ok new => (.ok (), new)
  | .error e => (.error e, region)

/-- Replaces the item of a view in the bytes of its buffer. -/
def writeItem (i : ItemId) (index : List Nat) (item : List UInt8) : Staged Unit := do
  let v ← view i
  Visit.ofExcept v.checkReleased
  if v.layout.readOnly then
    throw .readOnly
  match v.source with
  | .managed none => throw .released
  | .managed (some id) => do
    let region ← look fun m => (m.pool.writableBytes id).mapError .buffer
    let (result, left) := replaced v.layout region index item
    modify fun m => { m with pool := m.pool.overwrite id left }
    Visit.ofExcept result
  | .aliased _ => throw .readOnly

def readItem (i : ItemId) (index : List Nat) : Staged (List UInt8) := do
  let v ← view i
  look fun m => v.readItem m.pool index

def read (i : ItemId) : Staged (List UInt8) := do
  let v ← view i
  look fun m => v.read m.pool

/-- The hash of a view. It is remembered unless the view has come to remember one. -/
def contentHash (i : ItemId) : Staged Int := do
  let v ← view i
  Visit.ofExcept v.checkReleased
  if !v.layout.readOnly then
    throw .notHashable
  match v.cachedHash with
  | some h => return h
  | none =>
    let h := View.hashOf (← read i)
    match (← view i).cachedHash with
    | some h => return h
    | none =>
      alterView i (·.withHash h)
      return h

/-! ### How stages run -/

variable {γ : Type} {m m' : Memory} {x : Staged α} {f : α → Staged β} {a : α} {e : ViewError}
  {i : ItemId} {v : View} {id : BufferId}

theorem run_bind_ok (hx : x.run.run m = (.ok a, m')) : (x >>= f).run.run m = (f a).run.run m' := by
  rw [Visit.run_bind, hx]

theorem run_bind_error (hx : x.run.run m = (.error e, m')) :
    (x >>= f).run.run m = (.error e, m') := by
  rw [Visit.run_bind, hx]

/-- Looking at the memory leaves it as it is. -/
theorem run_look (g : Memory → Except ViewError α) (m : Memory) :
    (look g).run.run m = (g m, m) := rfl

theorem run_view (hv : m.view? i = some v) : (view i).run.run m = (.ok v, m) := by
  rw [view, run_look, Memory.viewAt, hv]

theorem run_alterView (f : View → View) (m : Memory) :
    (alterView i f).run.run m = (.ok (), m.alterView i f) := rfl

theorem view?_alterView_self (hv : m.view? i = some v) (f : View → View) :
    (m.alterView i f).view? i = some (f v) := by
  rw [Memory.view?_alterView, if_pos rfl, hv, Option.map_some]

theorem run_alterBuffer (f : Buffer → Buffer) (m : Memory) : (alterBuffer id f).run.run m =
    (.ok (), { m with pool.buffers := Numbered.update f m.pool.buffers id }) := rfl

theorem run_giveUp (holds : List Hold) (m : Memory) :
    (giveUp holds).run.run m = (.ok (), m.giveUp holds) := rfl

/-- An operation done at once: where it fails, it leaves the memory as it was. -/
def atOnce (op : Memory → Except ViewError (α × Memory)) (m : Memory) : Except ViewError α × Memory :=
  match op m with
  | .ok (a, m') => (.ok a, m')
  | .error e => (.error e, m)

theorem atOnce_ok {op : Memory → Except ViewError (α × Memory)} (h : op m = .ok (a, m')) :
    atOnce op m = (.ok a, m') := by
  rw [atOnce, h]

theorem atOnce_error {op : Memory → Except ViewError (α × Memory)} (h : op m = .error e) :
    atOnce op m = (.error e, m) := by
  rw [atOnce, h]

/-- What is handed nothing has nothing to give up. -/
theorem atOnce_eq_orGiveUp (op : Memory → Except ViewError (α × Memory)) (m : Memory) :
    atOnce op m = m.orGiveUp [] (op m) := by
  rw [atOnce]
  rcases op m with e | r
  · exact congrArg (Prod.mk _) m.giveUp_nil.symm
  · rfl

theorem run_look_atOnce (g : Memory → Except ViewError α) (m : Memory) :
    (look g).run.run m = atOnce (fun m => do return (← g m, m)) m := by
  rw [run_look, atOnce]
  cases g m <;> rfl

/-- A call that looks at the memory and goes on as an operation that is done at once is one itself. -/
theorem run_look_bind {g : Memory → Except ViewError γ} {f : γ → Staged α}
    {op : γ → Memory → Except ViewError (α × Memory)}
    (h : ∀ c, g m = .ok c → (f c).run.run m = atOnce (op c) m) :
    (look g >>= f).run.run m = atOnce (fun m => g m >>= fun c => op c m) m := by
  cases hg : g m with
  | error e => rw [run_bind_error (by rw [run_look, hg]), atOnce_error (by rw [hg]; rfl)]
  | ok c =>
    rw [run_bind_ok (by rw [run_look, hg]), h c hg, atOnce, atOnce, hg]
    rfl

theorem run_view_bind {f : View → Staged α} {op : View → Memory → Except ViewError (α × Memory)}
    (h : ∀ v, m.view? i = some v → (f v).run.run m = atOnce (op v) m) :
    (view i >>= f).run.run m = atOnce (fun m => m.viewAt i >>= fun v => op v m) m := by
  refine run_look_bind fun v hv => h v ?_
  rw [Memory.viewAt] at hv
  split at hv
  · cases hv
  · next hget => exact hget.trans (congrArg some (Except.ok.inj hv))

theorem run_check_bind {r : Except ViewError γ} {f : γ → Staged α}
    {op : γ → Memory → Except ViewError (α × Memory)}
    (h : ∀ c, r = .ok c → (f c).run.run m = atOnce (op c) m) :
    (Visit.ofExcept r >>= f).run.run m = atOnce (fun m => r >>= fun c => op c m) m :=
  run_look_bind (g := fun _ => r) h

/-- A call that ends in stages that cannot fail is done at once if what comes before is. -/
theorem run_bind_sure {op : Memory → Except ViewError (α × Memory)} (rest : α × Memory → β × Memory)
    (hx : x.run.run m = atOnce op m)
    (hf : ∀ r, op m = .ok r → (f r.1).run.run r.2 = (.ok (rest r).1, (rest r).2)) :
    (x >>= f).run.run m = atOnce (fun m => do return rest (← op m)) m := by
  rw [atOnce] at hx
  cases hop : op m with
  | error e =>
    rw [hop] at hx
    rw [run_bind_error hx, atOnce_error (by rw [hop]; rfl)]
  | ok r =>
    rw [hop] at hx
    rw [run_bind_ok hx, hf r hop, atOnce_ok]
    rw [hop]
    rfl

theorem atOnce_congr {op op' : Memory → Except ViewError (α × Memory)} (h : op m = op' m) :
    atOnce op m = atOnce op' m := by
  rw [atOnce, atOnce, h]

/-! ### What the stages come to -/

/-- Stages that end with a new hold on a buffer take it where the buffer has not been torn down. -/
theorem run_hold {h : BufferHold} {take : Staged Unit} (htake : take.run.run m =
      (.ok (), { m with pool.buffers := Numbered.update (·.gain h) m.pool.buffers id })) :
    (liveBuffer id >>= fun _ => take).run.run m =
      atOnce (fun m => do return ((), { m with pool := ← (m.pool.hold id h).mapError .buffer })) m := by
  cases hl : m.pool.live id with
  | error e =>
    rw [run_bind_error (by rw [liveBuffer, run_look, hl]; rfl), atOnce_error]
    rw [Pool.hold, hl]
    rfl
  | ok b =>
    rw [run_bind_ok (by rw [liveBuffer, run_look, hl]; rfl), htake, atOnce_ok]
    rw [Pool.hold, hl]
    rfl

theorem run_attach (id : BufferId) (m : Memory) : (attach id).run.run m =
    atOnce (fun m => do return ((), { m with pool := ← (m.pool.attach id).mapError .buffer })) m := by
  refine run_hold (h := .reference) ?_
  rw [run_bind_ok (run_alterBuffer ..), run_alterBuffer]
  simp only [Numbered.update_update]
  rfl

theorem run_pin (id : BufferId) (m : Memory) : (pin id).run.run m =
    atOnce (fun m => do return ((), { m with pool := ← (m.pool.pin id).mapError .buffer })) m :=
  run_hold (h := .pin) (run_alterBuffer ..)

theorem run_exportBuffer (parent start stop : Nat) (registry : Option RegistryId) (m : Memory) :
    (exportBuffer parent start stop registry).run.run m =
      atOnce (fun m => do
        let (s, pool) ← (m.pool.exportRange parent start stop).mapError .buffer
        let made := pool.create s registry
        return (made.1, { m with pool := made.2 })) m := by
  have hlook : (exportBuffer parent start stop registry).run.run m = _ := Visit.run_bind ..
  rw [hlook, run_look]
  clear hlook
  cases hget : m.pool.get? parent with
  | none =>
    rw [atOnce_error]
    rw [Pool.exportRange, hget]
    rfl
  | some b =>
    by_cases hrange : start > stop ∨ stop > b.length
    · simp only [if_pos hrange]
      rw [atOnce_error (e := .buffer (.outOfRange start stop b.length))]
      · rfl
      · rw [Pool.exportRange, hget]
        simp only [if_pos hrange]
        rfl
    · simp only [if_neg hrange]
      refine (run_bind_sure (fun r =>
        let made := r.2.pool.create ⟨.exported parent start, stop - start, b.readOnly⟩ registry
        (made.1, { r.2 with pool := made.2 })) (run_pin parent m) fun r _ => rfl).trans (atOnce_congr ?_)
      rw [Pool.exportRange, hget]
      simp only [if_neg hrange]
      cases m.pool.pin parent <;> rfl

/-- Stages that are done at once leave, where they fail, what they were handed given up. -/
theorem run_handing {op : Memory → Except ViewError (α × Memory)} (hx : x.run.run m = atOnce op m)
    (holds : List Hold) : (handing holds x).run.run m = m.orGiveUp holds (op m) := by
  have hrun : (handing holds x).run.run m = match x.run.run m with
    | (.ok a, m) => (.ok a, m)
    | (.error e, m) => (.error e, m.giveUp holds) := rfl
  rw [hrun, hx, atOnce]
  rcases op m with e | r <;> rfl

theorem run_newView (l : Layout) (source : ViewSource) (owner : Option ItemId) (policy : ReleasePolicy)
    (flags : ViewFlags) (m : Memory) :
    (newView l source owner policy flags).run.run m = m.newView l source owner policy flags := by
  have hhanded := run_handing
    (run_look_atOnce (fun m => View.build m.pool l source owner policy flags) m)
    (Hold.ofOwner owner ++ source.holds)
  cases hbuild : View.build m.pool l source owner policy flags with
  | error e =>
    simp only [hbuild] at hhanded
    rw [newView, run_bind_error hhanded, Memory.newView, hbuild]
    rfl
  | ok v =>
    simp only [hbuild] at hhanded
    rw [newView, run_bind_ok hhanded, Memory.newView, hbuild]
    rfl

/-- A view of a buffer is never refused once its reference is attached: what is checked then was
checked before. -/
theorem run_viewOver (l : Layout) (id : BufferId) (owner : Option ItemId) (policy : ReleasePolicy)
    (m : Memory) : (viewOver l id owner policy).run.run m = m.viewOver l id owner policy := by
  have hhanded := run_handing
    (run_look_bind (g := fun m => View.checkBuffer m.pool id l) fun _ _ => run_attach id m)
    (Hold.ofOwner owner)
  cases hcheck : View.checkBuffer m.pool id l with
  | error e =>
    simp only [hcheck] at hhanded
    rw [viewOver, run_bind_error hhanded, Memory.viewOver, hcheck]
    rfl
  | ok =>
    obtain ⟨p, hattach⟩ := Memory.exists_attach_of_checkBuffer hcheck
    simp only [hcheck, hattach] at hhanded
    rw [viewOver, run_bind_ok hhanded, run_newView,
      Memory.viewOver_eq_ok_iff.mpr ⟨hcheck, p, hattach, rfl⟩]
    exact Memory.newView_eq_ok_iff.mpr ⟨Memory.build_of_attach hcheck hattach, rfl⟩

/-- The flag that is looked at once the export is counted is the one that was looked at before. -/
theorem run_countExport (hv : m.view? i = some v) (hl : v.isReleased = false)
    (pinned : Option BufferId) :
    (countExport i pinned).run.run m = (.ok (), m.setView i v.exported) := by
  have hlive : ¬v.exported.isReleased = true := by
    rw [show v.exported.isReleased = v.isReleased from rfl, hl]
    exact Bool.false_ne_true
  rw [countExport, run_bind_ok (run_alterView ..),
    run_bind_ok (run_view (view?_alterView_self hv View.exported)), if_neg hlive,
    Memory.setView_eq_alterView hv View.exported]
  rfl

/-- The pin that an export of a view takes, if its bytes are in a buffer. -/
def pinned (v : View) (m : Memory) : Except ViewError (Option BufferId × Memory) :=
  match v.source with
  | .managed none => .error .released
  | .managed (some id) => do return (some id, { m with pool := ← (m.pool.pin id).mapError .buffer })
  | .aliased _ => .ok (none, m)

theorem run_pinView (v : View) (m : Memory) : (pinView v).run.run m = atOnce (pinned v) m := by
  unfold pinView pinned
  cases v.source with
  | aliased bytes => rfl
  | managed buffer =>
    cases buffer with
    | none => rfl
    | some id =>
      dsimp only
      refine (run_bind_sure (fun r => (some id, r.2)) (run_pin id m) fun r _ => rfl).trans
        (atOnce_congr ?_)
      cases m.pool.pin id <;> rfl

theorem view?_pinned {r : Option BufferId × Memory} (h : pinned v m = .ok r) (i : ItemId) :
    r.2.view? i = m.view? i := by
  rw [pinned] at h
  split at h
  · cases h
  · obtain ⟨p, -, heq⟩ := bind_eq_ok_iff.mp h
    cases heq
    rfl
  · cases h
    rfl

theorem acquire_eq (m : Memory) (i : ItemId) (v : View) : m.acquire i v = do
    v.checkReleased
    let r ← pinned v m
    return (r.1, (r.2.setView i v.exported).share i) := by
  rw [Memory.acquire, pinned, View.buffer?]
  cases v.source with
  | aliased bytes => rfl
  | managed buffer =>
    cases buffer with
    | none => rfl
    | some id =>
      dsimp only
      cases m.pool.pin id <;> rfl

theorem run_acquire (i : ItemId) (m : Memory) : (acquire i).run.run m =
    atOnce (fun m => m.viewAt i >>= fun v => m.acquire i v) m := by
  simp only [acquire_eq]
  refine run_view_bind fun v hv => run_check_bind fun _ hlive => ?_
  refine run_bind_sure (fun r => (r.1, (r.2.setView i v.exported).share i))
    (run_pinView v m) fun r hr => ?_
  have hv' : r.2.view? i = some v := by rw [view?_pinned hr, hv]
  exact run_bind_ok (run_countExport hv' (View.checkReleased_eq_ok_iff.mp hlive) r.1)

/-- The count that is looked at once the view is flagged is the one that was looked at before. -/
theorem run_recheck (hv : m.view? i = some v) (hcheck : v.checkReleasable = .ok ()) :
    (recheck i).run.run m = (.ok (), m) := by
  have hreleasable : ¬(v.policy = .rejectWhileExported ∧ v.exports > 0) := by
    intro h
    rw [View.checkReleasable, if_pos h] at hcheck
    cases hcheck
  rw [recheck, run_bind_ok (run_view hv), if_neg hreleasable]
  rfl

/-- Giving up the reference of a view touches no item. -/
theorem alterView_giveUp_reference (m : Memory) (buffer : Option BufferId) (f : View → View) :
    (m.giveUp (buffer.map fun id => Hold.buffer id .reference).toList).alterView i f =
      (m.alterView i f).giveUp (buffer.map fun id => Hold.buffer id .reference).toList := by
  cases buffer with
  | none =>
    simp only [Option.map_none, Option.toList_none, Memory.giveUp_nil]
  | some id =>
    simp only [Option.map_some, Option.toList_some, Memory.giveUp_buffer]
    rfl

theorem run_letGo (hv : m.view? i = some v) : (letGo i).run.run m =
    (.ok (), (m.alterView i fun v => disowned (detached v)).giveUp v.holds) := by
  have hdetached : ((m.alterView i detached).giveUp
      (v.buffer?.map fun id => Hold.buffer id .reference).toList).view? i = some (detached v) := by
    rw [Memory.view?_giveUp, view?_alterView_self hv]
  rw [letGo, run_bind_ok (run_view hv), run_bind_ok (run_alterView ..), run_bind_ok (run_giveUp ..),
    run_bind_ok (run_view hdetached), run_bind_ok (run_alterView ..), run_giveUp,
    alterView_giveUp_reference, Memory.alterView_alterView, ← Memory.giveUp_append]
  rfl

theorem run_release (i : ItemId) (m : Memory) : (release i).run.run m =
    atOnce (fun m => m.viewAt i >>= fun v => m.release i v) m := by
  refine run_view_bind fun v hv => ?_
  unfold Memory.release
  by_cases hr : v.isReleased = true
  · simp only [if_pos hr]
    rfl
  simp only [if_neg hr]
  rw [run_bind_ok (run_view hv)]
  refine run_check_bind fun _ hcheck => ?_
  change _ = atOnce (fun m => .ok (true, (m.setView i v.released).giveUp v.holds)) m
  have hflagged := view?_alterView_self hv (flagged true)
  rw [run_bind_ok (run_view hv), run_bind_ok (run_alterView ..), if_neg hr,
    run_bind_ok (run_recheck hflagged hcheck), run_bind_ok (run_letGo hflagged),
    Memory.alterView_alterView, atOnce_ok rfl, Memory.setView_eq_alterView hv View.released]
  rfl

/-! #### Access -/

theorem run_writeItem (hs : SizedBuffers m.pool.buffers) (i : ItemId) (index : List Nat)
    (item : List UInt8) : (writeItem i index item).run.run m =
      atOnce (fun m => m.viewAt i >>= fun v => do return ((), ← m.writeItem v index item)) m := by
  refine run_view_bind fun v hv => ?_
  unfold Memory.writeItem View.writeItem
  simp only [bind_assoc]
  refine run_check_bind fun _ _ => ?_
  split
  · rfl
  cases hsource : v.source with
  | aliased bytes => rfl
  | managed buffer =>
    cases buffer with
    | none => rfl
    | some id =>
      dsimp only
      refine Eq.trans (b := atOnce (fun m => do
          let region ← (m.pool.writableBytes id).mapError .buffer
          let new ← Region.writeItem v.layout region index item
          return ((), { m with pool := m.pool.overwrite id new })) m)
        (run_look_bind fun region hregion => ?_) (atOnce_congr ?_)
      · have hbytes := Client.bytes_of_writableBytes (mapError_eq_ok_iff.mp hregion)
        rw [replaced]
        cases Region.writeItem v.layout region index item with
        | ok new => rfl
        | error e =>
          -- the bytes that are put back are those that were there
          have hput : m.pool.overwrite id region = m.pool := by
            rw [Pool.overwrite, writeBytes_self hs hbytes]
          change (Except.error e, { m with pool := m.pool.overwrite id region }) = (Except.error e, m)
          rw [hput]
      · simp only [bind_assoc, pure_bind]

theorem run_readItem (i : ItemId) (index : List Nat) (m : Memory) : (readItem i index).run.run m =
    atOnce (fun m => m.viewAt i >>= fun v => do return (← v.readItem m.pool index, m)) m :=
  run_view_bind fun _ _ => run_look_atOnce ..

theorem run_read (i : ItemId) (m : Memory) : (read i).run.run m =
    atOnce (fun m => m.viewAt i >>= fun v => do return (← v.read m.pool, m)) m :=
  run_view_bind fun _ _ => run_look_atOnce ..

/-- A view that remembers a hash stays as it is when it is hashed. -/
theorem setView_cached {h : Int} (hv : m.view? i = some v) (hcached : v.cachedHash = some h)
    (hne : h ≠ -1) : m.setView i (v.withHash h) = m := by
  have hsame : v.withHash h = v := by rw [View.withHash, if_neg hne, ← hcached]
  rw [hsame, Memory.setView_eq_alterView hv fun v => v, Memory.alterView_eq_self fun _ _ => rfl]

theorem run_contentHash (hhash : ∀ v, m.view? i = some v → v.cachedHash ≠ some (-1)) :
    (contentHash i).run.run m = atOnce (fun m => m.viewAt i >>= fun v => m.contentHash i v) m := by
  refine run_view_bind fun v hv => ?_
  unfold Memory.contentHash View.contentHash
  simp only [bind_assoc]
  refine run_check_bind fun _ _ => ?_
  split
  · rfl
  cases hcached : v.cachedHash with
  | some h =>
    have hne : h ≠ -1 := fun heq => hhash v hv (heq ▸ hcached)
    -- the operation remembers the hash once more
    rw [atOnce_ok rfl, setView_cached hv hcached hne]
    rfl
  | none =>
    have hread : (read i).run.run m = (v.read m.pool, m) := by
      rw [read, run_bind_ok (run_view hv), run_look]
    dsimp only
    cases hbytes : v.read m.pool with
    | error e =>
      rw [hbytes] at hread
      rw [run_bind_error hread, atOnce_error (by rw [hbytes]; rfl)]
    | ok bytes =>
      rw [hbytes] at hread
      rw [run_bind_ok hread, run_bind_ok (run_view hv), hcached, atOnce_ok (by rw [hbytes]; rfl),
        Memory.setView_eq_alterView hv (·.withHash (View.hashOf bytes))]
      rfl

end Staged
end StridedViews
