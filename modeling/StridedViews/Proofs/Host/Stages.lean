import StridedViews.Proofs.Host.Guest
import StridedViews.Proofs.Sharing.Stages

/-!
Making views stage by stage. A host checks the rank, has its memory check and attach, counts the view,
and, where it has made a buffer, drops the handle of that buffer however the rest ends. The makings are
written here as these stages, on a host that keeps what was done before a stage fails, and each does what
the operation does that the host is given as (`Host.Staged.run_of`).
-/

namespace StridedViews

namespace Host

/-- A program that works on a host stage by stage. What the stages before a failing one did stays. -/
abbrev Staged (α : Type) := Visit HostError Host α

namespace Staged

variable {α : Type}

/-- Looks at the host, which may show that the program fails. -/
def look (f : Host → Except HostError α) : Staged α := do Visit.ofExcept (f (← get))

/-- Does stages on the memory of the host. -/
def onMemory (x : StridedViews.Staged α) : Staged α := ExceptT.mk fun h =>
  let (result, memory) := x.run.run h.memory
  (result.mapError .view, { h with memory })

/-- Does something to the host in the end, however the stages end. -/
def lastly (x : Staged α) (f : Host → Host) : Staged α := ExceptT.mk fun h =>
  let (result, h) := x.run.run h
  (result, f h)

/-- Does stages that are handed some holds: if one of them fails, the holds are given up. -/
def handing (holds : List Hold) (x : Staged α) : Staged α := ExceptT.mk fun h =>
  match x.run.run h with
  | (.ok a, h) => (.ok a, h)
  | (.error e, h) => (.error e, h.giveUp holds)

/-- Makes a view by stages on the memory, which are handed the owner, once the rank is checked, and
counts it. -/
def counted (l : Layout) (owner : Option ItemId) (x : ReleasePolicy → StridedViews.Staged ItemId) :
    Staged ItemId := do
  handing (Hold.ofOwner owner) (look (·.checkRank l))
  let policy ← look fun h => .ok h.config.releasePolicy
  let i ← onMemory (x policy)
  modify fun h => h.countView h.memory
  return i

/-- Makes a view over a buffer. -/
def overBuffer (l : Layout) (id : BufferId) (owner : Option ItemId) : Staged ItemId :=
  counted l owner (.viewOver l id owner)

/-- Makes a view of read-only bytes. -/
def aliased (l : Layout) (bytes : List UInt8) (owner : Option ItemId) : Staged ItemId :=
  counted l owner fun policy => .newView l (.aliased bytes) owner policy (ViewFlags.ofLayout l)

/-- Makes a buffer of some bytes, held by one handle. -/
def makeBuffer (bytes : List UInt8) : Staged BufferId :=
  modifyGet fun h => (Numbered.next h.memory.pool.buffers, h.withBuffer bytes)

/-- Makes a buffer of some bytes and a view over it. The handle goes in the end. -/
def owned (bytes : List UInt8) (l : Layout) : Staged ItemId := do
  let id ← makeBuffer bytes
  (overBuffer l id none).lastly (·.dropHandle id)

/-- The buffer interface of an object. -/
def bufferOf (o : HostObject) : Except HostError ByteSource :=
  match o.bytes with
  | none => .error (.missingInterface o.typeName .buffer)
  | some source => .ok source

/-- The stages of a making. -/
def of : Making → Staged ItemId
  | .overBuffer l id owner => overBuffer l id owner
  | .aliased l bytes owner => aliased l bytes owner
  | .allocate formatText shape => do
    let l ← look fun h =>
      (Layout.rowMajor formatText shape h.config.defaultReadOnly).mapError .layout
    owned (List.replicate l.length 0) l
  | .adopt bytes parts => do
    let l ← look fun _ => (Layout.ofParts parts).mapError .layout
    owned bytes l
  | .ofObject i o => do
    let source ← look fun _ => bufferOf o
    let bytes ← look fun h => (h.memory.bytesOf source).mapError .view
    modify (·.lend (some i))
    aliased (Layout.bytes bytes.length true) bytes (some i)

/-! ### How stages run -/

variable {h : Host} {l : Layout}

theorem run_look (f : Host → Except HostError α) (h : Host) : (look f).run h = (f h, h) := rfl

theorem run_look_of_ok {β : Type} {f : Host → Except HostError α} {k : α → Staged β} {a : α}
    (h' : f h = .ok a) : (look f >>= k).run h = (k a).run h :=
  run_bind_of_ok (by rw [run_look, h'])

theorem run_look_of_error {β : Type} {f : Host → Except HostError α} {k : α → Staged β}
    {e : HostError} (h' : f h = .error e) : (look f >>= k).run h = (.error e, h) :=
  run_bind_of_error (by rw [run_look, h'])

theorem run_onMemory (x : StridedViews.Staged α) (h : Host) :
    (onMemory x).run h =
      ((x.run.run h.memory).1.mapError .view, { h with memory := (x.run.run h.memory).2 }) := rfl

theorem run_handing_of_ok {x : Staged α} {a : α} {h' : Host} (hx : x.run h = (.ok a, h'))
    (holds : List Hold) : (handing holds x).run h = (.ok a, h') := by
  have hrun : (handing holds x).run h = match x.run h with
    | (.ok a, h) => (.ok a, h)
    | (.error e, h) => (.error e, h.giveUp holds) := rfl
  rw [hrun, hx]

theorem run_handing_of_error {x : Staged α} {e : HostError} {h' : Host} (hx : x.run h = (.error e, h'))
    (holds : List Hold) : (handing holds x).run h = (.error e, h'.giveUp holds) := by
  have hrun : (handing holds x).run h = match x.run h with
    | (.ok a, h) => (.ok a, h)
    | (.error e, h) => (.error e, h.giveUp holds) := rfl
  rw [hrun, hx]

/-- What the stages on the memory come to, the host makes of it what it makes of an operation. -/
theorem run_counted {owner : Option ItemId} {x : ReleasePolicy → StridedViews.Staged ItemId}
    {make : ReleasePolicy → Memory → Except ViewError ItemId × Memory}
    (hx : ∀ policy m, (x policy).run.run m = make policy m) (l : Layout) (h : Host) :
    (counted l owner x).run h = h.makeView l owner (make h.config.releasePolicy) := by
  have hlook := run_look (·.checkRank l) h
  have hmemory := run_onMemory (x h.config.releasePolicy) h
  rw [hx] at hmemory
  rw [counted, makeView]
  cases hrank : h.checkRank l with
  | error e =>
    rw [hrank] at hlook
    exact run_bind_of_error (run_handing_of_error hlook _)
  | ok =>
    rw [hrank] at hlook
    refine (run_bind_of_ok (run_handing_of_ok hlook _)).trans ((run_look_of_ok rfl).trans ?_)
    generalize make h.config.releasePolicy h.memory = made at hmemory ⊢
    obtain ⟨e | i, m⟩ := made
    · exact run_bind_of_error hmemory
    · exact run_bind_of_ok hmemory

theorem run_overBuffer (l : Layout) (id : BufferId) (owner : Option ItemId) (h : Host) :
    (overBuffer l id owner).run h = h.viewOver l id owner :=
  run_counted (StridedViews.Staged.run_viewOver l id owner) l h

theorem run_aliased (l : Layout) (bytes : List UInt8) (owner : Option ItemId) (h : Host) :
    (aliased l bytes owner).run h = h.viewAliased l bytes owner :=
  run_counted (fun policy => StridedViews.Staged.run_newView l (.aliased bytes) owner policy _) l h

theorem run_owned (bytes : List UInt8) (l : Layout) (h : Host) :
    (owned bytes l).run h = h.viewOwned bytes l := by
  have hover := run_overBuffer l (Numbered.next h.memory.pool.buffers) none (h.withBuffer bytes)
  have hrun : (owned bytes l).run h =
      (((overBuffer l (Numbered.next h.memory.pool.buffers) none).run (h.withBuffer bytes)).1,
        ((overBuffer l (Numbered.next h.memory.pool.buffers) none).run (h.withBuffer bytes)).2.dropHandle
          (Numbered.next h.memory.pool.buffers)) := rfl
  rw [hrun, hover, viewOwned_eq]

/-- A layout that has to be built first. -/
theorem run_look_layout {x : Host → Except LayoutError Layout} {f : Layout → Staged ItemId} :
    (look (fun h => (x h).mapError .layout) >>= f).run h =
      match x h with
      | .ok l => (f l).run h
      | .error e => (.error (.layout e), h) := by
  cases hl : x h with
  | error e => exact run_look_of_error (mapError_of_error hl)
  | ok l => exact run_look_of_ok (mapError_eq_ok_iff.mpr hl)

/-- The stages of a making come to what the host is said to make. -/
theorem run_of (making : Making) (h : Host) : (of making).run h = h.make making := by
  cases making with
  | overBuffer l id owner => exact run_overBuffer l id owner h
  | aliased l bytes owner => exact run_aliased l bytes owner h
  | allocate formatText shape =>
    rw [of, run_look_layout]
    simp only [run_owned]
    rfl
  | adopt bytes parts =>
    rw [of, run_look_layout]
    simp only [run_owned]
    rfl
  | ofObject i o =>
    rw [of, make, viewOfObject]
    cases hsource : o.bytes with
    | none => exact run_look_of_error (by rw [bufferOf, hsource])
    | some source =>
      rw [run_look_of_ok (show bufferOf o = .ok source by rw [bufferOf, hsource])]
      cases hbytes : h.memory.bytesOf source with
      | error e =>
        rw [run_look_of_error (mapError_of_error hbytes)]
        dsimp only
        rw [hbytes]
      | ok bytes =>
        have hlent : (modify (·.lend (some i)) : Staged PUnit).run h = (.ok (), h.lend (some i)) := rfl
        rw [run_look_of_ok (mapError_eq_ok_iff.mpr hbytes), run_bind_of_ok hlent, run_aliased]
        dsimp only
        rw [hbytes]

end Staged

end Host

end StridedViews
