import StridedViews.Config
import StridedViews.Dispatch.Site
import StridedViews.Layout.Build
import StridedViews.Sharing.Memory

/-!
Hosts: a memory with a configuration, and the operations that make, read and release views under
it. A host counts what it does, enters the buffers that it makes itself into a registry of its own if
it is configured to track them, and reports misuse of released and exported views through a raise
handler.
-/

namespace StridedViews

/-- The interfaces that an operation may need of an object. -/
inductive Interface where
  | buffer | release
  deriving DecidableEq, Repr

def Interface.name : Interface → String
  | buffer => "buffer"
  | release => "release"

/-- Why an operation of a host fails. -/
inductive HostError where
  | layout (e : LayoutError)
  | buffer (e : BufferError)
  | view (e : ViewError)
  | dispatch (e : DispatchError)
  | raised (r : Raised)
  | missingInterface (typeName : String) (i : Interface)
  | config (e : ConfigError)

namespace HostError

/-- The text of a host error, which says where an embedded error comes from. -/
def message : HostError → String
  | layout e => "descriptor error: " ++ e.message
  | buffer e => "buffer error: " ++ e.message
  | view e => "view error: " ++ e.message
  | dispatch e => "dispatch error: " ++ e.message
  | raised r => r.message
  | missingInterface typeName i => s!"'{typeName}' does not support the {i.name} interface"
  | config e => "configuration error: " ++ e.message

/-- The kind of error that a caller sees. -/
def kind : HostError → ErrorKind
  | layout e => e.kind
  | buffer e => e.kind
  | view e => e.kind
  | dispatch e => e.kind
  | raised r => r.kind
  | missingInterface .. => .typeError
  | config _ => .valueError

end HostError

/-- What a host has done. -/
structure HostMetrics where
  viewsCreated : Nat := 0
  viewsReleased : Nat := 0
  /-- Bytes copied out by reads. -/
  bytesMaterialized : Nat := 0
  /-- Releases that a policy refused. -/
  releaseErrors : Nat := 0
  deriving DecidableEq, Repr, Inhabited

namespace HostMetrics

/-- Views created and not yet released by the host. -/
def outstanding (m : HostMetrics) : Nat := m.viewsCreated - m.viewsReleased

/-- One line for a reader, with the statistics of the host's registry if there are any. -/
def summary (m : HostMetrics) (buffers : Option ReleaseStats) : String :=
  let views :=
    s!"views: {m.viewsCreated} created, {m.viewsReleased} released, {m.outstanding} outstanding"
  let refused := if m.releaseErrors = 0 then [] else [s!"{m.releaseErrors} refused releases"]
  let buffers := buffers.toList.map ReleaseStats.summary
  "; ".intercalate ([views, s!"{m.bytesMaterialized} bytes materialized"] ++ refused ++ buffers)

end HostMetrics

structure Host where
  config : Config
  memory : Memory
  metrics : HostMetrics := {}
  deriving DecidableEq, Repr

namespace Host

/-- The registry that a host's clients make buffers through. -/
def clientRegistry : RegistryId := 0

/-- The registry of the host itself. -/
def ownRegistry : RegistryId := 1

/-- A host with an empty memory, if its configuration is valid. -/
def create (c : Config) : Except HostError Host := do
  c.validate.mapError .config
  return { config := c, memory := Memory.empty 2 }

/-- The registry that the host enters its buffers into, if it tracks them. -/
def registry? (h : Host) : Option RegistryId :=
  if h.config.trackStats then some ownRegistry else none

/-- The books of the host's registry, if it tracks its buffers. -/
def books? (h : Host) : Option Registry := h.registry?.map h.memory.pool.registry

/-! ### Making views -/

/-- The rank of a layout is within the host's limit. -/
def checkRank (h : Host) (l : Layout) : Except HostError Unit :=
  if l.rank > h.config.maxDimensions then
    .error (.layout (.tooManyDimensions l.rank h.config.maxDimensions))
  else
    .ok ()

/-- The host with a new memory, in which it has made one more view. -/
def countView (h : Host) (m : Memory) : Host :=
  { h with
    memory := m
    metrics := { h.metrics with viewsCreated := h.metrics.viewsCreated + 1 } }

/-- The host when the share of an owner has been added that it is to be handed. -/
def lend (h : Host) (owner : Option ItemId) : Host := { h with memory := h.memory.lend owner }

/-- Gives up holds on what is in the memory. -/
def giveUp (h : Host) (holds : List Hold) : Host := { h with memory := h.memory.giveUp holds }

/-- Has the memory make a view, which is handed the owner, if the rank is within the limit. -/
def makeView (h : Host) (l : Layout) (owner : Option ItemId)
    (make : Memory → Except ViewError ItemId × Memory) : Except HostError ItemId × Host :=
  match h.checkRank l with
  | .error e => (.error e, h.giveUp (Hold.ofOwner owner))
  | .ok () =>
    match make h.memory with
    | (.ok i, m) => (.ok i, h.countView m)
    | (.error e, m) => (.error (.view e), { h with memory := m })

/-- Makes a view over a buffer. -/
def viewOver (h : Host) (l : Layout) (id : BufferId) (owner : Option ItemId) :
    Except HostError ItemId × Host :=
  h.makeView l owner (·.viewOver l id owner h.config.releasePolicy)

/-- Makes a view of read-only bytes. -/
def viewAliased (h : Host) (l : Layout) (bytes : List UInt8) (owner : Option ItemId) :
    Except HostError ItemId × Host :=
  h.makeView l owner (·.viewAliased l bytes owner h.config.releasePolicy (ViewFlags.ofLayout l))

/-- Makes a buffer of some bytes and a view over it. The buffer's first handle is dropped at the end,
so the buffer goes with the view, or at once if the view is refused. -/
def viewOwned (h : Host) (bytes : List UInt8) (l : Layout) : Except HostError ItemId × Host :=
  let made := h.memory.pool.create (.owned bytes) h.registry?
  let h := { h with memory := { h.memory with pool := made.2 } }
  let (result, h) := h.viewOver l made.1 none
  (result, h.giveUp [.buffer made.1 .handle])

/-- Makes a zeroed buffer and a row-major view of all of it. -/
def allocate (h : Host) (formatText : String) (shape : List Nat) :
    Except HostError ItemId × Host :=
  match Layout.rowMajor formatText shape h.config.defaultReadOnly with
  | .ok l => h.viewOwned (List.replicate l.length 0) l
  | .error e => (.error (.layout e), h)

/-- Makes a buffer of some bytes and a view of them as their parts are declared. -/
def adopt (h : Host) (bytes : List UInt8) (parts : LayoutParts) :
    Except HostError ItemId × Host :=
  match Layout.ofParts parts with
  | .ok l => h.viewOwned bytes l
  | .error e => (.error (.layout e), h)

/-- Makes a flat read-only view of the bytes that an object has now. The view is handed a share of the
object, which becomes its owner. -/
def viewOfObject (h : Host) (i : ItemId) (o : HostObject) : Except HostError ItemId × Host :=
  match o.bytes with
  | none => (.error (.missingInterface o.typeName .buffer), h)
  | some source =>
    match h.memory.bytesOf source with
    | .error e => (.error (.view e), h)
    | .ok bytes => (h.lend (some i)).viewAliased (Layout.bytes bytes.length true) bytes (some i)

/-! ### Using views -/

variable {σ : Type}

/-- Raises the error of a released view. -/
def checkReleased (raise : RaiseHandler σ) (v : View) : StateM σ (Except Raised Unit) := do
  if v.isReleased then
    return .error (← raise ViewError.released.kind ViewError.released.message)
  else
    return .ok ()

/-- Reads a view; a released one fails through the raise handler. -/
def read (raise : RaiseHandler σ) (h : Host) (v : View) :
    StateM σ (Except HostError (List UInt8) × Host) := do
  match ← checkReleased raise v with
  | .error r => return (.error (.raised r), h)
  | .ok () =>
    match v.read h.memory.pool with
    | .error e => return (.error (.view e), h)
    | .ok bytes =>
      let total := h.metrics.bytesMaterialized + bytes.length
      return (.ok bytes, { h with metrics := { h.metrics with bytesMaterialized := total } })

/-- Releases a view; whether this call released it. A release that the view's policy refuses fails
through the raise handler. -/
def release (raise : RaiseHandler σ) (h : Host) (i : ItemId) (v : View) :
    StateM σ (Except HostError Bool × Host) := do
  match h.memory.release i v with
  | .ok (false, memory) => return (.ok false, { h with memory })
  | .ok (true, memory) =>
    let released := h.metrics.viewsReleased + 1
    return (.ok true, { h with memory, metrics := { h.metrics with viewsReleased := released } })
  | .error e =>
    let errors := h.metrics.releaseErrors + 1
    let r ← raise e.kind e.message
    return (.error (.raised r), { h with metrics := { h.metrics with releaseErrors := errors } })

/-- One line on what the host has done. -/
def summary (h : Host) : String := h.metrics.summary (h.books?.map (·.stats))

/-- The text of a host. -/
def describe (h : Host) : String :=
  let registry := match h.books? with
    | none => "None"
    | some books => "Some(" ++ books.describe ++ ")"
  Text.describe "ViewRuntime" [("config", h.config.describe), ("registry", registry)]

end Host
end StridedViews
