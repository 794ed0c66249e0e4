import StridedViews.Session.Basic

/-!
Steps: what a client can ask of a session. A step names the handles that it works on and the name
under which it keeps what it makes. A step that names a handle that does not exist is answered by
`noHandle` and changes nothing.
-/

namespace StridedViews

/-- How to make a store. -/
inductive StoreRecipe where
  | owned (bytes : List UInt8)
  | foreign (label : String) (bytes : List UInt8) (readOnly : Bool)
  /-- The range from `start` to `stop` of a buffer. -/
  | exported (parent : String) (start stop : Nat)
  deriving DecidableEq, Repr

/-- Who is to own a view. -/
inductive OwnerRecipe where
  | text (s : String)
  | integer (i : Int)
  deriving DecidableEq, Repr

def OwnerRecipe.thing : OwnerRecipe → Thing
  | text s => .text s
  | integer i => .integer i

/-- What to make a view over. The flags of a layout are inferred unless others are asked for. -/
inductive ViewRecipe where
  /-- A buffer, through a new reference. -/
  | onBuffer (buffer : String)
  /-- A buffer, through a reference handle, which is used up. -/
  | through (reference : String) (flags : Option ViewFlags)
  | aliased (bytes : List UInt8) (flags : Option ViewFlags)
  deriving DecidableEq, Repr

/-- How to make an object. -/
inductive ObjectRecipe where
  | plain (typeName : String)
  | bytes (bs : List UInt8)
  | view (view : String)
  /-- The interfaces of some views under a type name. -/
  | custom (typeName : String) (buffer releasable : Option String)
  | hidden (typeName : String) (bs : Option (List UInt8))
  deriving DecidableEq, Repr

inductive Step where
  -- stores and buffers
  | makeStore (r : StoreRecipe)
  | makeBuffer (name : String) (r : StoreRecipe) (registered : Bool)
  | releaseBuffer (buffer : String)
  | readBuffer (buffer : String)
  | writeBuffer (buffer : String) (start : Nat) (bytes : List UInt8)
  | pin (name buffer : String)
  | attach (name buffer : String)
  | detach (reference : String)
  -- handles
  | drop (sort : HandleSort) (name : String)
  | shareBuffer (name buffer : String)
  | shareView (name view : String)
  -- owners
  | makeOwner (name : String) (r : OwnerRecipe)
  | shareOwner (name view : String)
  -- views
  | makeView (name : String) (layout : LayoutRecipe) (owner : Option String)
      (policy : ReleasePolicy) (r : ViewRecipe)
  | read (view : String)
  | readItem (view : String) (index : List Nat)
  | writeItem (view : String) (index : List Nat) (item : List UInt8)
  | hash (view : String)
  | setHash (view : String) (hash : Int)
  | beginExport (view : String)
  | endExport (view : String)
  | acquire (name view : String)
  | releaseView (view : String)
  | check (view : String)
  | checkOrRaise (view : String)
  | shareBufferOf (name view : String)
  -- objects
  | makeObject (name : String) (r : ObjectRecipe)
  | releaseObject (object : String)
  -- the host
  | hostAllocate (name formatText : String) (shape : List Nat)
  | hostAdopt (name : String) (bytes : List UInt8) (parts : LayoutParts)
  | hostOver (name : String) (layout : LayoutRecipe) (buffer : String) (owner : Option String)
  | hostAliased (name : String) (layout : LayoutRecipe) (bytes : List UInt8)
      (owner : Option String)
  | hostOfObject (name object : String)
  | hostRead (view : String)
  | hostRelease (view : String)
  | hostCheck (view : String)
  | hostRaise (kind : ErrorKind) (text : String)
  deriving DecidableEq, Repr

/-- Why a step failed. -/
inductive StepError where
  | layout (e : LayoutError)
  | buffer (e : BufferError)
  | view (e : ViewError)
  | host (e : HostError)
  | raised (r : Raised)
  /-- Bytes to write do not fit where they should go. -/
  | doesNotFit
  | noHandle

/-- What a step answers. -/
inductive Answer where
  | done
  | flag (b : Bool)
  | bytes (bs : List UInt8)
  | integer (i : Int)
  | buffer (id : Option BufferId)
  | store (s : Store)
  /-- A new export: how many its view has now, and whether it pins a buffer. -/
  | guard (exports : Nat) (pinned : Bool)
  | failed (e : StepError)

namespace Session

variable {σ : Type}

/-! ### Handles that a step names -/

/-- Goes on with what a handle stands for, or answers that there is none. -/
def withHandle {α : Type} (s : Session σ) (found : Option α) (f : α → Answer × Session σ) :
    Answer × Session σ :=
  match found with
  | some a => f a
  | none => (.failed .noHandle, s)

/-- What an optional name stands for, unless there is a name without a handle. -/
def optional? {α : Type} (name : Option String) (find : String → Option α) :
    Option (Option α) :=
  match name with
  | none => some none
  | some name => (find name).map some

/-- The answer to an operation that returns no session if it fails. -/
def answer {ε : Type} (s : Session σ) (onError : ε → StepError)
    (result : Except ε (Answer × Session σ)) : Answer × Session σ :=
  match result with
  | .ok a => a
  | .error e => (.failed (onError e), s)

/-- Keeps a handle on an item that was made. -/
def keepView (s : Session σ) (name : String) (i : ItemId) : Answer × Session σ :=
  (.done, s.keep name (.view i))

/-! ### Stores and buffers -/

/-- Makes the store of a recipe. -/
def storeOf (s : Session σ) (r : StoreRecipe) (f : Store → Session σ → Answer × Session σ) :
    Answer × Session σ :=
  match r with
  | .owned bytes => f (Store.owned bytes) s
  | .foreign label bytes readOnly => f (Store.foreign label bytes readOnly) s
  | .exported parent start stop =>
    s.withHandle (s.buffer? parent) fun id =>
      match s.pool.exportRange id start stop with
      | .ok (store, pool) => f store (s.withPool pool)
      | .error e => (.failed (.buffer e), s)

/-- Makes a store and tears it down again. -/
def makeStore (s : Session σ) (r : StoreRecipe) : Answer × Session σ :=
  s.storeOf r fun store s => (.store store, s.withPool (s.pool.discard store))

def makeBuffer (s : Session σ) (name : String) (r : StoreRecipe) (registered : Bool) :
    Answer × Session σ :=
  s.storeOf r fun store s =>
    let registry := if registered then some Host.clientRegistry else none
    let made := s.pool.create store registry
    (.buffer (some made.1), (s.withPool made.2).keep name (.buffer made.1))

def releaseBuffer (s : Session σ) (id : BufferId) : Answer × Session σ :=
  let released := s.pool.release id
  (.flag released.1, s.withPool released.2)

/-- Puts bytes into a buffer from `start` on, and answers all its bytes. -/
def writeBuffer (s : Session σ) (id : BufferId) (start : Nat) (bytes : List UInt8) :
    Answer × Session σ :=
  match s.pool.writableBytes id with
  | .error e => (.failed (.buffer e), s)
  | .ok old =>
    if start + bytes.length ≤ old.length then
      let new := splice old start bytes
      (.bytes new, s.withPool (s.pool.overwrite id new))
    else
      (.failed .doesNotFit, s)

def pin (s : Session σ) (name : String) (id : BufferId) : Answer × Session σ :=
  s.answer .buffer do
    return (.buffer (some id), (s.withPool (← s.pool.pin id)).keep name (.pin id))

def attach (s : Session σ) (name : String) (id : BufferId) : Answer × Session σ :=
  s.answer .buffer do
    return (.done, (s.withPool (← s.pool.attach id)).keep name (.reference (some id)))

/-- Detaches a reference, whose handle stays; whether it was attached. -/
def detach (s : Session σ) (name : String) (attached : Option BufferId) : Answer × Session σ :=
  let holds := (Handle.reference attached).holds
  (.flag attached.isSome, (s.enter name (.reference none)).withMemory (s.memory.giveUp holds))

/-! ### Views -/

/-- Keeps a view that the memory made, or answers why it made none. -/
def keepMade (s : Session σ) (name : String) (made : Except ViewError ItemId × Memory) :
    Answer × Session σ :=
  let s := s.withMemory made.2
  s.answer .view do return s.keepView name (← made.1)

/-- Makes a view, once its layout is built and its owner found. The handle of the owner stays, so the
view is handed another share of it. -/
def makeViewOf (s : Session σ) (name : String) (l : Layout) (owner : Option ItemId)
    (policy : ReleasePolicy) : ViewRecipe → Answer × Session σ
  | .onBuffer buffer =>
    s.withHandle (s.buffer? buffer) fun id =>
      s.keepMade name ((s.memory.lend owner).viewOver l id owner policy)
  | .aliased bytes flags =>
    let flags := flags.getD (ViewFlags.ofLayout l)
    s.keepMade name ((s.memory.lend owner).viewAliased l bytes owner policy flags)
  | .through reference flags =>
    s.withHandle (s.reference? reference) fun attached =>
      let flags := flags.getD (ViewFlags.ofLayout l)
      (s.remove .reference reference).keepMade name
        ((s.memory.lend owner).viewThrough l attached owner policy flags)

def makeView (s : Session σ) (name : String) (layout : LayoutRecipe) (owner : Option String)
    (policy : ReleasePolicy) (r : ViewRecipe) : Answer × Session σ :=
  match layout.build with
  | .error e => (.failed (.layout e), s)
  | .ok l =>
    s.withHandle (optional? owner s.owner?) fun owner => s.makeViewOf name l owner policy r

/-- Replaces a view by one with the same holds. -/
def setView (s : Session σ) (i : ItemId) (v : View) : Session σ :=
  s.withMemory (s.memory.setView i v)

/-- Keeps a guard on a new export. The answer counts the exports before a guard that had the name is
dropped. -/
def acquire (s : Session σ) (name : String) (i : ItemId) (v : View) : Answer × Session σ :=
  s.answer .view do
    let (pinned, m) ← s.memory.acquire i v
    let answer := Answer.guard v.exported.exports pinned.isSome
    return (answer, (s.withMemory m).keep name (.guard i pinned))

def releaseView (s : Session σ) (i : ItemId) (v : View) : Answer × Session σ :=
  s.answer .view do
    let (released, m) ← s.memory.release i v
    return (.flag released, s.withMemory m)

/-- Keeps another handle on the buffer of a view, if there is one. -/
def shareBufferOf (s : Session σ) (name : String) (v : View) : Answer × Session σ :=
  match v.buffer? with
  | some id => (.buffer (some id), (s.withPool (s.pool.share id)).keep name (.buffer id))
  | none => (.buffer none, s)

/-- Keeps another handle on the owner of a view; whether there is one. -/
def shareOwner (s : Session σ) (name : String) (v : View) : Answer × Session σ :=
  match v.owner with
  | some i => (.flag true, (s.withMemory (s.memory.share i)).keep name (.owner i))
  | none => (.flag false, s)

/-! ### Objects -/

/-- The object of a recipe, unless it names a handle that does not exist. -/
def objectOf? (s : Session σ) : ObjectRecipe → Option HostObject
  | .plain typeName => some (.plain typeName)
  | .bytes bs => some (.ofBytes bs)
  | .view view => (s.view? view).map fun v => .ofView v.1
  | .custom typeName buffer releasable => do
      let buffer ← optional? buffer s.view?
      let releasable ← optional? releasable s.view?
      return ⟨typeName, buffer.map fun v => .view v.1, releasable.map (·.1)⟩
  | .hidden typeName bs => some ⟨typeName, some (.hidden bs), none⟩

def makeObject (s : Session σ) (name : String) (r : ObjectRecipe) : Answer × Session σ :=
  s.withHandle (s.objectOf? r) fun o =>
    let (i, m) := s.memory.add (.object o)
    (.done, (s.withMemory m).keep name (.object i))

def releaseObject (s : Session σ) (o : HostObject) : Answer × Session σ :=
  match o.releasable with
  | none => (.failed (.host (.missingInterface o.typeName .release)), s)
  | some i => s.withHandle (s.memory.view? i) (s.releaseView i)

/-! ### The host -/

/-- Keeps a view that the host made, or answers why it made none. -/
def keepHosted (s : Session σ) (name : String) (result : Except HostError ItemId × Host) :
    Answer × Session σ :=
  let s := { s with host := result.2 }
  s.answer .host do return s.keepView name (← result.1)

/-- Makes a view over a buffer or over bytes, once its layout is built and its owner found. The host is
handed another share of the owner. -/
def hostView (s : Session σ) (name : String) (layout : LayoutRecipe) (owner : Option String)
    (make : Host → Layout → Option ItemId → Option (Except HostError ItemId × Host)) :
    Answer × Session σ :=
  match layout.build with
  | .error e => (.failed (.layout e), s)
  | .ok l =>
    s.withHandle (optional? owner s.owner?) fun owner =>
      s.withHandle (make (s.host.lend owner) l owner) (s.keepHosted name)

/-- Runs an operation that may raise. -/
def raising {ε α : Type} (s : Session σ) (x : StateM σ (Except ε α)) (onError : ε → StepError)
    (onSuccess : α → Answer) : Answer × Session σ :=
  let (result, raiser) := x.run s.raiser
  let s := { s with raiser }
  s.answer onError do return (onSuccess (← result), s)

/-- Runs an operation of the host that may raise. -/
def hosted {α : Type} (s : Session σ) (x : StateM σ (Except HostError α × Host))
    (onSuccess : α → Answer) : Answer × Session σ :=
  let ((result, host), raiser) := x.run s.raiser
  let s := { s with host, raiser }
  s.answer .host do return (onSuccess (← result), s)

/-! ### Steps -/

/-- Does what a step asks for; errors are raised through `raise`. -/
def step (raise : RaiseHandler σ) (s : Session σ) : Step → Answer × Session σ
  | .makeStore r => s.makeStore r
  | .makeBuffer name r registered => s.makeBuffer name r registered
  | .releaseBuffer buffer => s.withHandle (s.buffer? buffer) s.releaseBuffer
  | .readBuffer buffer =>
    s.withHandle (s.buffer? buffer) fun id =>
      s.answer .buffer do return (.bytes (← s.pool.bytes id), s)
  | .writeBuffer buffer start bytes =>
    s.withHandle (s.buffer? buffer) fun id => s.writeBuffer id start bytes
  | .pin name buffer => s.withHandle (s.buffer? buffer) (s.pin name)
  | .attach name buffer => s.withHandle (s.buffer? buffer) (s.attach name)
  | .detach reference => s.withHandle (s.reference? reference) (s.detach reference)
  | .drop sort name => s.withHandle (s.drop sort name) fun s => (.done, s)
  | .shareBuffer name buffer =>
    s.withHandle (s.buffer? buffer) fun id =>
      (.done, (s.withPool (s.pool.share id)).keep name (.buffer id))
  | .shareView name view =>
    s.withHandle (s.view? view) fun (i, _) =>
      (.done, (s.withMemory (s.memory.share i)).keep name (.view i))
  | .makeOwner name r =>
    let (i, m) := s.memory.add r.thing
    (.done, (s.withMemory m).keep name (.owner i))
  | .shareOwner name view => s.withHandle (s.view? view) fun (_, v) => s.shareOwner name v
  | .makeView name layout owner policy r => s.makeView name layout owner policy r
  | .read view =>
    s.withHandle (s.view? view) fun (_, v) =>
      s.answer .view do return (.bytes (← v.read s.pool), s)
  | .readItem view index =>
    s.withHandle (s.view? view) fun (_, v) =>
      s.answer .view do return (.bytes (← v.readItem s.pool index), s)
  | .writeItem view index item =>
    s.withHandle (s.view? view) fun (_, v) =>
      s.answer .view do return (.done, s.withMemory (← s.memory.writeItem v index item))
  | .hash view =>
    s.withHandle (s.view? view) fun (i, v) =>
      s.answer .view do
        let (h, m) ← s.memory.contentHash i v
        return (.integer h, s.withMemory m)
  | .setHash view h =>
    s.withHandle (s.view? view) fun (i, v) => (.done, s.setView i (v.withHash h))
  | .beginExport view =>
    s.withHandle (s.view? view) fun (i, v) =>
      (.integer v.exported.exports, s.setView i v.exported)
  | .endExport view =>
    s.withHandle (s.view? view) fun (i, v) =>
      (.integer v.unexported.exports, s.setView i v.unexported)
  | .acquire name view => s.withHandle (s.view? view) fun (i, v) => s.acquire name i v
  | .releaseView view => s.withHandle (s.view? view) fun (i, v) => s.releaseView i v
  | .check view =>
    s.withHandle (s.view? view) fun (_, v) =>
      s.answer .view do
        v.checkReleased
        return (.done, s)
  | .checkOrRaise view =>
    s.withHandle (s.view? view) fun (_, v) =>
      s.raising (Host.checkReleased raise v) .raised fun () => .done
  | .shareBufferOf name view => s.withHandle (s.view? view) fun (_, v) => s.shareBufferOf name v
  | .makeObject name r => s.makeObject name r
  | .releaseObject object => s.withHandle (s.object? object) fun (_, o) => s.releaseObject o
  | .hostAllocate name formatText shape => s.keepHosted name (s.host.allocate formatText shape)
  | .hostAdopt name bytes parts => s.keepHosted name (s.host.adopt bytes parts)
  | .hostOver name layout buffer owner =>
    s.hostView name layout owner fun host l owner =>
      (s.buffer? buffer).map fun id => host.viewOver l id owner
  | .hostAliased name layout bytes owner =>
    s.hostView name layout owner fun host l owner => some (host.viewAliased l bytes owner)
  | .hostOfObject name object =>
    s.withHandle (s.object? object) fun (i, o) => s.keepHosted name (s.host.viewOfObject i o)
  | .hostRead view => s.withHandle (s.view? view) fun (_, v) => s.hosted (s.host.read raise v) .bytes
  | .hostRelease view =>
    s.withHandle (s.view? view) fun (i, v) => s.hosted (s.host.release raise i v) .flag
  | .hostCheck view =>
    s.withHandle (s.view? view) fun (_, v) =>
      s.raising (Host.checkReleased raise v) .raised fun () => .done
  | .hostRaise kind text =>
    s.raising (Except.error <$> raise kind text) .raised fun (_ : Unit) => .done

/-- The session after some steps. -/
def run (raise : RaiseHandler σ) (s : Session σ) (steps : List Step) : Session σ :=
  steps.foldl (fun s step => (s.step raise step).2) s

end Session
end StridedViews
