import Mathlib.Data.Multiset.Bind
import StridedViews.Proofs.Storage.Course
import StridedViews.Sharing.Handle

/-!
Clients: all that can be done with a memory, one operation after the other. A client has handles and
loose stores, and an operation works on buffers and items that something still holds; it refuses to
work on others. Reading changes nothing and is no operation. Where an operation is to be handed an owner,
the client keeps the share that it has; one that hands over that share drops it afterwards
(`Client.reaches_viewOver_handedOver`).
-/

namespace StridedViews

structure Client where
  memory : Memory
  handles : Multiset Handle
  /-- Stores that no buffer has been made over. -/
  stores : Multiset Store

namespace Client

/-- What a client can do. -/
inductive Op where
  -- registries, stores and buffers
  | makeRegistry
  | ownStore (bytes : List UInt8)
  | lendStore (label : String) (bytes : List UInt8) (readOnly : Bool)
  /-- A store over the range from `start` to `stop` of a buffer. -/
  | exportStore (parent : BufferId) (start stop : Nat)
  | dropStore (s : Store)
  /-- A buffer over a loose store, in the books of a registry if one is named. -/
  | makeBuffer (s : Store) (registry : Option RegistryId)
  | releaseBuffer (id : BufferId)
  /-- Replaces all bytes of a buffer. -/
  | writeBuffer (id : BufferId) (bytes : List UInt8)
  | pin (id : BufferId)
  | attach (id : BufferId)
  -- handles
  /-- Detaches a reference, whose handle stays. -/
  | detach (id : BufferId)
  /-- Another handle on a buffer or an item. -/
  | share (h : Handle)
  | drop (h : Handle)
  -- items
  | makeText (s : String)
  | makeInteger (i : Int)
  | makeObject (o : HostObject)
  -- views, which are handed another share of the owner than that which the client knows it by
  | viewOver (l : Layout) (id : BufferId) (owner : Option ItemId) (policy : ReleasePolicy)
  | viewAliased (l : Layout) (bytes : List UInt8) (owner : Option ItemId) (policy : ReleasePolicy)
      (flags : ViewFlags)
  /-- A view through a reference of the client's, which is used up. -/
  | viewThrough (l : Layout) (reference : Option BufferId) (owner : Option ItemId)
      (policy : ReleasePolicy) (flags : ViewFlags)
  | setHash (i : ItemId) (hash : Int)
  | hash (i : ItemId)
  | beginExport (i : ItemId)
  | endExport (i : ItemId)
  | acquire (i : ItemId)
  | releaseView (i : ItemId)
  | writeItem (i : ItemId) (index : List Nat) (item : List UInt8)

/-- How an operation ends. -/
inductive Outcome where
  /-- It works on something that is not there. -/
  | refused
  | failed (e : ViewError)
  | done
  | flag (b : Bool)
  | integer (i : Int)
  | store (s : Store)
  | buffer (id : BufferId)
  | item (i : ItemId)

/-- A client of a memory without anything in it. -/
def empty : Client := ⟨Memory.empty 0, 0, 0⟩

def pool (c : Client) : Pool := c.memory.pool

def withMemory (c : Client) (m : Memory) : Client := { c with memory := m }

def withPool (c : Client) (p : Pool) : Client := c.withMemory { c.memory with pool := p }

def keep (c : Client) (h : Handle) : Client := { c with handles := h ::ₘ c.handles }

def lose (c : Client) (h : Handle) : Client := { c with handles := c.handles.erase h }

def keepStore (c : Client) (s : Store) : Client := { c with stores := s ::ₘ c.stores }

def loseStore (c : Client) (s : Store) : Client := { c with stores := c.stores.erase s }

/-! ### What is there -/

def hasBuffer (c : Client) (id : BufferId) : Bool := (c.pool.get? id).any (·.isHeld)

def hasItem (c : Client) (i : ItemId) : Bool := (c.memory.item? i).any (·.shares ≠ 0)

/-- Whether all items are there that some holds are shares of. -/
def hasAll (c : Client) (holds : List Hold) : Bool :=
  holds.all fun
    | .share i => c.hasItem i
    | .buffer .. => true

def hasOwner (c : Client) (owner : Option ItemId) : Bool := owner.all c.hasItem

def hasRegistry (c : Client) (r : Option RegistryId) : Bool :=
  r.all (· < c.pool.registries.length)

/-! ### Operations -/

/-- Does something if what it works on is there. -/
def given (c : Client) (there : Bool) (act : Outcome × Client) : Outcome × Client :=
  if there then act else (.refused, c)

/-- Does something with a view that is there. -/
def onView (c : Client) (i : ItemId) (act : View → Outcome × Client) : Outcome × Client :=
  match c.memory.view? i with
  | some v => c.given (c.hasItem i) (act v)
  | none => (.refused, c)

/-- Ends an operation that may fail, and then has changed nothing. -/
def attempt {ε : Type} (c : Client) (onError : ε → ViewError)
    (result : Except ε (Outcome × Client)) : Outcome × Client :=
  match result with
  | .ok r => r
  | .error e => (.failed (onError e), c)

def share (c : Client) (h : Handle) : Outcome × Client :=
  match h with
  | .buffer id => c.given (c.hasBuffer id) (.done, (c.withPool (c.pool.share id)).keep h)
  | .view i | .owner i | .object i =>
    c.given (c.hasItem i) (.done, (c.withMemory (c.memory.share i)).keep h)
  | .reference _ | .pin _ | .guard .. => (.refused, c)

/-- Makes an item under a handle. -/
def make (c : Client) (t : Thing) (handle : ItemId → Handle) : Outcome × Client :=
  let made := c.memory.add t
  (.item made.1, (c.withMemory made.2).keep (handle made.1))

/-- Keeps a view that the memory made, or tells why it made none. -/
def keepView (c : Client) (made : Except ViewError ItemId × Memory) : Outcome × Client :=
  match made with
  | (.ok i, m) => (.item i, (c.withMemory m).keep (.view i))
  | (.error e, m) => (.failed e, c.withMemory m)

/-- Replaces a view by one with the same holds. -/
def setView (c : Client) (i : ItemId) (v : View) : Client := c.withMemory (c.memory.setView i v)

def step (c : Client) : Op → Outcome × Client
  | .makeRegistry =>
    (.done, c.withPool { c.pool with registries := c.pool.registries ++ [{}] })
  | .ownStore bytes => (.store (.owned bytes), c.keepStore (.owned bytes))
  | .lendStore label bytes readOnly =>
    (.store (.foreign label bytes readOnly), c.keepStore (.foreign label bytes readOnly))
  | .exportStore parent start stop =>
    c.given (c.hasBuffer parent) <| c.attempt .buffer do
      let (s, pool) ← c.pool.exportRange parent start stop
      return (.store s, (c.withPool pool).keepStore s)
  | .dropStore s =>
    c.given (s ∈ c.stores) (.done, (c.withPool (c.pool.discard s)).loseStore s)
  | .makeBuffer s r =>
    c.given (s ∈ c.stores && c.hasRegistry r) <|
      let made := c.pool.create s r
      (.buffer made.1, ((c.withPool made.2).loseStore s).keep (.buffer made.1))
  | .releaseBuffer id =>
    c.given (c.hasBuffer id) <|
      let released := c.pool.release id
      (.flag released.1, c.withPool released.2)
  | .writeBuffer id bytes =>
    c.given (c.hasBuffer id) <| c.attempt .buffer do
      let old ← c.pool.writableBytes id
      return if bytes.length = old.length then (.done, c.withPool (c.pool.overwrite id bytes))
        else (.refused, c)
  | .pin id =>
    c.given (c.hasBuffer id) <| c.attempt .buffer do
      return (.done, (c.withPool (← c.pool.pin id)).keep (.pin id))
  | .attach id =>
    c.given (c.hasBuffer id) <| c.attempt .buffer do
      return (.done, (c.withPool (← c.pool.attach id)).keep (.reference (some id)))
  | .detach id =>
    c.given (.reference (some id) ∈ c.handles) <|
      let m := c.memory.giveUp [.buffer id .reference]
      (.done, ((c.lose (.reference (some id))).keep (.reference none)).withMemory m)
  | .share h => c.share h
  | .drop h => c.given (h ∈ c.handles) (.done, (c.lose h).withMemory (c.memory.drop h))
  | .makeText s => c.make (.text s) .owner
  | .makeInteger i => c.make (.integer i) .owner
  | .makeObject o => c.given (c.hasAll o.holds) (c.make (.object o) .object)
  | .viewOver l id owner policy =>
    c.given (c.hasBuffer id && c.hasOwner owner) <|
      c.keepView ((c.memory.lend owner).viewOver l id owner policy)
  | .viewAliased l bytes owner policy flags =>
    c.given (c.hasOwner owner) <|
      c.keepView ((c.memory.lend owner).viewAliased l bytes owner policy flags)
  | .viewThrough l reference owner policy flags =>
    c.given (.reference reference ∈ c.handles && c.hasOwner owner) <|
      (c.lose (.reference reference)).keepView
        ((c.memory.lend owner).viewThrough l reference owner policy flags)
  | .setHash i h => c.onView i fun v => (.done, c.setView i (v.withHash h))
  | .hash i =>
    c.onView i fun v => c.attempt (fun e => e) do
      let (h, m) ← c.memory.contentHash i v
      return (.integer h, c.withMemory m)
  | .beginExport i => c.onView i fun v => (.done, c.setView i v.exported)
  | .endExport i => c.onView i fun v => (.done, c.setView i v.unexported)
  | .acquire i =>
    c.onView i fun v => c.attempt (fun e => e) do
      let (pinned, m) ← c.memory.acquire i v
      return (.done, (c.withMemory m).keep (.guard i pinned))
  | .releaseView i =>
    c.onView i fun v => c.attempt (fun e => e) do
      let (released, m) ← c.memory.release i v
      return (.flag released, c.withMemory m)
  | .writeItem i index item =>
    c.onView i fun v => c.attempt (fun e => e) do
      return (.done, c.withMemory (← c.memory.writeItem v index item))

/-! ### Holds -/

/-- The holds that a client has through its handles and stores. -/
def holds (c : Client) : Multiset Hold :=
  (c.handles.bind fun h => (h.holds : Multiset Hold)) +
    c.stores.bind fun s => (s.holds : Multiset Hold)

/-- The deed of an operation that ended in some way. -/
def Op.deed : Op → Outcome → Option Deed
  | .makeBuffer s r, .buffer id => some (.made id s r)
  | .releaseBuffer id, .flag _ => some (.released id)
  | .attach id, .done => some (.attached id)
  | .viewOver _ id _ _, .item _ => some (.attached id)
  | _, _ => none

variable {c : Client} {h : Handle} {s : Store}

theorem holds_keep (c : Client) (h : Handle) :
    (c.keep h).holds = (h.holds : Multiset Hold) + c.holds := by
  rw [holds, keep, Multiset.cons_bind, add_assoc, holds]

theorem holds_lose (hh : h ∈ c.handles) : c.holds = (h.holds : Multiset Hold) + (c.lose h).holds := by
  rw [← holds_keep, keep, lose, Multiset.cons_erase hh]

theorem holds_keepStore (c : Client) (s : Store) :
    (c.keepStore s).holds = (s.holds : Multiset Hold) + c.holds := by
  rw [holds, keepStore, Multiset.cons_bind, add_left_comm, holds]

theorem holds_loseStore (hs : s ∈ c.stores) :
    c.holds = (s.holds : Multiset Hold) + (c.loseStore s).holds := by
  rw [← holds_keepStore, keepStore, loseStore, Multiset.cons_erase hs]

end Client

end StridedViews
