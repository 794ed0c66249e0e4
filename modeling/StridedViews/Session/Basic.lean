import StridedViews.Host
import StridedViews.Sharing.Handle

/-!
Sessions: a host, the named handles of one client, and the state of the client's raise handler. There
is one table of names for each sort of handle.
-/

namespace StridedViews

/-- A handle under its name. -/
structure NamedHandle where
  name : String
  handle : Handle
  deriving DecidableEq, Repr

/-- Whether an entry has a name and a sort. -/
def NamedHandle.has (e : NamedHandle) (sort : HandleSort) (name : String) : Bool :=
  e.handle.sort = sort && e.name = name

structure Session (σ : Type) where
  host : Host
  handles : List NamedHandle
  /-- The state of the raise handler. -/
  raiser : σ

namespace Session

variable {σ : Type}

/-- A session without handles, if the configuration of its host is valid. -/
def create (c : Config) (raiser : σ) : Except HostError (Session σ) := do
  return { host := ← Host.create c, handles := [], raiser }

def memory (s : Session σ) : Memory := s.host.memory

def pool (s : Session σ) : Pool := s.host.memory.pool

/-- The session with another memory. -/
def withMemory (s : Session σ) (m : Memory) : Session σ :=
  { s with host := { s.host with memory := m } }

/-- The session with another pool. -/
def withPool (s : Session σ) (p : Pool) : Session σ := s.withMemory { s.memory with pool := p }

/-! ### Looking handles up -/

/-- The handle of a sort and a name. -/
def handle? (s : Session σ) (sort : HandleSort) (name : String) : Option Handle :=
  (s.handles.find? (·.has sort name)).map (·.handle)

/-- The buffer of a handle. -/
def buffer? (s : Session σ) (name : String) : Option BufferId :=
  match s.handle? .buffer name with
  | some (.buffer id) => some id
  | _ => none

/-- What a reference is attached to, which may be nothing. -/
def reference? (s : Session σ) (name : String) : Option (Option BufferId) :=
  match s.handle? .reference name with
  | some (.reference attached) => some attached
  | _ => none

/-- The item of a view handle with its view. -/
def view? (s : Session σ) (name : String) : Option (ItemId × View) :=
  match s.handle? .view name with
  | some (.view i) => (s.memory.view? i).map (i, ·)
  | _ => none

/-- The view of a guard, and the buffer that it pins. -/
def guard? (s : Session σ) (name : String) : Option (View × Option BufferId) :=
  match s.handle? .guard name with
  | some (.guard i pinned) => (s.memory.view? i).map (·, pinned)
  | _ => none

/-- The item of an owner handle. -/
def owner? (s : Session σ) (name : String) : Option ItemId :=
  match s.handle? .owner name with
  | some (.owner i) => some i
  | _ => none

/-- The item of an object handle with its object. -/
def object? (s : Session σ) (name : String) : Option (ItemId × HostObject) :=
  match s.handle? .object name with
  | some (.object i) => (s.memory.object? i).map (i, ·)
  | _ => none

/-! ### Keeping and dropping handles -/

/-- Takes a handle out of the table, without dropping it. -/
def remove (s : Session σ) (sort : HandleSort) (name : String) : Session σ :=
  { s with handles := s.handles.eraseP (·.has sort name) }

/-- Enters a handle into the table in place of the one that has its name, without dropping that. -/
def enter (s : Session σ) (name : String) (h : Handle) : Session σ :=
  { s with handles := ⟨name, h⟩ :: (s.remove h.sort name).handles }

/-- Keeps a new handle under a name; a handle that had the name is dropped. -/
def keep (s : Session σ) (name : String) (h : Handle) : Session σ :=
  match s.handle? h.sort name with
  | some old => (s.enter name h).withMemory (s.memory.drop old)
  | none => s.enter name h

/-- Drops the handle of a sort and a name. -/
def drop (s : Session σ) (sort : HandleSort) (name : String) : Option (Session σ) := do
  let old ← s.handle? sort name
  return (s.remove sort name).withMemory (s.memory.drop old)

end Session
end StridedViews
