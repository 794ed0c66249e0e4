import StridedViews.Storage.Buffer

/-!
Pools of managed buffers. A pool holds all buffers ever made, newest first, the books of the
registries, the labels of the foreign stores that were given back, and the faults in its counts, of
which sound use makes none. A failing operation returns no pool, so it leaves the one it was given
as it was.
-/

namespace StridedViews

/-- A foreign store that was given back, with the buffer that was made over it, if any. -/
structure GivenBack where
  buffer : Option BufferId
  label : String
  deriving DecidableEq, Repr

structure Pool where
  /-- All buffers, newest first. -/
  buffers : List Buffer
  registries : List Registry
  /-- In the order in which they were given back. -/
  givenBack : List GivenBack
  /-- The holds that were given up without being counted. -/
  underflows : List (BufferId × BufferHold)
  deriving DecidableEq, Repr

namespace Pool

/-- A pool without buffers, with some registries. -/
def empty (registries : Nat) : Pool := ⟨[], List.replicate registries {}, [], []⟩

def get? (p : Pool) (id : BufferId) : Option Buffer := Numbered.get? p.buffers id

/-- The books of a registry. -/
def registry (p : Pool) (r : RegistryId) : Registry := p.registries[r]?.getD {}

/-- Changes the books of a registry; a buffer without registry has none to change. -/
def book (p : Pool) (r : Option RegistryId) (f : Registry → Registry) : Pool :=
  match r with
  | none => p
  | some r => { p with registries := p.registries.modify r f }

/-- Enters what happened. -/
def record (p : Pool) : StorageEvent → Pool
  | .gaveBack id label => { p with givenBack := p.givenBack ++ [⟨some id, label⟩] }
  | .tornDown r length cause => p.book r (·.recordTeardown length cause)
  | .redundant r => p.book r (·.recordRedundant)
  | .underflow id h => { p with underflows := p.underflows ++ [(id, h)] }

/-- Brings an ending to a buffer and enters all that follows from it. -/
def bring (p : Pool) (id : BufferId) (e : Ending) : Pool :=
  let (buffers, events) := endBuffer p.buffers id e
  events.foldl record { p with buffers }

/-- Gives up a hold on a buffer. -/
def letGo (p : Pool) (id : BufferId) (h : BufferHold) : Pool := p.bring id (.hold h)

/-- Adds a handle to a buffer. -/
def share (p : Pool) (id : BufferId) : Pool :=
  { p with buffers := Numbered.update (·.gain .handle) p.buffers id }

/-- The buffer of a number, unless it has been torn down. -/
def live (p : Pool) (id : BufferId) : Except BufferError Buffer :=
  match p.get? id with
  | none => .error (.released id)
  | some b => if b.isReleased then .error (.released id) else .ok b

/-- Takes a new hold on a buffer that has not been torn down. -/
def hold (p : Pool) (id : BufferId) (h : BufferHold) : Except BufferError Pool := do
  let _ ← p.live id
  return { p with buffers := Numbered.update (·.gain h) p.buffers id }

/-- Pins a buffer. -/
def pin (p : Pool) (id : BufferId) : Except BufferError Pool := p.hold id .pin

/-- Attaches a reference to a buffer. -/
def attach (p : Pool) (id : BufferId) : Except BufferError Pool := p.hold id .reference

/-- A store over the range from `start` to `stop` of a buffer, which it pins. The range is checked
first. -/
def exportRange (p : Pool) (parent : BufferId) (start stop : Nat) :
    Except BufferError (Store × Pool) :=
  match p.get? parent with
  | none => .error (.released parent)
  | some b =>
    if start > stop ∨ stop > b.length then
      .error (.outOfRange start stop b.length)
    else do
      let p ← p.pin parent
      return (⟨.exported parent start, stop - start, b.readOnly⟩, p)

/-- Makes a buffer over a store, held by one handle, and enters it into its registry. -/
def create (p : Pool) (s : Store) (r : Option RegistryId) : BufferId × Pool :=
  (Numbered.next p.buffers,
    { p with buffers := Buffer.ofStore s r :: p.buffers }.book r (·.recordCreated s.length))

/-- Tears down a store that no buffer was made over. -/
def discard (p : Pool) (s : Store) : Pool :=
  match s.source with
  | .owned _ => p
  | .foreign label _ => { p with givenBack := p.givenBack ++ [⟨none, label⟩] }
  | .exported parent _ => p.letGo parent .pin

/-- Releases a buffer; whether this call tore it down. -/
def release (p : Pool) (id : BufferId) : Bool × Pool :=
  ((p.live id).isOk, p.bring id .release)

/-- The bytes of a buffer. -/
def bytes (p : Pool) (id : BufferId) : Except BufferError (List UInt8) := bytesOf p.buffers id

/-- The bytes of a buffer that may be written. -/
def writableBytes (p : Pool) (id : BufferId) : Except BufferError (List UInt8) :=
  match p.get? id with
  | none => .error (.released id)
  | some b => if b.readOnly then .error (.readOnly id) else p.bytes id

/-- Replaces all bytes of a buffer. -/
def overwrite (p : Pool) (id : BufferId) (new : List UInt8) : Pool :=
  { p with buffers := writeBytes p.buffers id 0 new }

end Pool
end StridedViews
