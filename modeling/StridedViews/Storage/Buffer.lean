import StridedViews.Numbered
import StridedViews.Raise
import StridedViews.Storage.Registry

/-!
Managed buffers and what holds them.

A buffer lives on a store: bytes of its own, foreign bytes that are given back when the buffer is
torn down, or a range of an older buffer, which it keeps pinned. Three sorts of hold count on a
buffer: handles, attached references and export pins. `endBuffer` gives up one hold and does all that
follows: a buffer that was attached once is released when its last reference and its last pin are
gone, a buffer that nothing holds any more is torn down, and the teardown of an exported buffer gives
up its pin on the buffer that it was exported from.
-/

namespace StridedViews

/-- The number of a buffer, counted from 1 in order of creation. -/
abbrev BufferId := Nat

/-- The number of a registry, counted from 0. -/
abbrev RegistryId := Nat

/-- Why a buffer cannot be used. -/
inductive BufferError where
  | released (id : BufferId)
  | readOnly (id : BufferId)
  | outOfRange (start stop length : Nat)
  deriving DecidableEq, Repr

namespace BufferError

def message : BufferError → String
  | released id => s!"managed buffer {id} has been released"
  | readOnly id => s!"managed buffer {id} is read-only"
  | outOfRange start stop length =>
      s!"range {start}..{stop} is outside buffer of {length} bytes"

/-- The kind of error that a caller sees. -/
def kind : BufferError → ErrorKind
  | released _ => .valueError
  | readOnly _ => .typeError
  | outOfRange .. => .bufferError

end BufferError

/-- Where the bytes of a buffer are. -/
inductive Source where
  | owned (bytes : List UInt8)
  /-- Bytes lent under a label, to be given back at teardown. -/
  | foreign (label : String) (bytes : List UInt8)
  /-- The bytes of an older buffer from `start` on. -/
  | exported (parent : BufferId) (start : Nat)
  deriving DecidableEq, Repr

/-- The storage that a buffer is made over. -/
structure Store where
  source : Source
  length : Nat
  readOnly : Bool
  deriving DecidableEq, Repr

namespace Store

def owned (bytes : List UInt8) : Store := ⟨.owned bytes, bytes.length, false⟩

/-- A store of `n` zero bytes. -/
def zeroed (n : Nat) : Store := owned (List.replicate n 0)

def foreign (label : String) (bytes : List UInt8) (readOnly : Bool) : Store :=
  ⟨.foreign label bytes, bytes.length, readOnly⟩

/-- The text of a store. -/
def describe (s : Store) : String :=
  let sort := match s.source with
    | .owned _ => "owned"
    | .foreign .. => "foreign"
    | .exported .. => "exported"
  Text.describe "BackingStore"
    [("kind", s!"\"{sort}\""), ("len", toString s.length), ("read_only", Text.truth s.readOnly)]

end Store

/-- What a buffer still has: its store, or only the cause of its teardown. -/
inductive Contents where
  | live (source : Source)
  | tornDown (cause : ReleaseCause)
  deriving DecidableEq, Repr

/-- A managed buffer with the counts of its holds. -/
structure Buffer where
  length : Nat
  readOnly : Bool
  /-- The registry that keeps its books, if any. -/
  registry : Option RegistryId
  contents : Contents
  handles : Nat
  attached : Nat
  pins : Nat
  /-- Set by the first reference. -/
  everAttached : Bool
  deriving DecidableEq, Repr

/-- The sorts of hold on a buffer. -/
inductive BufferHold where
  | handle | reference | pin
  deriving DecidableEq, Repr

/-- What may bring a buffer to its end: a call for its release, or the end of a hold. -/
inductive Ending where
  | release
  | hold (h : BufferHold)
  deriving DecidableEq, Repr

namespace Buffer

/-- A new buffer over a store, held by one handle. -/
def ofStore (s : Store) (registry : Option RegistryId) : Buffer :=
  { length := s.length
    readOnly := s.readOnly
    registry
    contents := .live s.source
    handles := 1
    attached := 0
    pins := 0
    everAttached := false }

/-- Whether the buffer has been torn down. -/
def isReleased (b : Buffer) : Bool :=
  match b.contents with
  | .live _ => false
  | .tornDown _ => true

/-- How many holds of a sort are counted. -/
def count (b : Buffer) : BufferHold → Nat
  | .handle => b.handles
  | .reference => b.attached
  | .pin => b.pins

/-- The buffer with one more hold. -/
def gain (b : Buffer) : BufferHold → Buffer
  | .handle => { b with handles := b.handles + 1 }
  | .reference => { b with attached := b.attached + 1, everAttached := true }
  | .pin => { b with pins := b.pins + 1 }

/-- The buffer with one hold less. -/
def lose (b : Buffer) : BufferHold → Buffer
  | .handle => { b with handles := b.handles - 1 }
  | .reference => { b with attached := b.attached - 1 }
  | .pin => { b with pins := b.pins - 1 }

/-- The buffer behind an ending, before any teardown. -/
def after (b : Buffer) : Ending → Buffer
  | .release => b
  | .hold h => b.lose h

/-- Whether anything holds the buffer. -/
def isHeld (b : Buffer) : Bool := b.handles ≠ 0 || b.attached ≠ 0 || b.pins ≠ 0

/-- Whether the end of a hold is the end of the buffer's use by views: the last reference goes while
there is no pin, or the last pin of a buffer that was attached once and is not any more. -/
def endsUse (b : Buffer) : BufferHold → Bool
  | .handle => false
  | .reference => b.attached = 1 && b.pins = 0
  | .pin => b.pins = 1 && b.attached = 0 && b.everAttached

/-- The release that an ending calls for, if any. A buffer that loses its last hold is released as
dropped unless it has been torn down before. -/
def due (b : Buffer) : Ending → Option ReleaseCause
  | .release => some .explicit
  | .hold h =>
    if b.endsUse h then some .deferred
    else if !(b.lose h).isHeld && !b.isReleased then some .dropped
    else none

/-- The text of a buffer. -/
def describe (b : Buffer) (id : BufferId) : String :=
  Text.describe "ManagedBuffer"
    [("id", toString id), ("len", toString b.length), ("read_only", Text.truth b.readOnly),
     ("released", Text.truth b.isReleased), ("attached", toString b.attached),
     ("pins", toString b.pins)]

end Buffer

/-- What an ending does beside changing buffers. -/
inductive StorageEvent where
  /-- Foreign bytes were given back. -/
  | gaveBack (id : BufferId) (label : String)
  | tornDown (registry : Option RegistryId) (length : Nat) (cause : ReleaseCause)
  /-- A release found its buffer torn down already. -/
  | redundant (registry : Option RegistryId)
  /-- A hold was given up that was not counted. -/
  | underflow (id : BufferId) (h : BufferHold)
  deriving DecidableEq, Repr

/-- What an ending does to a count that is zero. -/
def Buffer.underflow (b : Buffer) (id : BufferId) : Ending → List StorageEvent
  | .release => []
  | .hold h => if b.count h = 0 then [.underflow id h] else []

/-- Brings an ending to the buffer of a number, and on to the buffers it was exported from. Returns
the buffers and, in order, what happened. -/
def endBuffer : List Buffer → BufferId → Ending → List Buffer × List StorageEvent
  | [], _, _ => ([], [])
  | b :: older, id, ending =>
    if id = Numbered.next older then
      let fault := b.underflow id ending
      match b.due ending with
      | none => (b.after ending :: older, fault)
      | some cause =>
        match b.contents with
        | .tornDown _ => (b.after ending :: older, fault ++ [.redundant b.registry])
        | .live source =>
          let torn : List Buffer × List StorageEvent := match source with
            | .owned _ => (older, [])
            | .foreign label _ => (older, [.gaveBack id label])
            | .exported parent _ => endBuffer older parent (.hold .pin)
          ({ b.after ending with contents := .tornDown cause } :: torn.1,
            fault ++ torn.2 ++ [.tornDown b.registry b.length cause])
    else
      let rest := endBuffer older id ending
      (b :: rest.1, rest.2)

/-- The bytes of a buffer: its own, or its range of the buffer it was exported from. The nearest
released buffer on the way is the one reported. -/
def bytesOf : List Buffer → BufferId → Except BufferError (List UInt8)
  | [], id => .error (.released id)
  | b :: older, id =>
    if id = Numbered.next older then
      match b.contents with
      | .tornDown _ => .error (.released id)
      | .live (.owned bytes) => .ok bytes
      | .live (.foreign _ bytes) => .ok bytes
      | .live (.exported parent start) => do
          let bytes ← bytesOf older parent
          return (bytes.drop start).take b.length
    else
      bytesOf older id

/-- A list with the members from `start` on replaced by those of `new`. -/
def splice {α : Type} (xs : List α) (start : Nat) (new : List α) : List α :=
  xs.take start ++ new ++ xs.drop (start + new.length)

/-- Puts bytes into a buffer from `start` on; they land in the buffer that has the bytes. -/
def writeBytes : List Buffer → BufferId → (start : Nat) → List UInt8 → List Buffer
  | [], _, _, _ => []
  | b :: older, id, start, new =>
    if id = Numbered.next older then
      match b.contents with
      | .tornDown _ => b :: older
      | .live (.owned bytes) =>
          { b with contents := .live (.owned (splice bytes start new)) } :: older
      | .live (.foreign label bytes) =>
          { b with contents := .live (.foreign label (splice bytes start new)) } :: older
      | .live (.exported parent offset) => b :: writeBytes older parent (offset + start) new
    else
      b :: writeBytes older id start new

/-- Bytes that fit behind `start`, if there are any, change no length. -/
theorem length_splice {α : Type} {xs new : List α} {start : Nat}
    (h : new.length ≤ xs.length - start) : (splice xs start new).length = xs.length := by
  simp only [splice, List.length_append, List.length_take, List.length_drop]
  omega

/-- No ending makes or forgets a buffer. -/
theorem length_endBuffer (bs : List Buffer) (id : BufferId) (e : Ending) :
    (endBuffer bs id e).1.length = bs.length := by
  induction bs generalizing id e with
  | nil => rfl
  | cons b older ih =>
    unfold endBuffer
    split
    · split
      · rfl
      · split
        · rfl
        · next source _ => cases source <;> simp [ih]
    · simp [ih]

theorem length_writeBytes (bs : List Buffer) (id : BufferId) (start : Nat) (new : List UInt8) :
    (writeBytes bs id start new).length = bs.length := by
  induction bs generalizing id start with
  | nil => rfl
  | cons b older ih =>
    unfold writeBytes
    split
    · split <;> simp [ih]
    · simp [ih]

end StridedViews
