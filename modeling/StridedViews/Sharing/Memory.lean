import StridedViews.Sharing.Item

/-!
Memory: the managed buffers together with the items that hold them.

All that ends a hold goes through `giveUp`, which follows it to every item and buffer that goes away
with it. An operation that fails returns no memory, so it leaves the one it was given as it was. The
exceptions are the operations that make views: they are handed the owner of the view, and some the
reference through which it sees its buffer. A view that is made takes these over, and one that is refused
gives them up, which their type says by returning a memory in either case.
-/

namespace StridedViews

structure Memory where
  pool : Pool
  /-- All items, newest first. -/
  items : List Item
  deriving DecidableEq, Repr

namespace Memory

/-- A memory without buffers and items, with some registries. -/
def empty (registries : Nat) : Memory := ⟨Pool.empty registries, []⟩

def item? (m : Memory) (i : ItemId) : Option Item := Numbered.get? m.items i

/-- The view of a number. -/
def view? (m : Memory) (i : ItemId) : Option View :=
  match m.item? i with
  | some ⟨.view v, _⟩ => some v
  | _ => none

/-- The object of a number. -/
def object? (m : Memory) (i : ItemId) : Option HostObject :=
  match m.item? i with
  | some ⟨.object o, _⟩ => some o
  | _ => none

/-! ### Holds -/

/-- Gives up a hold on a buffer; no other hold is left when items are settled. -/
def letGo (p : Pool) : Hold → Pool
  | .buffer id sort => p.letGo id sort
  | .share _ => p

/-- Gives up holds one after the other, with all that follows from each. -/
def giveUp (m : Memory) (holds : List Hold) : Memory :=
  let settled := settleAll m.items holds
  { pool := settled.2.foldl letGo m.pool, items := settled.1 }

/-- Adds a share to an item. -/
def share (m : Memory) (i : ItemId) : Memory :=
  { m with items := Numbered.update (fun x => { x with shares := x.shares + 1 }) m.items i }

/-- Adds the holds of a thing that mentions items: one share for each mention. Holds on buffers are
taken beforehand. -/
def shareAll (m : Memory) (holds : List Hold) : Memory :=
  holds.foldl (fun m h => match h with
    | .share i => m.share i
    | .buffer .. => m) m

/-- Makes an item with one share of a thing that has all its holds already. -/
def put (m : Memory) (t : Thing) : ItemId × Memory :=
  (Numbered.next m.items, { m with items := ⟨t, 1⟩ :: m.items })

/-- Makes an item with one share, which takes its shares of other items. -/
def add (m : Memory) (t : Thing) : ItemId × Memory := (m.shareAll t.holds).put t

/-- Replaces a view by one that has the same holds. -/
def setView (m : Memory) (i : ItemId) (v : View) : Memory :=
  { m with items := Numbered.update (fun x => { x with thing := .view v }) m.items i }

/-! ### Making views -/

/-- Adds the share of an owner that is to be handed to an operation by someone who keeps theirs. -/
def lend (m : Memory) (owner : Option ItemId) : Memory := m.shareAll (Hold.ofOwner owner)

/-- Ends an operation that was handed some holds: if it fails, it gives them up. -/
def orGiveUp {ε α : Type} (m : Memory) (holds : List Hold) (result : Except ε (α × Memory)) :
    Except ε α × Memory :=
  match result with
  | .ok (a, m) => (.ok a, m)
  | .error e => (.error e, m.giveUp holds)

/-- Makes a view of a source. The view takes over the owner and the reference of the source; if it is
refused, they are given up, the owner first. -/
def newView (m : Memory) (l : Layout) (source : ViewSource) (owner : Option ItemId)
    (policy : ReleasePolicy) (flags : ViewFlags) : Except ViewError ItemId × Memory :=
  m.orGiveUp (Hold.ofOwner owner ++ source.holds) do
    let v ← View.build m.pool l source owner policy flags
    return m.put (.view v)

/-- Attaches a new reference to a buffer and makes a view through it, which takes over the owner. The
layout is checked before, so a refused one costs the buffer nothing; the owner is given up then. -/
def viewOver (m : Memory) (l : Layout) (id : BufferId) (owner : Option ItemId)
    (policy : ReleasePolicy) : Except ViewError ItemId × Memory :=
  m.orGiveUp (Hold.ofOwner owner) do
    View.checkBuffer m.pool id l
    let pool ← (m.pool.attach id).mapError .buffer
    let v ← View.build pool l (.managed (some id)) owner policy (ViewFlags.ofLayout l)
    return put { m with pool } (.view v)

/-- Makes a view of read-only bytes. -/
def viewAliased (m : Memory) (l : Layout) (bytes : List UInt8) (owner : Option ItemId)
    (policy : ReleasePolicy) (flags : ViewFlags) : Except ViewError ItemId × Memory :=
  m.newView l (.aliased bytes) owner policy flags

/-- Makes a view through a reference of its caller's. -/
def viewThrough (m : Memory) (l : Layout) (reference : Option BufferId) (owner : Option ItemId)
    (policy : ReleasePolicy) (flags : ViewFlags) : Except ViewError ItemId × Memory :=
  m.newView l (.managed reference) owner policy flags

/-! ### Operations on views -/

/-- Releases a view, unless its policy forbids it; whether this call released it. -/
def release (m : Memory) (i : ItemId) (v : View) : Except ViewError (Bool × Memory) :=
  if v.isReleased then
    .ok (false, m)
  else do
    v.checkReleasable
    return (true, (m.setView i v.released).giveUp v.holds)

/-- Starts an export: it pins the buffer, if there is one, and shares the view. -/
def acquire (m : Memory) (i : ItemId) (v : View) :
    Except ViewError (Option BufferId × Memory) := do
  v.checkReleased
  let pool ← match v.source with
    | .managed none => throw .released
    | .managed (some id) => (m.pool.pin id).mapError .buffer
    | .aliased _ => pure m.pool
  return (v.buffer?, (Memory.setView { m with pool } i v.exported).share i)

/-- Replaces the item of a view at an index. -/
def writeItem (m : Memory) (v : View) (index : List Nat) (item : List UInt8) :
    Except ViewError Memory := do
  return { m with pool := ← v.writeItem m.pool index item }

/-- The hash of a view, which remembers it. -/
def contentHash (m : Memory) (i : ItemId) (v : View) : Except ViewError (Int × Memory) := do
  let h ← v.contentHash m.pool
  return (h, m.setView i (v.withHash h))

/-! ### Objects -/

/-- The byte length that an object's buffer interface reports. -/
def lengthOf (m : Memory) : ByteSource → Nat
  | .view i => ((m.view? i).map (·.layout.length)).getD 0
  | .bytes bs => bs.length
  | .hidden bs => (bs.getD []).length

/-- The bytes that an object's buffer interface reads. -/
def bytesOf (m : Memory) : ByteSource → Except ViewError (List UInt8)
  | .view i =>
    match m.view? i with
    | some v => v.read m.pool
    | none => .error .released
  | .bytes bs => .ok bs
  | .hidden (some bs) => .ok bs
  | .hidden none => .error .readOnly

end Memory
end StridedViews
