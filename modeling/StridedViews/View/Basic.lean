import StridedViews.Hash.Xxh3
import StridedViews.Storage.Pool
import StridedViews.Text.Quoted
import StridedViews.View.Flags
import StridedViews.View.Region
import StridedViews.View.ReleasePolicy

/-!
Views: a layout over the bytes of a managed buffer, through a reference of the view's own, or over
read-only bytes of its own.

A view is built only if its layout stays inside its bytes and asks for no more rights than they
give. Once it is released it has no reference and no owner, and every access fails. Reading and
writing go through the pool; an operation that fails returns no pool.
-/

namespace StridedViews

/-- The number of a shared item, counted from 1 in order of creation. -/
abbrev ItemId := Nat

/-- Where a view's bytes are. -/
inductive ViewSource where
  /-- A managed buffer, until the view's reference to it is detached. -/
  | managed (buffer : Option BufferId)
  | aliased (bytes : List UInt8)
  deriving DecidableEq, Repr

structure View where
  layout : Layout
  flags : ViewFlags
  source : ViewSource
  /-- The item that the view keeps alive until it is released. -/
  owner : Option ItemId
  /-- Exports not yet ended. -/
  exports : Nat
  /-- The content hash, once it is known or set; it is never -1. -/
  cachedHash : Option Int
  policy : ReleasePolicy
  deriving DecidableEq, Repr

namespace View

/-! ### Construction -/

/-- A layout suits a buffer: the buffer is not torn down, may be written if the layout may, and is
long enough. -/
def checkBuffer (p : Pool) (id : BufferId) (l : Layout) : Except ViewError Unit :=
  match p.get? id with
  | none => .error .released
  | some b =>
    if b.isReleased then .error .released
    else if b.readOnly && !l.readOnly then .error (.contradiction .writableOverReadOnly)
    else Region.checkExtent l b.length

/-- A layout suits its source. -/
def checkSource (p : Pool) (l : Layout) : ViewSource → Except ViewError Unit
  | .managed none => .error (.contradiction .detachedReference)
  | .managed (some id) => checkBuffer p id l
  | .aliased bytes =>
    if l.readOnly then Region.checkExtent l bytes.length
    else .error (.contradiction .writableAlias)

/-- Builds a view with the flags asked for, except that it is not released and is scalar exactly if
its layout is. -/
def build (p : Pool) (l : Layout) (source : ViewSource) (owner : Option ItemId)
    (policy : ReleasePolicy) (requested : ViewFlags) : Except ViewError View := do
  if requested.scalar && !l.isScalar then
    throw (.contradiction (.scalarFlag l.rank))
  checkSource p l source
  return {
    layout := l
    flags := { requested with released := false, scalar := l.isScalar }
    source
    owner
    exports := 0
    cachedHash := none
    policy }

/-! ### Access -/

def isReleased (v : View) : Bool := v.flags.released

/-- A view that is not released. -/
def checkReleased (v : View) : Except ViewError Unit :=
  if v.isReleased then .error .released else .ok ()

/-- The buffer behind a view, if its reference is attached. -/
def buffer? (v : View) : Option BufferId :=
  match v.source with
  | .managed buffer => buffer
  | .aliased _ => none

/-- The bytes that the layout lies over. -/
def region (p : Pool) (v : View) : Except ViewError (List UInt8) := do
  v.checkReleased
  match v.source with
  | .managed none => throw .released
  | .managed (some id) => (p.bytes id).mapError .buffer
  | .aliased bytes => return bytes

/-- All items in row-major order. -/
def read (p : Pool) (v : View) : Except ViewError (List UInt8) := do
  Region.gather v.layout (← v.region p)

/-- The item at an index. -/
def readItem (p : Pool) (v : View) (index : List Nat) : Except ViewError (List UInt8) := do
  Region.readItem v.layout (← v.region p) index

/-- Replaces the item at an index. -/
def writeItem (p : Pool) (v : View) (index : List Nat) (item : List UInt8) :
    Except ViewError Pool := do
  v.checkReleased
  if v.layout.readOnly then
    throw .readOnly
  match v.source with
  | .managed none => throw .released
  | .managed (some id) =>
    let region ← (p.writableBytes id).mapError .buffer
    return p.overwrite id (← Region.writeItem v.layout region index item)
  | .aliased _ => throw .readOnly

/-! ### Hashes -/

/-- The hash of a string of bytes as a signed word; -2 stands in for -1. -/
def hashOf (bs : List UInt8) : Int :=
  let h := Word.wrapSigned (Xxh3.hash bs).toNat
  if h = -1 then -2 else h

/-- The hash of a read-only view: the one it remembers, else that of its items. -/
def contentHash (p : Pool) (v : View) : Except ViewError Int := do
  v.checkReleased
  if !v.layout.readOnly then
    throw .notHashable
  match v.cachedHash with
  | some h => return h
  | none => return hashOf (← v.read p)

/-- The view with a hash to remember; -1 makes it forget. -/
def withHash (v : View) (h : Int) : View := { v with cachedHash := if h = -1 then none else some h }

/-- The remembered hash, -1 if there is none. -/
def hashCode (v : View) : Int := v.cachedHash.getD (-1)

/-! ### Exports and release -/

/-- The view with one more export. -/
def exported (v : View) : View := { v with exports := v.exports + 1 }

/-- The view with one export less; without any it stays as it is. -/
def unexported (v : View) : View := { v with exports := v.exports - 1 }

/-- A view's policy lets it be released now. -/
def checkReleasable (v : View) : Except ViewError Unit :=
  if v.policy = .rejectWhileExported ∧ v.exports > 0 then .error (.exportsOutstanding v.exports)
  else .ok ()

/-- The view when it is released: flagged, detached and without an owner. -/
def released (v : View) : View :=
  { v with
    flags := { v.flags with released := true }
    source := match v.source with
      | .managed _ => .managed none
      | .aliased bytes => .aliased bytes
    owner := none }

/-- The text of a view. -/
def describe (v : View) : String :=
  Text.describe "MemoryView"
    [("format", Text.quote v.layout.formatText),
     ("shape", Text.bracketed (v.layout.shape.map toString)),
     ("strides", Text.bracketed (v.layout.strides.map toString)),
     ("flags", v.flags.describe), ("exports", toString v.exports)]

theorem hashOf_ne (bs : List UInt8) : hashOf bs ≠ -1 := by
  unfold hashOf
  simp only
  split <;> omega

end View
end StridedViews
