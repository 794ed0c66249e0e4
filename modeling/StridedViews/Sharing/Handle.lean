import StridedViews.Sharing.Memory

/-!
Handles: what a client keeps of a memory. Every handle is a share of something, except a detached
reference, which is a share of nothing.
-/

namespace StridedViews

inductive Handle where
  | buffer (id : BufferId)
  /-- A reference to a buffer, until it is detached. -/
  | reference (attached : Option BufferId)
  /-- An export pin. -/
  | pin (id : BufferId)
  | view (item : ItemId)
  /-- An export of a view, and the buffer that it pins if there is one. -/
  | guard (item : ItemId) (pinned : Option BufferId)
  | owner (item : ItemId)
  | object (item : ItemId)
  deriving DecidableEq, Repr

/-- The sorts of handle. -/
inductive HandleSort where
  | buffer | reference | pin | view | guard | owner | object
  deriving DecidableEq, Repr

namespace Handle

def sort : Handle → HandleSort
  | buffer _ => .buffer
  | reference _ => .reference
  | pin _ => .pin
  | view _ => .view
  | guard .. => .guard
  | owner _ => .owner
  | object _ => .object

/-- The holds of a handle, in the order in which it gives them up. -/
def holds : Handle → List Hold
  | buffer id => [.buffer id .handle]
  | reference attached => (attached.map fun id => Hold.buffer id .reference).toList
  | pin id => [.buffer id .pin]
  | view item | owner item | object item => [.share item]
  | guard item pinned => (pinned.map fun id => Hold.buffer id .pin).toList ++ [.share item]

end Handle

/-- The text of a guard. -/
def describeGuard (exports : Nat) (pinned : Bool) : String :=
  Text.describe "ExportGuard" [("exports", toString exports), ("pinned", Text.truth pinned)]

namespace Memory

/-- Ends the export that a handle counts on its view, if it is a guard. -/
def unexport (m : Memory) : Handle → Memory
  | .guard i _ =>
    match m.view? i with
    | some v => m.setView i v.unexported
    | none => m
  | _ => m

/-- Drops a handle. A guard ends its export before it gives up its holds. -/
def drop (m : Memory) (h : Handle) : Memory := (m.unexport h).giveUp h.holds

end Memory
end StridedViews
