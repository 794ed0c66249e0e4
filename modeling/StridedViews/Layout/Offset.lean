import StridedViews.Layout.Basic

/-!
Item offsets and the walk over all items.

The offset of an item is the byte offset plus index times stride, axis by axis; behind an indirect
axis the pointer stored at the offset reached so far is resolved and the suboffset added. Every step
is checked, and a caller supplies the resolver and the type `ε` of errors that it may fail with.
`visitItems` takes the items in row-major order and stops at the first failure.
-/

namespace StridedViews

variable {ε σ : Type}

/-- An offset moved on by `index` strides, checked. -/
def advance? (offset : Int) (index : Nat) (stride : Int) : Except LayoutError Int :=
  orOverflow do
    let delta ← Word.mul? (← Word.distance? index) stride
    Word.add? offset delta

/-- How the computation of an offset embeds layout errors, and how it follows stored pointers. -/
structure Resolver (ε : Type) where
  ofLayout : LayoutError → ε
  /-- The offset that the pointer stored at an offset designates. -/
  deref : Int → Except ε Int

namespace Resolver

/-- A layout failure as a failure of the resolver's kind. -/
def lift {α : Type} (r : Resolver ε) (x : Except LayoutError α) : Except ε α := x.mapError r.ofLayout

/-- The offset of entry `index` of an axis whose entry 0 is found from `offset`. -/
def enter (r : Resolver ε) (a : Axis) (offset : Int) (index : Nat) : Except ε Int := do
  let place ← r.lift (advance? offset index a.stride)
  match a.indirect? with
  | none => return place
  | some suboffset => r.lift (orOverflow (Word.add? (← r.deref place) suboffset))

/-- The offset of an index along the remaining axes, of which the first is number `dimension`. -/
def offsetFrom (r : Resolver ε) (dimension : Nat) : List Axis → List Nat → Int → Except ε Int
  | a :: axes, i :: index, offset =>
      if i < a.length then do
        offsetFrom r (dimension + 1) axes index (← r.enter a offset i)
      else
        .error (r.ofLayout (.indexOutOfRange dimension i a.length))
  | _, _, offset => .ok offset

end Resolver

/-- A computation that threads a state and keeps it when it fails. -/
abbrev Visit (ε σ : Type) (α : Type) := ExceptT ε (StateM σ) α

/-- A pure computation that may fail, as a step of the walk. -/
def Visit.ofExcept {α : Type} (x : Except ε α) : Visit ε σ α := ExceptT.mk (pure x)

/-- Runs `act` for `first`, `first + 1`, … until `count` calls are done or one fails. -/
def visitRange (act : Nat → Visit ε σ Unit) : (first count : Nat) → Visit ε σ Unit
  | _, 0 => pure ()
  | first, count + 1 => do
      act first
      visitRange act (first + 1) count

/-- Visits the offsets of all items along the remaining axes, in row-major order. -/
def visitFrom (r : Resolver ε) (visit : Int → Visit ε σ Unit) : List Axis → Int → Visit ε σ Unit
  | [], offset => visit offset
  | a :: axes, offset =>
      visitRange (fun i => do visitFrom r visit axes (← Visit.ofExcept (r.enter a offset i)))
        0 a.length

namespace Layout

/-- The byte offset, as a signed distance. -/
def start (l : Layout) : Except LayoutError Int := orOverflow (Word.distance? l.byteOffset)

/-- The offset of the item at `index`. -/
def itemOffset (l : Layout) (r : Resolver ε) (index : List Nat) : Except ε Int :=
  if index.length ≠ l.rank then
    .error (r.ofLayout (.indexRankMismatch l.rank index.length))
  else do
    r.offsetFrom 0 l.axes index (← r.lift l.start)

/-- Visits the offset of every item in row-major order. -/
def visitItems (l : Layout) (r : Resolver ε) (visit : Int → Visit ε σ Unit) : Visit ε σ Unit := do
  visitFrom r visit l.axes (← Visit.ofExcept (r.lift l.start))

end Layout
end StridedViews
