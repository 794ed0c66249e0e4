import StridedViews.Layout.Basic
import StridedViews.Storage.Buffer

/-!
Errors of views: why a view cannot be built, or an operation on it fails.
-/

namespace StridedViews

/-- How the arguments of a view's construction can contradict each other. -/
inductive Contradiction where
  /-- The flag of a scalar was asked for, but the layout has axes. -/
  | scalarFlag (rank : Nat)
  /-- The reference to view through is detached. -/
  | detachedReference
  /-- The layout may be written, but not the buffer. -/
  | writableOverReadOnly
  /-- The layout may be written, but bytes without a buffer never are. -/
  | writableAlias
  deriving DecidableEq, Repr

def Contradiction.message : Contradiction → String
  | scalarFlag rank => s!"SCALAR flag on a {rank}-dimensional descriptor"
  | detachedReference => "buffer reference is detached"
  | writableOverReadOnly => "writable view over a read-only buffer"
  | writableAlias => "aliased storage requires a read-only view"

/-- Why an operation on a view fails. -/
inductive ViewError where
  | released
  | readOnly
  | notHashable
  | exportsOutstanding (exports : Nat)
  | contradiction (c : Contradiction)
  | outOfBounds (offset : Int) (length regionLength : Nat)
  | itemLength (expected actual : Nat)
  | layout (e : LayoutError)
  | buffer (e : BufferError)
  | raised (r : Raised)
  deriving DecidableEq, Repr

namespace ViewError

/-- The text of a view error; that of an embedded error is its own. -/
def message : ViewError → String
  | released => "operation forbidden on released buffer"
  | readOnly => "cannot modify read-only memory"
  | notHashable => "cannot hash writable memoryview object"
  | exportsOutstanding exports => s!"memoryview has {exports} exported buffer(s)"
  | contradiction c => s!"invalid memoryview: {c.message}"
  | outOfBounds offset length regionLength =>
      s!"offset {offset} with {length} byte(s) is outside a region of {regionLength} bytes"
  | itemLength expected actual => s!"item must be {expected} bytes, got {actual}"
  | layout e => e.message
  | buffer e => e.message
  | raised r => r.message

/-- The kind of error that a caller sees. -/
def kind : ViewError → ErrorKind
  | released | notHashable | contradiction _ | itemLength .. => .valueError
  | readOnly => .typeError
  | exportsOutstanding _ | outOfBounds .. => .bufferError
  | layout e => e.kind
  | buffer e => e.kind
  | raised r => r.kind

end ViewError
end StridedViews
