/-!
Raised errors. An operation that cannot go on names a kind of error and a text; the host's raise
handler turns the two into the error that the caller sees, and may change either. A handler runs in
the host's state `σ`, which it may change too.
-/

namespace StridedViews

/-- The kinds of error that a host tells apart. -/
inductive ErrorKind where
  | valueError | typeError | overflowError | bufferError | systemError
  deriving DecidableEq, Repr, Inhabited

/-- The name under which a kind is reported. -/
def ErrorKind.name : ErrorKind → String
  | valueError => "ValueError"
  | typeError => "TypeError"
  | overflowError => "OverflowError"
  | bufferError => "BufferError"
  | systemError => "SystemError"

/-- An error as its caller sees it. -/
structure Raised where
  kind : ErrorKind
  text : String
  deriving DecidableEq, Repr

/-- The kind's name before the text. -/
def Raised.message (r : Raised) : String := s!"{r.kind.name}: {r.text}"

/-- How a host turns a kind and a text into a raised error. -/
abbrev RaiseHandler (σ : Type) := ErrorKind → String → StateM σ Raised

/-- Raises what it is given. -/
def RaiseHandler.plain {σ : Type} : RaiseHandler σ := fun kind text => pure ⟨kind, text⟩

/-- A handler that numbers the errors it raises from 1, marks each text with a tag and its number,
and may give all of them one kind. -/
def RaiseHandler.numbered (tag : String) (kind? : Option ErrorKind) : RaiseHandler Nat :=
  fun kind text => do
    modify (· + 1)
    let n ← get
    return ⟨kind?.getD kind, s!"[{tag} {n}] {text}"⟩

end StridedViews
