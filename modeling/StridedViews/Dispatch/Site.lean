import StridedViews.Dispatch.Coercion

/-!
Dispatch sites. A site serves one operation of fixed arity at one place. Scalar arguments whose
kinds the operation accepts, each at its position, go to its specialised entry; all others are boxed,
cast position by position, and go to its generic entry. Casts are made on first use and remembered,
and the site counts what it did.
-/

namespace StridedViews

variable {σ : Type}

/-- An operation with a generic entry, declared casts and an optional specialised entry. Its parts
run in the host's state `σ`. -/
structure Operation (σ : Type) where
  name : String
  /-- Makes the cast of a position, if one is declared. -/
  makeCast : Nat → StateM σ (Option (Cast σ))
  /-- Whether the specialised entry takes scalars of a kind at a position. -/
  accepts : Nat → ScalarKind → Bool
  /-- The generic entry, for arguments already cast. -/
  call : List Value → StateM σ (Except Raised Value)
  /-- The specialised entry, for scalars of accepted kinds. -/
  callScalars : List Scalar → StateM σ (Except Raised Scalar)

namespace Operation

/-- The standard casts of declared specifications. -/
def standardCasts (specs : Nat → Option CastSpec) (position : Nat) :
    StateM σ (Option (Cast σ)) :=
  pure ((specs position).map (·.toCast position))

/-- The specialised entry of an operation that has none. -/
def noScalars (name : String) : List Scalar → StateM σ (Except Raised Scalar) := fun _ =>
  pure (.error ⟨.systemError, s!"{name} has no specialized implementation"⟩)

end Operation

/-- What a dispatch site has done so far. -/
structure DispatchStats where
  specializedCalls : Nat := 0
  genericCalls : Nat := 0
  castsMade : Nat := 0
  unexpectedResults : Nat := 0
  deriving DecidableEq, Repr

/-- The fraction of calls that took the specialised entry; 0 if there were none. -/
def DispatchStats.specializationRatio (s : DispatchStats) : Float :=
  let total := s.specializedCalls + s.genericCalls
  if total = 0 then 0.0 else Float.ofNat s.specializedCalls / Float.ofNat total

/-- The text of the counters. -/
def DispatchStats.describe (s : DispatchStats) : String :=
  Text.describe "DispatchSnapshot"
    [("specialized_calls", toString s.specializedCalls),
     ("generic_calls", toString s.genericCalls),
     ("cast_nodes_created", toString s.castsMade),
     ("unexpected_results", toString s.unexpectedResults)]

/-- Why a dispatch failed. -/
inductive DispatchError where
  /-- A cast or the operation raised. -/
  | raised (r : Raised)
  /-- The result is not of the wanted kind. -/
  | unexpectedResult (value : Value)
  | arity (expected actual : Nat)

namespace DispatchError

def message : DispatchError → String
  | raised r => r.message
  | unexpectedResult value => s!"unexpected result of type {value.typeName}: {value.display}"
  | arity expected actual => s!"expected {expected} arguments, got {actual}"

/-- The kind of error that a caller sees. -/
def kind : DispatchError → ErrorKind
  | raised r => r.kind
  | unexpectedResult _ | arity .. => .typeError

end DispatchError

/-- The outcome of a dispatch whose caller takes any result. -/
inductive Dispatched where
  /-- A result of the wanted kind. -/
  | scalar (s : Scalar)
  /-- Any other result. -/
  | generic (value : Value)

/-- The result as a boxed value. -/
def Dispatched.boxed : Dispatched → Value
  | scalar s => s.toValue
  | generic value => value

/-- One operation with the handler it raises through. -/
structure Site (σ : Type) where
  operation : Operation σ
  arity : Nat
  raise : RaiseHandler σ

/-- What a site remembers: the cast of each position that was asked for, which may be that there is
none, and the counters. -/
structure SiteMemory (σ : Type) where
  casts : Nat → Option (Option (Cast σ))
  stats : DispatchStats

/-- A site that has served nothing. -/
def SiteMemory.empty : SiteMemory σ := ⟨fun _ => none, {}⟩

/-- A step of a site, in its memory and in the host's state. -/
abbrev SiteM (σ : Type) := StateT (SiteMemory σ) (StateM σ)

namespace Site

/-- Changes the counters. -/
def count (f : DispatchStats → DispatchStats) : SiteM σ Unit :=
  modify fun m => { m with stats := f m.stats }

/-- The cast of a position, made on first use. -/
def cast (site : Site σ) (position : Nat) : SiteM σ (Option (Cast σ)) := do
  match (← get).casts position with
  | some known => return known
  | none =>
    let made ← (site.operation.makeCast position : StateM σ _)
    if made.isSome then
      count fun s => { s with castsMade := s.castsMade + 1 }
    modify fun m => { m with casts := fun p => if p = position then some made else m.casts p }
    return made

/-- Whether a cast is declared at a position. -/
def hasCast (site : Site σ) (position : Nat) : SiteM σ Bool := do
  if position < site.arity then
    return (← site.cast position).isSome
  else
    return false

/-- Casts arguments from a position on, left to right, up to the first failure. -/
def castFrom (site : Site σ) : Nat → List Value → SiteM σ (Except Raised (List Value))
  | _, [] => pure (.ok [])
  | position, v :: rest => do
    let casted ← match ← site.cast position with
      | none => pure (Except.ok v)
      | some cast => (cast v site.raise : StateM σ _)
    match casted with
    | .error raised => return .error raised
    | .ok w =>
      match ← site.castFrom (position + 1) rest with
      | .error raised => return .error raised
      | .ok ws => return .ok (w :: ws)

/-- The generic entry: casts the arguments and calls the operation. -/
def call (site : Site σ) (args : List Value) : SiteM σ (Except DispatchError Value) := do
  count fun s => { s with genericCalls := s.genericCalls + 1 }
  match ← site.castFrom 0 args with
  | .error raised => return .error (.raised raised)
  | .ok coerced =>
    let result ← (site.operation.call coerced : StateM σ _)
    return result.mapError .raised

/-- The generic entry for an argument list of any length. -/
def callDynamic (site : Site σ) (args : List Value) : SiteM σ (Except DispatchError Value) :=
  if args.length = site.arity then site.call args
  else pure (.error (.arity site.arity args.length))

/-- Whether the operation accepts every scalar's kind, from a position on. -/
def acceptsFrom (site : Site σ) : Nat → List Scalar → Bool
  | _, [] => true
  | position, s :: rest =>
      site.operation.accepts position s.kind && site.acceptsFrom (position + 1) rest

/-- A result that must be of a wanted kind, or is counted as unexpected. -/
def expect (narrowed : Option Scalar) (value : Value) : SiteM σ (Except DispatchError Scalar) := do
  match narrowed with
  | some s => return .ok s
  | none =>
    count fun s => { s with unexpectedResults := s.unexpectedResults + 1 }
    return .error (.unexpectedResult value)

/-- Runs the entry that fits the scalars, for a result of the wanted kind. The specialised entry has
to return exactly that kind; the generic one any value that narrows to it. -/
def execute (site : Site σ) (args : List Scalar) (wanted : ScalarKind) :
    SiteM σ (Except DispatchError Scalar) := do
  if site.acceptsFrom 0 args then
    count fun s => { s with specializedCalls := s.specializedCalls + 1 }
    match ← (site.operation.callScalars args : StateM σ _) with
    | .error raised => return .error (.raised raised)
    | .ok result => expect (result.ofKind? wanted) result.toValue
  else
    match ← site.call (args.map Scalar.toValue) with
    | .error e => return .error e
    | .ok value => expect (Scalar.narrow? wanted value) value

/-- Runs like `execute`, but takes a result of another kind for an answer. -/
def dispatch (site : Site σ) (args : List Scalar) (wanted : ScalarKind) :
    SiteM σ (Except DispatchError Dispatched) := do
  match ← site.execute args wanted with
  | .ok s => return .ok (.scalar s)
  | .error (.unexpectedResult value) => return .ok (.generic value)
  | .error e => return .error e

/-- The text of a site. -/
def describe (site : Site σ) (stats : DispatchStats) : String :=
  Text.describe "ClinicNode"
    [("operation", Text.quote site.operation.name), ("arity", toString site.arity),
     ("stats", stats.describe)]

end Site
end StridedViews
