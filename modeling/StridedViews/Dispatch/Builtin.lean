import StridedViews.Dispatch.Site

/-!
Builtin operations: small behaviours for the two entries of an operation, and the operation that a
declaration of casts, accepted kinds and behaviours makes. What a builtin raises, it raises itself,
past the host's handler.
-/

namespace StridedViews

variable {σ : Type}

/-- What the generic entry of a builtin does with its arguments. -/
inductive Generic where
  /-- Returns a fixed value. -/
  | const (value : Value)
  /-- Returns one of the arguments. -/
  | arg (n : Nat)
  /-- Whether the first argument is less than the second. -/
  | less
  /-- The sum of all arguments, integers modulo 2^64. -/
  | sum
  /-- The texts of the arguments, joined by commas. -/
  | echo
  | raise (r : Raised)

/-- What the specialised entry of a builtin does with its arguments. -/
inductive Specialized where
  | const (s : Scalar)
  | arg (n : Nat)
  | less
  | sum
  | raise (r : Raised)

/-- The sum of two values of one numeric type. -/
def Value.add? : Value → Value → Option Value
  | .int a, .int b => some (.int (a + b))
  | .float a, .float b => some (.float (a + b))
  | _, _ => Option.none

/-- The sum of two scalars of one numeric kind. -/
def Scalar.add? : Scalar → Scalar → Option Scalar
  | .int a, .int b => some (.int (a + b))
  | .long a, .long b => some (.long (a + b))
  | .double a, .double b => some (.double (a + b))
  | _, _ => none

/-- The sum of a list from the left, if all its members are of one numeric type. -/
def sumLeft {α : Type} (add? : α → α → Option α) : List α → Option α
  | [] => none
  | a :: rest => rest.foldlM add? a

/-- Whether a value is less than another of the same numeric type. -/
def Value.less? : Value → Value → Option Bool
  | .int a, .int b => some (a < b)
  | .float a, .float b => some (a < b)
  | _, _ => Option.none

/-- Whether a scalar is less than another of the same numeric kind. -/
def Scalar.less? : Scalar → Scalar → Option Bool
  | .int a, .int b => some (a < b)
  | .long a, .long b => some (a < b)
  | .double a, .double b => some (a < b)
  | _, _ => none

/-- What a builtin raises for scalars that its specialised entry does not serve. -/
def badSpecialization : Raised := ⟨.systemError, "bad specialization"⟩

/-- A result, or the error of a builtin that has none. -/
def orRaise {α : Type} (r : Raised) : Option α → Except Raised α
  | some a => .ok a
  | none => .error r

/-- The generic entry. -/
def Generic.run (args : List Value) : Generic → Except Raised Value
  | const value => .ok value
  | arg n => orRaise ⟨.systemError, "missing argument"⟩ args[n]?
  | less => orRaise ⟨.typeError, "unorderable"⟩ do
      return .bool (← Value.less? (← args[0]?) (← args[1]?))
  | sum => orRaise ⟨.typeError, "unsupported operands"⟩ (sumLeft Value.add? args)
  | echo => .ok (.str (", ".intercalate (args.map Value.display)))
  | raise r => .error r

/-- The specialised entry. -/
def Specialized.run (args : List Scalar) : Specialized → Except Raised Scalar
  | const s => .ok s
  | arg n => orRaise badSpecialization args[n]?
  | less => orRaise badSpecialization do
      return .bool (← Scalar.less? (← args[0]?) (← args[1]?))
  | sum => orRaise badSpecialization (sumLeft Scalar.add? args)
  | raise r => .error r

/-- The declaration of a builtin. Positions beyond a list have no cast and accept nothing. -/
structure Builtin where
  name : String
  casts : List (Option CastSpec)
  accepts : List (List ScalarKind)
  generic : Generic
  /-- Absent for a builtin without a specialised entry. -/
  specialized? : Option Specialized

namespace Builtin

/-- A builtin with a generic entry only. -/
def bare (generic : Generic) : Builtin :=
  { name := "bare", casts := [], accepts := [], generic, specialized? := none }

/-- The operation that a declaration makes. -/
def toOperation (b : Builtin) : Operation σ where
  name := b.name
  makeCast := Operation.standardCasts fun p => (b.casts[p]?).join
  accepts p kind := (b.accepts[p]?.getD []).contains kind
  call args := pure (b.generic.run args)
  callScalars := match b.specialized? with
    | some s => fun args => pure (s.run args)
    | none => Operation.noScalars b.name

end Builtin
end StridedViews
