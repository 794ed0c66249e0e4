import StridedViews.Raise
import StridedViews.Scalar

/-!
Argument coercions. A coercion takes a boxed argument into a domain or raises; a declared cast adds
the position it is for and a default for an argument that was not given. The default stands as it
is: it is not coerced.
-/

namespace StridedViews

variable {σ : Type}

/-- The domain that an argument is coerced to. -/
inductive Coercion where
  /-- Integers in the 32-bit range. -/
  | int
  /-- All integers. -/
  | long
  /-- Doubles; integers and booleans are widened. -/
  | double
  /-- The truth of any value. -/
  | bool
  /-- All integers, for use as an index. -/
  | index
  /-- Anything, unchanged. -/
  | passthrough
  deriving DecidableEq, Repr

/-- A boolean as an integer. -/
def Value.ofTruth (b : Bool) : Value := .int (if b then 1 else 0)

namespace Coercion

def name : Coercion → String
  | int => "int"
  | long => "long"
  | double => "double"
  | bool => "bool"
  | index => "index"
  | passthrough => "object"

/-- Why a value does not belong to a domain. -/
inductive Refusal where
  | wrongType (expected : String) (value : Value)
  | tooWide (i : Int64)

/-- The kind of a refusal and its text. -/
def Refusal.cause : Refusal → ErrorKind × String
  | wrongType expected value => (.typeError, s!"{expected} argument expected, got {value.typeName}")
  | tooWide i => (.overflowError, s!"{i.toInt} does not fit in a 32-bit integer")

/-- The value in the domain, or the reason why there is none. -/
def coerce : Coercion → Value → Except Refusal Value
  | passthrough, v => .ok v
  | bool, v => .ok (.bool v.isTruthy)
  | int, .int i => if fitsInt32 i then .ok (.int i) else .error (.tooWide i)
  | long, .int i | index, .int i => .ok (.int i)
  | int, .bool b | long, .bool b | index, .bool b => .ok (.ofTruth b)
  | double, .float x => .ok (.float x)
  | double, .int i => .ok (.float i.toFloat)
  | double, .bool b => .ok (.float (if b then 1.0 else 0.0))
  | double, v => .error (.wrongType "real number" v)
  | int, v | long, v | index, v => .error (.wrongType "integer" v)

/-- Coerces a value, raising a refusal through the host's handler. -/
def apply (c : Coercion) (v : Value) (raise : RaiseHandler σ) : StateM σ (Except Raised Value) :=
  match c.coerce v with
  | .ok w => pure (.ok w)
  | .error refusal => do
      let (kind, text) := refusal.cause
      return .error (← raise kind text)

end Coercion

/-- The declared cast of one argument position. -/
structure CastSpec where
  coercion : Coercion
  /-- Taken for an argument that was not given; without it the argument is required. -/
  default? : Option Value

/-- Coerces the argument at one position of one operation. -/
abbrev Cast (σ : Type) := Value → RaiseHandler σ → StateM σ (Except Raised Value)

/-- The cast that a specification declares for a position. -/
def CastSpec.toCast (spec : CastSpec) (position : Nat) : Cast σ := fun v raise =>
  match v, spec.default? with
  | .noValue, some default => pure (.ok default)
  | .noValue, none => do
      return .error (← raise .typeError s!"missing required argument at position {position}")
  | v, _ => spec.coercion.apply v raise

end StridedViews
