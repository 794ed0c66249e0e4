import StridedViews.Value

/-!
Unboxed scalars, as the specialised entry of an operation takes and returns them. `Scalar.narrow?`
reads a boxed value back as a scalar of a wanted kind; `narrow?_toValue` says that boxing loses
nothing that its own kind could see.
-/

namespace StridedViews

/-- The kinds of unboxed scalar. -/
inductive ScalarKind where
  | bool | int | long | double
  deriving DecidableEq, Repr, Inhabited

/-- An unboxed scalar: `int` holds 32 bits and `long` 64. -/
inductive Scalar where
  | bool (b : Bool)
  | int (i : Int32)
  | long (i : Int64)
  | double (x : Float)
  deriving Inhabited

/-- Whether a 64-bit integer is in the 32-bit range. -/
def fitsInt32 (i : Int64) : Bool := -2147483648 ≤ i.toInt && i.toInt ≤ 2147483647

namespace Scalar

def kind : Scalar → ScalarKind
  | bool _ => .bool
  | int _ => .int
  | long _ => .long
  | double _ => .double

/-- Boxes a scalar; both widths of integer become the same kind of value. -/
def toValue : Scalar → Value
  | bool b => .bool b
  | int i => .int i.toInt64
  | long i => .int i
  | double x => .float x

/-- The scalar itself, if it has exactly the wanted kind. -/
def ofKind? (wanted : ScalarKind) (s : Scalar) : Option Scalar :=
  if s.kind = wanted then some s else none

/-- A boxed value as a scalar of the wanted kind. An integer narrows to either width that holds it;
nothing else changes type. -/
def narrow? : ScalarKind → Value → Option Scalar
  | .bool, .bool b => some (bool b)
  | .int, .int i => if fitsInt32 i then some (int i.toInt32) else none
  | .long, .int i => some (long i)
  | .double, .float x => some (double x)
  | _, _ => none

theorem ofKind?_eq_some_iff {wanted : ScalarKind} {s t : Scalar} :
    ofKind? wanted s = some t ↔ s = t ∧ s.kind = wanted := by
  unfold ofKind?
  by_cases h : s.kind = wanted <;> simp [h]

theorem kind_of_narrow? {wanted : ScalarKind} {v : Value} {s : Scalar}
    (h : narrow? wanted v = some s) : s.kind = wanted := by
  unfold narrow? at h
  split at h
  · cases h; rfl
  · split at h
    · cases h; rfl
    · cases h
  · cases h; rfl
  · cases h; rfl
  · cases h

theorem fitsInt32_toInt64 (i : Int32) : fitsInt32 i.toInt64 = true := by
  have h₁ := i.le_toInt
  have h₂ := i.toInt_lt
  simp only [fitsInt32, Int32.toInt_toInt64, Bool.and_eq_true, decide_eq_true_eq]
  omega

/-- A boxed scalar narrows back to itself at its own kind. -/
theorem narrow?_toValue (s : Scalar) : narrow? s.kind s.toValue = some s := by
  cases s with
  | bool _ => rfl
  | int i => simp [kind, toValue, narrow?, fitsInt32_toInt64]
  | long _ => rfl
  | double _ => rfl

end Scalar
end StridedViews
