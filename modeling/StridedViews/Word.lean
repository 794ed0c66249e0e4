/-!
Checked 64-bit arithmetic.

Sizes are natural numbers and byte offsets are integers; a value is *representable* when it fits in
a signed 64-bit word. Every operation here computes exactly and then checks, so `some x` always
carries the exact mathematical result.
-/

namespace StridedViews.Word

/-- One past the largest unsigned 64-bit word. -/
def modulus : Nat := 18446744073709551616

/-- The largest signed 64-bit word. -/
def maxSigned : Int := 9223372036854775807

/-- The smallest signed 64-bit word. -/
def minSigned : Int := -9223372036854775808

/-- An integer as a signed word, if it fits. -/
def signed? (x : Int) : Option Int :=
  if minSigned ≤ x ∧ x ≤ maxSigned then some x else none

/-- A size as a signed byte distance, if it fits. -/
def distance? (n : Nat) : Option Int := signed? n

/-- A natural number as an unsigned word, if it fits. -/
def unsigned? (n : Nat) : Option Nat := if n < modulus then some n else none

def add? (a b : Int) : Option Int := signed? (a + b)

def mul? (a b : Int) : Option Int := signed? (a * b)

/-- The value modulo 2^64, read as a signed word. -/
def wrapSigned (x : Int) : Int := Int.bmod x modulus

/-- The value modulo 2^64, read as an unsigned word. -/
def wrapUnsigned (x : Int) : Nat := (x % modulus).toNat

/-- Bytes as one number, the first byte lowest. -/
def ofLittleEndian (bs : List UInt8) : Nat := bs.foldr (fun b n => b.toNat + 256 * n) 0

theorem signed?_eq_some_iff {x y : Int} :
    signed? x = some y ↔ x = y ∧ minSigned ≤ y ∧ y ≤ maxSigned := by
  unfold signed?
  constructor
  · intro h
    split at h
    · next hx => cases h; exact ⟨rfl, hx⟩
    · cases h
  · rintro ⟨rfl, hx⟩
    rw [if_pos hx]

theorem distance?_eq_some_iff {n : Nat} {y : Int} :
    distance? n = some y ↔ (n : Int) = y ∧ y ≤ maxSigned := by
  unfold distance?
  rw [signed?_eq_some_iff]
  simp only [minSigned, maxSigned]
  omega

theorem unsigned?_eq_some_iff {n m : Nat} : unsigned? n = some m ↔ n = m ∧ n < modulus := by
  unfold unsigned?
  split
  · next hn => simp [hn]
  · next hn => simp [hn]

theorem add?_eq_some_iff {a b y : Int} :
    add? a b = some y ↔ a + b = y ∧ minSigned ≤ y ∧ y ≤ maxSigned := signed?_eq_some_iff

theorem mul?_eq_some_iff {a b y : Int} :
    mul? a b = some y ↔ a * b = y ∧ minSigned ≤ y ∧ y ≤ maxSigned := signed?_eq_some_iff

/-- A wrapped value that fits in an unsigned word is the value itself. -/
theorem wrapUnsigned_of_lt {x : Int} (hnonneg : 0 ≤ x) (hlt : x < modulus) :
    (wrapUnsigned x : Int) = x := by
  rw [wrapUnsigned, Int.emod_eq_of_lt hnonneg hlt, Int.toNat_of_nonneg hnonneg]

/-- Wrapping into the signed words loses nothing of the unsigned word. -/
theorem wrapUnsigned_wrapSigned (x : Int) : wrapUnsigned (wrapSigned x) = wrapUnsigned x := by
  rw [wrapUnsigned, wrapSigned, Int.bmod_emod, wrapUnsigned]

end StridedViews.Word
