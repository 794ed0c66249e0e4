import StridedViews.Toml.Node
import StridedViews.Toml.Quoted
import StridedViews.Word

/-!
TOML values written without quotes or brackets: booleans, integers in four bases, floats, dates and
times. `Node.ofToken?` decides about a whole token; integers must fit in a signed 64-bit word.
-/

namespace StridedViews.Toml

/-- The characters of a token. -/
def isTokenChar (c : Char) : Bool :=
  c.isAlphanum || c = '_' || c = '+' || c = '-' || c = '.' || c = ':'

/-- The token in front, with what follows it. -/
def splitToken (s : List Char) : List Char × List Char := s.span isTokenChar

/-- The value of a digit in a base. -/
def digit? (base : Nat) (c : Char) : Option Nat := (hexDigit? c).filter (· < base)

/-- The digits of a number in a base, with single underscores only between two digits. -/
def digits? (base : Nat) : List Char → Option (List Nat)
  | [] => none
  | [c] => (digit? base c).map ([·])
  | c :: '_' :: rest => do return (← digit? base c) :: (← digits? base rest)
  | c :: rest => do return (← digit? base c) :: (← digits? base rest)

/-- The number that digits spell. -/
def spelled (base : Nat) (ds : List Nat) : Nat := ds.foldl (base * · + ·) 0

/-- Digits without a leading zero, unless the zero is all. -/
def wholeDigits? (s : List Char) : Option (List Nat) := do
  let ds ← digits? 10 s
  if ds.head? = some 0 ∧ ds.length ≠ 1 then none else some ds

/-- Takes a sign off the front. -/
def splitSign : List Char → Bool × List Char
  | '-' :: rest => (true, rest)
  | '+' :: rest => (false, rest)
  | s => (false, s)

/-- An integer with an optional sign, or unsigned in base 16, 8 or 2. -/
def integer? : List Char → Option Int
  | '0' :: 'x' :: rest => unsigned 16 rest
  | '0' :: 'o' :: rest => unsigned 8 rest
  | '0' :: 'b' :: rest => unsigned 2 rest
  | s => do
      let (negative, body) := splitSign s
      let n := spelled 10 (← wholeDigits? body)
      Word.signed? (if negative then -(n : Int) else n)
where
  /-- A number without a sign. -/
  unsigned (base : Nat) (s : List Char) : Option Int := do
    Word.signed? (spelled base (← digits? base s))

/-- Whether `digits * 10 ^ exponent` rounds to a finite double: it lies below the middle between the
largest double and the power of two beyond. -/
def isFiniteDecimal (digits : List Nat) (exponent : Int) : Bool :=
  let n := spelled 10 digits
  let size := (Nat.toDigits 10 n).length
  if n = 0 ∨ exponent + size ≤ 308 then true
  else if 310 < exponent + size then false
  else
    n * Nat.pow 10 exponent.toNat <
      (Nat.pow 2 1024 - Nat.pow 2 970) * Nat.pow 10 (-exponent).toNat

/-- The exponent of a float, behind its letter. -/
def exponent? (s : List Char) : Option Int := do
  let (negative, body) := splitSign s
  let n := spelled 10 (← digits? 10 body)
  return if negative then -(n : Int) else n

/-- Whether a token is a float. A positive one must be finite. -/
def isFloat (s : List Char) : Bool :=
  let (negative, body) := splitSign s
  if body = ['i', 'n', 'f'] ∨ body = ['n', 'a', 'n'] then true
  else
    let (mantissa, rest) := body.span fun c => c ≠ 'e' && c ≠ 'E'
    let (whole, fraction) := mantissa.span (· ≠ '.')
    let parsed := do
      let ws ← wholeDigits? whole
      let fs ← match fraction with
        | [] => some []
        | _ :: fs => digits? 10 fs
      let e ← match rest with
        | [] => if fraction.isEmpty then none else some 0
        | _ :: es => exponent? es
      return negative || isFiniteDecimal (ws ++ fs) (e - fs.length)
    parsed.getD false

/-- A number of exactly `width` digits in a range. -/
def fixed? (width lo hi : Nat) (s : List Char) : Option Nat := do
  let ds ← s.mapM (digit? 10)
  let n := spelled 10 ds
  if s.length = width ∧ lo ≤ n ∧ n ≤ hi then some n else none

/-- The days of a month. -/
def daysIn (year month : Nat) : Nat :=
  if month = 2 then
    if year % 4 = 0 ∧ (year % 100 ≠ 0 ∨ year % 400 = 0) then 29 else 28
  else if month = 4 ∨ month = 6 ∨ month = 9 ∨ month = 11 then 30
  else 31

/-- Whether a text is `yyyy-mm-dd`. -/
def isDate : List Char → Bool
  | [y₁, y₂, y₃, y₄, '-', m₁, m₂, '-', d₁, d₂] =>
    (do
      let year ← fixed? 4 0 9999 [y₁, y₂, y₃, y₄]
      let month ← fixed? 2 1 12 [m₁, m₂]
      fixed? 2 1 (daysIn year month) [d₁, d₂]).isSome
  | _ => false

/-- Whether a text is empty or a point with digits behind it. -/
def isSecondFraction : List Char → Bool
  | [] => true
  | '.' :: ds => !ds.isEmpty && ds.all Char.isDigit
  | _ => false

/-- Whether a text is `hh:mm:ss`, perhaps with a fraction; a minute may have a 61st second. -/
def isTime : List Char → Bool
  | h₁ :: h₂ :: ':' :: m₁ :: m₂ :: ':' :: s₁ :: s₂ :: fraction =>
    (fixed? 2 0 23 [h₁, h₂]).isSome && (fixed? 2 0 59 [m₁, m₂]).isSome &&
      (fixed? 2 0 60 [s₁, s₂]).isSome && isSecondFraction fraction
  | _ => false

/-- Whether a text is a time, perhaps with the offset of a time zone. -/
def isOffsetTime (s : List Char) : Bool :=
  let (time, offset) := s.span fun c => c.isDigit || c = ':' || c = '.'
  let isOffset := match offset with
    | [] | ['Z'] | ['z'] => true
    | [sign, h₁, h₂, ':', m₁, m₂] =>
      (sign = '+' || sign = '-') && (fixed? 2 0 23 [h₁, h₂]).isSome &&
        (fixed? 2 0 59 [m₁, m₂]).isSome
    | _ => false
  isTime time && isOffset

/-- Whether a token is a date, a time, or both with a letter between them. -/
def isDateTime (s : List Char) : Bool :=
  isTime s || isDate s ||
    (isDate (s.take 10) &&
      match s.drop 10 with
      | c :: time => (c = 'T' || c = 't') && isOffsetTime time
      | [] => false)

/-- The value of a token. -/
def Node.ofToken? (s : List Char) : Option Node :=
  if s = "true".toList then some (.boolean true)
  else if s = "false".toList then some (.boolean false)
  else if isDateTime s || isFloat s then some .unread
  else (integer? s).map .integer

end StridedViews.Toml
