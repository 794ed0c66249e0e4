/-!
The shortest decimal text of a double.

A finite double stands for the interval of reals that round to it. Among the decimals in that
interval the text takes one with the fewest significant digits, of two such the nearer, and of two
equally near the one away from zero. All arithmetic is exact, on natural numbers.
-/

namespace StridedViews.Text

/-- A positive finite double, `mantissa * 2 ^ exponent`. -/
structure Binary where
  mantissa : Nat
  exponent : Int
  /-- The next smaller double is only half as far away as the next larger one. -/
  tightBelow : Bool
  deriving DecidableEq, Repr

/-- A decimal, `digits * 10 ^ exponent`. -/
structure Decimal where
  digits : Nat
  exponent : Int
  deriving DecidableEq, Repr

/-- What the 64 bits of a double say, its sign apart. -/
inductive Magnitude where
  | notANumber
  | infinite
  | zero
  | finite (b : Binary)
  deriving DecidableEq, Repr

/-- Reads the exponent and fraction fields of a double. -/
def Magnitude.ofBits (bits : Nat) : Magnitude :=
  let fraction : Nat := bits % Nat.pow 2 52
  let biased : Nat := bits / Nat.pow 2 52 % 2048
  if biased = 2047 then
    if fraction = 0 then infinite else notANumber
  else if biased = 0 then
    if fraction = 0 then zero else finite ⟨fraction, -1074, false⟩
  else
    finite ⟨Nat.pow 2 52 + fraction, (biased : Int) - 1075, fraction = 0 && 1 < biased⟩

/-- An interval of rationals with one denominator, and a value inside it. -/
structure Interval where
  low : Nat
  value : Nat
  high : Nat
  denominator : Nat
  /-- Whether the two ends belong to it. -/
  closed : Bool
  deriving DecidableEq, Repr

/-- The interval of reals that round to a double. Its ends are halfway to the neighbouring doubles,
in quarters of the mantissa's unit, and belong to it when the mantissa is even. -/
def Binary.interval (b : Binary) : Interval :=
  let quarter := b.exponent - 2
  let up := Nat.pow 2 quarter.toNat
  { low := (4 * b.mantissa - if b.tightBelow then 1 else 2) * up
    value := 4 * b.mantissa * up
    high := (4 * b.mantissa + 2) * up
    denominator := Nat.pow 2 (-quarter).toNat
    closed := b.mantissa % 2 = 0 }

namespace Interval

/-- The interval measured in units of `10 ^ t`. -/
def inUnits (i : Interval) (t : Int) : Interval :=
  let down := Nat.pow 10 (-t).toNat
  { i with
    low := i.low * down
    value := i.value * down
    high := i.high * down
    denominator := i.denominator * Nat.pow 10 t.toNat }

/-- Whether the whole number `n` lies in the interval. -/
def holds (i : Interval) (n : Nat) : Bool :=
  let x := n * i.denominator
  if i.closed then i.low ≤ x && x ≤ i.high else i.low < x && x < i.high

/-- The whole number in the interval that is nearest to its value, upwards if two are, among the two
that enclose the value. -/
def nearest? (i : Interval) : Option Nat :=
  let below := i.value / i.denominator
  let distance := i.value - below * i.denominator
  match i.holds below, i.holds (below + 1) with
  | false, false => none
  | true, false => some below
  | false, true => some (below + 1)
  | true, true => some (if 2 * distance < i.denominator then below else below + 1)

/-- The number of digits before the point; zero or negative for a value below 1/10. No double is
small enough for its 400-fold shift to be 0. -/
def magnitude (i : Interval) : Int :=
  ((Nat.toDigits 10 (i.value * Nat.pow 10 400 / i.denominator)).length : Int) - 400

/-- The shortest decimal in the interval; 17 digits always suffice for a double. -/
def shortest (i : Interval) : Decimal :=
  let candidates := (List.range 17).findSome? fun k =>
    let t := i.magnitude - (k + 1 : Nat)
    (i.inUnits t).nearest?.map (Decimal.mk · t)
  candidates.getD ⟨0, 0⟩

end Interval

/-- Removes the zeros at the end of a number. -/
def dropZeros (ds : List Char) : List Char := (ds.reverse.dropWhile (· = '0')).reverse

/-- Writes a decimal: positionally from 10^-4 up to below 10^16, and otherwise with one digit before
the point and an exponent. The positional form always has a point, the other only where digits
follow it. -/
def Decimal.render (d : Decimal) : List Char :=
  let all := Nat.toDigits 10 d.digits
  let point := (all.length : Int) + d.exponent
  let ds := dropZeros all
  if -4 < point ∧ point ≤ 16 then
    if point ≤ 0 then
      '0' :: '.' :: List.replicate (-point).toNat '0' ++ ds
    else
      let before := ds.take point.toNat
      let after := ds.drop point.toNat
      before ++ List.replicate (point.toNat - before.length) '0' ++
        '.' :: (if after.isEmpty then ['0'] else after)
  else
    ds.take 1 ++ (if ds.length ≤ 1 then [] else '.' :: ds.drop 1) ++
      'e' :: (toString (point - 1)).toList

/-- The text of the double with the given bits. -/
def doubleText (bits : Nat) : String :=
  let sign := if bits / Nat.pow 2 63 % 2 = 1 then "-" else ""
  match Magnitude.ofBits bits with
  | .notANumber => "NaN"
  | .infinite => sign ++ "inf"
  | .zero => sign ++ "0.0"
  | .finite b => sign ++ String.ofList b.interval.shortest.render

/-- The text of a double. -/
def floatText (x : Float) : String := doubleText x.toBits.toNat

end StridedViews.Text
