import SchemaBindings.Number.Binary

namespace SchemaBindings.Number

/-- The decimal number `digits * 10 ^ exponent`. -/
structure Decimal where
  digits : Nat
  exponent : Int
  deriving DecidableEq, Repr

/-- The interval of reals that round to one magnitude, and the magnitude itself, as multiples of
`2 ^ unit`. The ends belong to it when the significand is even. -/
structure Neighbourhood where
  low : Nat
  value : Nat
  high : Nat
  unit : Int
  closed : Bool
  deriving DecidableEq, Repr

namespace BinaryFormat

/-- Half a unit in the last place on both sides, a quarter below a power of two, where the
numbers lie twice as dense. -/
def neighbourhood (f : BinaryFormat) (magnitude : Nat) : Neighbourhood :=
  let m := f.significand magnitude
  let narrowBelow := m == twoPow f.fractionBits && twoPow (f.fractionBits + 1) ≤ magnitude
  { low := if narrowBelow then 4 * m - 1 else 4 * m - 2
    value := 4 * m
    high := 4 * m + 2
    unit := f.exponent magnitude - 2
    closed := m % 2 == 0 }

end BinaryFormat

namespace Neighbourhood

/-- `k * 10 ^ i` over `2 ^ unit`, as a fraction. -/
def gridPoint (h : Neighbourhood) (i : Int) (k : Nat) : Nat × Nat :=
  let (n, d) := scaleTen k 1 i
  scaleTwo n d (-h.unit)

/-- Whether `k * 10 ^ i` lies in the interval. -/
def holds (h : Neighbourhood) (i : Int) (k : Nat) : Bool :=
  let (n, d) := h.gridPoint i k
  if h.closed then h.low * d ≤ n && n ≤ h.high * d else h.low * d < n && n < h.high * d

/-- The greatest `k` with `k * 10 ^ i` at most the value. -/
def below (h : Neighbourhood) (i : Int) : Nat :=
  let (n, d) := h.gridPoint i 1
  h.value * d / n

/-- The point of the grid `10 ^ i` that lies in the interval and is nearest to the value; of two
equally near ones the even. Only the two neighbours of the value can be it. -/
def onGrid? (h : Neighbourhood) (i : Int) : Option Nat :=
  let k := h.below i
  match h.holds i k, h.holds i (k + 1) with
  | false, false => none
  | true, false => some k
  | false, true => some (k + 1)
  | true, true =>
    let (n, d) := h.gridPoint i k
    let (n', d') := h.gridPoint i (k + 1)
    let down := (h.value * d - n) * d'
    let up := (n' - h.value * d') * d
    if down < up then some k
    else if up < down then some (k + 1)
    else some (if k % 2 = 0 then k else k + 1)

/-- The first hit on the grids `10 ^ i`, `10 ^ (i - 1)`, … -/
def scan (h : Neighbourhood) : Nat → Int → Option Decimal
  | 0, _ => none
  | steps + 1, i =>
    match h.onGrid? i with
    | some k => some ⟨k, i⟩
    | none => h.scan steps (i - 1)

/-- An exponent whose power of ten exceeds the value. -/
def topExponent (h : Neighbourhood) : Int :=
  let (n, d) := scaleTwo h.value 1 h.unit
  if d ≤ n then (Nat.toDigits 10 (n / d)).length
  else 2 - ((Nat.toDigits 10 (d / n)).length : Int)

end Neighbourhood

namespace BinaryFormat

/-- More grids than the significant digits any number of the two formats needs. -/
def gridCount : Nat := 24

/-- The decimal with the fewest digits that reads back as the given finite positive magnitude, and
of those the nearest. -/
def shortest (f : BinaryFormat) (magnitude : Nat) : Decimal :=
  let h := f.neighbourhood magnitude
  (h.scan gridCount h.topExponent).getD ⟨0, 0⟩

end BinaryFormat

end SchemaBindings.Number
