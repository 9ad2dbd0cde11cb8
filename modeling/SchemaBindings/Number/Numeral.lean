import SchemaBindings.Number.Binary
import SchemaBindings.Text.Digits

namespace SchemaBindings.Number

/-- A written number: `coefficient * 10 ^ exponent`, with its sign. It is `plain` when it is
written as an integer, without fraction, exponent or superfluous zeros. -/
structure Numeral where
  negative : Bool
  coefficient : Nat
  exponent : Int
  plain : Bool
  deriving DecidableEq, Repr, Inhabited

namespace Numeral

def ofInt (i : Int) : Numeral :=
  ⟨i < 0, i.natAbs, 0, true⟩

/-- The signed coefficient; the value of a plain numeral. -/
def toInt (n : Numeral) : Int :=
  if n.negative then -(n.coefficient : Int) else n.coefficient

/-- Numbers below this power of ten are read as zero. -/
def leastExponent : Int := -400

/-- Numbers from this power of ten on are past the range of the double format. -/
def greatestExponent : Int := 400

/-- The double nearest to the number; infinite when it is out of range. -/
def toDouble (n : Numeral) : Double :=
  let order := n.exponent + (Nat.toDigits 10 n.coefficient).length
  let magnitude :=
    if n.coefficient = 0 ∨ order < leastExponent then 0
    else if greatestExponent < order then binary64.infinity
    else
      let (a, b) := scaleTen n.coefficient 1 n.exponent
      binary64.nearest a b
  .ofPattern (binary64.withSign n.negative magnitude)

/-- The double nearest to the number, if it is in range. -/
def toFinite? (n : Numeral) : Option Double :=
  let x := n.toDouble
  if x.isFinite then some x else none

end Numeral

/-- An optional sign and at least one digit. -/
def readExponent? (cs : List Char) : Option Int :=
  match cs with
  | '+' :: ds => (decimalDigits? ds).map Int.ofNat
  | '-' :: ds => (decimalDigits? ds).map fun n => -(n : Int)
  | ds => (decimalDigits? ds).map Int.ofNat
where
  decimalDigits? (ds : List Char) : Option Nat :=
    if ds.all Char.isDigit then Text.readDigits? 10 ds else none

/-- Digits with an optional fraction and an optional exponent; a digit must stand before or after
the point. -/
def readUnsigned? (cs : List Char) : Option Numeral :=
  let whole := cs.takeWhile Char.isDigit
  let rest := cs.dropWhile Char.isDigit
  let (fraction, rest', pointed) :=
    match rest with
    | '.' :: r => (r.takeWhile Char.isDigit, r.dropWhile Char.isDigit, true)
    | r => ([], r, false)
  do
    let coefficient ← Text.readDigits? 10 (whole ++ fraction)
    let (exponent, scaled) ← (match rest' with
      | [] => some (0, false)
      | c :: r => if c = 'e' ∨ c = 'E' then (readExponent? r).map (·, true) else none)
    let leadingZero := whole.length > 1 && whole.head? == some '0'
    return ⟨false, coefficient, exponent - fraction.length, !pointed && !scaled && !leadingZero⟩

/-- A decimal number with an optional minus sign. -/
def readNumeral? : List Char → Option Numeral
  | '-' :: cs => (readUnsigned? cs).map fun n => { n with negative := true }
  | cs => readUnsigned? cs

end SchemaBindings.Number
