import SchemaBindings.Number.Power

namespace SchemaBindings.Number

/-- A binary interchange format: a sign bit, then the exponent, then the fraction. -/
structure BinaryFormat where
  fractionBits : Nat
  exponentBits : Nat
  deriving DecidableEq, Repr

def binary32 : BinaryFormat := ⟨23, 8⟩

def binary64 : BinaryFormat := ⟨52, 11⟩

namespace BinaryFormat

/-- The exponent of the last place of subnormal numbers: the smallest positive number is `2 ^ minExponent`. -/
def minExponent (f : BinaryFormat) : Int :=
  2 - (twoPow (f.exponentBits - 1) : Int) - f.fractionBits

/-- The pattern of positive infinity: all exponent bits set. -/
def infinity (f : BinaryFormat) : Nat :=
  (twoPow f.exponentBits - 1) * twoPow f.fractionBits

def signBit (f : BinaryFormat) : Nat :=
  twoPow (f.fractionBits + f.exponentBits)

/-- The fraction bit that tells a quiet NaN. -/
def quietBit (f : BinaryFormat) : Nat :=
  twoPow (f.fractionBits - 1)

def isNegative (f : BinaryFormat) (pattern : Nat) : Bool :=
  f.signBit ≤ pattern

/-- The pattern without its sign. -/
def magnitude (f : BinaryFormat) (pattern : Nat) : Nat :=
  pattern % f.signBit

def withSign (f : BinaryFormat) (negative : Bool) (magnitude : Nat) : Nat :=
  if negative then f.signBit + magnitude else magnitude

def isNaN (f : BinaryFormat) (pattern : Nat) : Bool :=
  f.infinity < f.magnitude pattern

def isInfinite (f : BinaryFormat) (pattern : Nat) : Bool :=
  f.magnitude pattern == f.infinity

def isFinite (f : BinaryFormat) (pattern : Nat) : Bool :=
  f.magnitude pattern < f.infinity

def isZero (f : BinaryFormat) (pattern : Nat) : Bool :=
  f.magnitude pattern == 0

/-- A finite magnitude is `significand * 2 ^ exponent`. Subnormal numbers have no leading one. -/
def significand (f : BinaryFormat) (magnitude : Nat) : Nat :=
  if magnitude < twoPow f.fractionBits then magnitude
  else twoPow f.fractionBits + magnitude % twoPow f.fractionBits

def exponent (f : BinaryFormat) (magnitude : Nat) : Int :=
  if magnitude < twoPow f.fractionBits then f.minExponent
  else f.minExponent + (magnitude / twoPow f.fractionBits - 1 : Nat)

end BinaryFormat

/-- The fraction `n / d` times `2 ^ e`. -/
def scaleTwo (n d : Nat) (e : Int) : Nat × Nat :=
  if 0 ≤ e then (n * twoPow e.toNat, d) else (n, d * twoPow (-e).toNat)

/-- The fraction `n / d` times `10 ^ e`. -/
def scaleTen (n d : Nat) (e : Int) : Nat × Nat :=
  if 0 ≤ e then (n * tenPow e.toNat, d) else (n, d * tenPow (-e).toNat)

/-- The quotient rounded to the nearest natural number, a half to the even neighbour. -/
def roundHalfEven (n d : Nat) : Nat :=
  let q := n / d
  let r := n % d
  if 2 * r < d then q
  else if d < 2 * r then q + 1
  else if q % 2 = 0 then q else q + 1

/-- `⌊log₂ (n / d)⌋` for a positive fraction. -/
def floorLogTwo (n d : Nat) : Int :=
  let k : Int := (n.log2 : Int) - (d.log2 : Int)
  let (a, b) := scaleTwo n d (-k)
  if b ≤ a then k else k - 1

namespace BinaryFormat

/-- The magnitude nearest to a non-negative fraction, a half to the even neighbour; infinity when
the fraction lies past the largest finite number. -/
def nearest (f : BinaryFormat) (n d : Nat) : Nat :=
  if n = 0 then 0
  else
    let e := max f.minExponent (floorLogTwo n d - f.fractionBits)
    let (a, b) := scaleTwo n d (-e)
    min f.infinity ((e - f.minExponent).toNat * twoPow f.fractionBits + roundHalfEven a b)

/-- A finite magnitude as a fraction. -/
def fraction (f : BinaryFormat) (magnitude : Nat) : Nat × Nat :=
  scaleTwo (f.significand magnitude) 1 (f.exponent magnitude)

end BinaryFormat

/-- A double-precision number, as its bit pattern, so that both zeros and every NaN are kept. -/
structure Double where
  bits : UInt64
  deriving DecidableEq, Repr, Inhabited

namespace Double

def ofPattern (pattern : Nat) : Double :=
  ⟨UInt64.ofNat pattern⟩

def pattern (x : Double) : Nat :=
  x.bits.toNat

def isNaN (x : Double) : Bool := binary64.isNaN x.pattern

def isInfinite (x : Double) : Bool := binary64.isInfinite x.pattern

def isFinite (x : Double) : Bool := binary64.isFinite x.pattern

def isNegative (x : Double) : Bool := binary64.isNegative x.pattern

/-- Either zero. -/
def isZero (x : Double) : Bool := binary64.isZero x.pattern

/-- The single-precision pattern nearest to `x`. A NaN keeps its sign and the upper part of its
payload and becomes quiet. -/
def narrow (x : Double) : Nat :=
  let m := binary64.magnitude x.pattern
  let narrowed :=
    if x.isNaN then
      let payload := (m % twoPow binary64.fractionBits)
        / twoPow (binary64.fractionBits - binary32.fractionBits)
      binary32.infinity + (payload ||| binary32.quietBit)
    else if x.isInfinite then binary32.infinity
    else
      let (n, d) := binary64.fraction m
      binary32.nearest n d
  binary32.withSign x.isNegative narrowed

/-- The number a single-precision pattern stands for. A NaN keeps its sign and payload and becomes
quiet. -/
def widen (pattern : Nat) : Double :=
  let m := binary32.magnitude pattern
  let widened :=
    if binary32.isNaN pattern then
      let payload := (m % twoPow binary32.fractionBits)
        * twoPow (binary64.fractionBits - binary32.fractionBits)
      binary64.infinity + (payload ||| binary64.quietBit)
    else if binary32.isInfinite pattern then binary64.infinity
    else
      let (n, d) := binary32.fraction m
      binary64.nearest n d
  ofPattern (binary64.withSign (binary32.isNegative pattern) widened)

/-- The whole part of a finite number. -/
def truncate (x : Double) : Int :=
  let (n, d) := binary64.fraction (binary64.magnitude x.pattern)
  if x.isNegative then -((n / d : Nat) : Int) else (n / d : Nat)

end Double

end SchemaBindings.Number
