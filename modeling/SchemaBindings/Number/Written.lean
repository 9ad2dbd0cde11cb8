import SchemaBindings.Number.Shortest
import SchemaBindings.Text.Digits

namespace SchemaBindings.Number

/-- How digits are laid out: positionally while the exponent of the first digit lies in a range,
and otherwise with a signed exponent of at least `exponentWidth` digits. -/
structure WrittenForm where
  leastPositional : Int
  pastPositional : Int
  exponentWidth : Nat
  deriving DecidableEq, Repr

/-- Numbers from a ten-thousandth up to a million are written positionally. -/
def general : WrittenForm := ⟨-4, 6, 2⟩

namespace WrittenForm

def exponentText (t : WrittenForm) (e : Int) : String :=
  let digits := Nat.toDigits 10 e.natAbs
  (if e < 0 then "e-" else "e+")
    ++ String.ofList (List.replicate (t.exponentWidth - digits.length) '0' ++ digits)

/-- The first digit, a point if more digits follow, and the exponent. -/
def scientific (t : WrittenForm) (digits : List Char) (e : Int) : String :=
  match digits with
  | [] => "0"
  | [d] => String.singleton d ++ t.exponentText e
  | d :: ds => String.ofList (d :: '.' :: ds) ++ t.exponentText e

/-- Digits around a point that stands after the first `point` of them, zeros filled in. -/
def positional (digits : List Char) (point : Int) : String :=
  if point ≤ 0 then
    String.ofList ('0' :: '.' :: List.replicate (-point).toNat '0' ++ digits)
  else if (digits.length : Int) ≤ point then
    String.ofList (digits ++ List.replicate (point.toNat - digits.length) '0')
  else
    String.ofList (digits.take point.toNat ++ '.' :: digits.drop point.toNat)

def decimal (t : WrittenForm) (d : Decimal) : String :=
  let digits := Nat.toDigits 10 d.digits
  let point := (digits.length : Int) + d.exponent
  if point - 1 < t.leastPositional ∨ t.pastPositional ≤ point - 1 then
    t.scientific digits (point - 1)
  else positional digits point

end WrittenForm

/-- The shortest text that reads back as the number with this pattern. Zeros keep their sign, and
an infinite number is written with its sign. -/
def BinaryFormat.text (f : BinaryFormat) (pattern : Nat) : String :=
  let sign := if f.isNegative pattern then "-" else ""
  let m := f.magnitude pattern
  if f.isNaN pattern then "NaN"
  else if f.isInfinite pattern then (if f.isNegative pattern then "-Inf" else "+Inf")
  else if m = 0 then sign ++ "0"
  else sign ++ general.decimal (f.shortest m)

end SchemaBindings.Number
