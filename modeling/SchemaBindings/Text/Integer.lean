import SchemaBindings.Number.Power
import SchemaBindings.Text.Digits

namespace SchemaBindings.Text

open SchemaBindings.Number

/-- Why a text is no integer of sixty-four bits. -/
inductive NotInteger where
  | malformed
  | outOfRange
  deriving DecidableEq, Repr

/-- Reads digits from the left over the number so far. A number that leaves sixty-four bits is out
of range whatever follows; underscores are passed over where they may divide digits. -/
def digitsFrom (base : Nat) (divided : Bool) (n : Nat) : List Char → Except NotInteger Nat
  | [] => .ok n
  | c :: cs =>
    if divided && c == '_' then digitsFrom base divided n cs
    else match digitValue? c with
      | some d =>
        if base ≤ d then .error .malformed
        else if twoPow 64 ≤ n * base + d then .error .outOfRange
        else digitsFrom base divided (n * base + d) cs
      | none => .error .malformed

/-- The base that a number starts to tell, and its digits. A zero before other digits means octal. -/
def splitBase : List Char → Nat × List Char
  | '0' :: mark :: c :: cs =>
    if mark = 'b' ∨ mark = 'B' then (2, c :: cs)
    else if mark = 'o' ∨ mark = 'O' then (8, c :: cs)
    else if mark = 'x' ∨ mark = 'X' then (16, c :: cs)
    else (8, mark :: c :: cs)
  | '0' :: cs => (8, cs)
  | cs => (10, cs)

/-- Every underscore follows a digit and is followed by one. -/
def underscoresDivide (afterDigit : Bool) : List Char → Bool
  | [] => true
  | '_' :: cs =>
    afterDigit && (cs.head?.map fun c => c != '_').getD false && underscoresDivide false cs
  | _ :: cs => underscoresDivide true cs

/-- Gives a number its sign, if there is room for it. -/
def withSign (negative : Bool) (n : Nat) : Except NotInteger Int :=
  if negative then if n ≤ twoPow 63 then .ok (-(n : Int)) else .error .outOfRange
  else if n < twoPow 63 then .ok n else .error .outOfRange

/-- Takes an optional sign off. -/
def splitSign : List Char → Bool × List Char
  | '-' :: cs => (true, cs)
  | '+' :: cs => (false, cs)
  | cs => (false, cs)

/-- A decimal integer with an optional sign. -/
def decimalInteger (s : String) : Except NotInteger Int := do
  let (negative, cs) := splitSign s.toList
  if cs.isEmpty then .error .malformed
  withSign negative (← digitsFrom 10 false 0 cs)

/-- An integer with an optional sign in the base that it tells. Underscores may divide its digits,
also from the mark of the base. -/
def literalInteger (s : String) : Except NotInteger Int := do
  let (negative, cs) := splitSign s.toList
  if cs.isEmpty then .error .malformed
  let (base, digits) := splitBase cs
  let n ← digitsFrom base true 0 digits
  if underscoresDivide (base != 10) digits then withSign negative n else .error .malformed

/-- The words for the two truth values. -/
def readFlag? (s : String) : Option Bool :=
  if ["1", "t", "T", "TRUE", "true", "True"].contains s then some true
  else if ["0", "f", "F", "FALSE", "false", "False"].contains s then some false
  else none

end SchemaBindings.Text
