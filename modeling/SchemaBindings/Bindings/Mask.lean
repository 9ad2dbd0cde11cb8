import SchemaBindings.Bindings.Expr
import SchemaBindings.Schema.Value

namespace SchemaBindings.Bindings

open SchemaBindings.Schema SchemaBindings.Text

/-- A scalar as the runtime's accessors take it: flags are told from numbers, and numbers of 64 bits
come in two halves. -/
inductive Scalar where
  | flag (value : Bool)
  | number (value : Int)
  | words (value : WordPair)
  deriving DecidableEq, Repr

def Scalar.text : Scalar → String
  | flag value => if value then "true" else "false"
  | number value => signedDecimal value
  | words value => value.text

/-- The pattern that is combined with a slot by exclusive or, so that zeroed storage reads as the
default. -/
abbrev Mask := Scalar

/-- The mask of a default; none when the default's pattern is zero or it lies behind a pointer. A
negative zero has a pattern of its own. -/
def defaultMask? (v : Value) : Option Mask :=
  match v.kind with
  | .bool => if v.bool then some (.flag true) else none
  | .int8 | .int16 | .int32 => if v.int = 0 then none else some (.number v.int.toInt)
  | .uint8 | .uint16 | .uint32 => if v.uint = 0 then none else some (.number v.uint.toNat)
  | .int64 => if v.int = 0 then none else some (.words (.ofInt v.int.toInt))
  | .uint64 => if v.uint = 0 then none else some (.words (.ofInt v.uint.toNat))
  | .float32 => if v.float.narrow = 0 then none else some (.number v.float.narrow)
  | .float64 => if v.float.bits = 0 then none else some (.words (.ofInt v.float.pattern))
  | .enum => if v.enum = 0 then none else some (.number v.enum.toNat)
  | _ => none

/-- What is written to clear a data slot. -/
def zeroScalar : Kind → Scalar
  | .bool => .flag false
  | .int64 | .uint64 | .float64 => .words ⟨0, 0⟩
  | _ => .number 0

def zeroText (kind : Kind) : String :=
  (zeroScalar kind).text

end SchemaBindings.Bindings
