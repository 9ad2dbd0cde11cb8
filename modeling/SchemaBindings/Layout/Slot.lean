import SchemaBindings.Schema.Kind
import SchemaBindings.Text.Digits

namespace SchemaBindings.Layout

open SchemaBindings.Schema

/-- The part of a struct's encoding that holds a value. -/
inductive Section where
  | none
  | data
  | pointers
  deriving DecidableEq, Repr

namespace Section

def name : Section → String
  | none => "none"
  | data => "data"
  | pointers => "pointers"

def rank : Section → Nat
  | none => 0
  | data => 1
  | pointers => 2

end Section

/-- Void values occupy nothing, scalars lie in the data words, and all else is a pointer. -/
def sectionOf : Kind → Section
  | .void => .none
  | .bool | .int8 | .int16 | .int32 | .int64 | .uint8 | .uint16 | .uint32 | .uint64
  | .float32 | .float64 | .enum => .data
  | _ => .pointers

/-- The bits a scalar occupies; zero for the kinds outside the data section. -/
def bitWidth : Kind → Nat
  | .bool => 1
  | .int8 | .uint8 => 8
  | .int16 | .uint16 | .enum => 16
  | .int32 | .uint32 | .float32 => 32
  | .int64 | .uint64 | .float64 => 64
  | _ => 0

/-- The suffix that selects the runtime's accessors for a scalar kind. Enums are stored as
sixteen-bit numbers. -/
def accessorSuffix? : Kind → Option String
  | .enum => some Kind.uint16.name
  | k => if sectionOf k = .data then some k.name else none

/-- A place inside a struct. In the data section the offset counts units of the kind's width; a
pointer's offset is its index. -/
structure Slot where
  kind : Kind
  offset : UInt32
  deriving DecidableEq, Repr

namespace Slot

def place (s : Slot) : Section :=
  sectionOf s.kind

def bits (s : Slot) : Nat :=
  bitWidth s.kind

/-- The first bit of a data slot. -/
def start (s : Slot) : Nat :=
  s.offset.toNat * s.bits

/-- The first bit behind a data slot. -/
def stop (s : Slot) : Nat :=
  s.start + s.bits

/-- Whether `s` covers every bit, or the pointer, that `o` covers. -/
def contains (s o : Slot) : Bool :=
  if s.place ≠ o.place then false
  else match s.place with
    | .data => s.start ≤ o.start && o.stop ≤ s.stop
    | .pointers => s.offset == o.offset
    | .none => true

def text (s : Slot) : String :=
  match s.place with
  | .data => "data[" ++ Text.decimal s.start ++ ":" ++ Text.decimal s.stop ++ "]"
  | .pointers => "ptr[" ++ Text.decimal s.offset.toNat ++ "]"
  | .none => "void"

/-- Order by section, then by first bit with wider slots first, or by pointer index; the kind
decides between slots at the same place. -/
def before (s o : Slot) : Bool :=
  if s.place ≠ o.place then s.place.rank < o.place.rank
  else match s.place with
    | .data =>
      if s.start ≠ o.start then s.start < o.start
      else if s.bits ≠ o.bits then o.bits < s.bits
      else s.kind.code < o.kind.code
    | .pointers =>
      if s.offset ≠ o.offset then s.offset < o.offset else s.kind.code < o.kind.code
    | .none => s.kind.code < o.kind.code

end Slot

end SchemaBindings.Layout
