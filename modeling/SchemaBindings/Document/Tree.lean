import SchemaBindings.Number.Numeral

namespace SchemaBindings.Document

open SchemaBindings.Number

/-- A value without parts. Flags and numbers keep the text they were written as; `special` is an
infinity or a NaN. -/
inductive Scalar where
  | null
  | flag (value : Bool) (source : String)
  | number (value : Numeral) (source : String)
  | special (value : Double) (source : String)
  | text (value : String)
  deriving DecidableEq, Repr, Inhabited

/-- What a written document says, before it is read as records. Members keep their order and
repeated names. -/
inductive Tree where
  | scalar (value : Scalar)
  | list (items : List Tree)
  | record (members : List (String × Tree))
  deriving Inhabited

namespace Scalar

/-- The text the scalar was written as, if it is one that says something. -/
def source? : Scalar → Option String
  | null => none
  | flag _ source | number _ source | special _ source | text source => some source

end Scalar

namespace Tree

def null : Tree := scalar .null

def ofText (s : String) : Tree := scalar (.text s)

def ofFlag (b : Bool) : Tree := scalar (.flag b (if b then "true" else "false"))

def ofInt (i : Int) : Tree := scalar (.number (.ofInt i) (Text.signedDecimal i))

def isNull : Tree → Bool
  | scalar .null => true
  | _ => false

end Tree

end SchemaBindings.Document
