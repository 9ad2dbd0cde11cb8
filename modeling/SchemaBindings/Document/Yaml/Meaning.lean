import SchemaBindings.Document.Tree
import SchemaBindings.Document.Yaml.Node

namespace SchemaBindings.Document.Yaml

open SchemaBindings.Number

/-- The digits of an unsigned integer: hexadecimal, octal or binary after a mark for the base, octal
also after a zero alone, and else decimal. -/
def magnitude? : List Char → Option Nat
  | '0' :: mark :: c :: cs =>
    if mark = 'x' ∨ mark = 'X' then Text.readDigits? 16 (c :: cs)
    else if mark = 'o' ∨ mark = 'O' then Text.readDigits? 8 (c :: cs)
    else if mark = 'b' ∨ mark = 'B' then Text.readDigits? 2 (c :: cs)
    else Text.readDigits? 8 (mark :: c :: cs)
  | ['0', c] => Text.readDigits? 8 [c]
  | cs => Text.readDigits? 10 cs

/-- An integer that fits sixty-four bits, with or without a sign of its own. -/
def integer? : List Char → Option Int
  | '-' :: cs => do
    let n ← magnitude? cs
    if n ≤ twoPow 63 then some (-(n : Int)) else none
  | '+' :: cs => do
    let n ← magnitude? cs
    if n < twoPow 63 then some n else none
  | cs => do
    let n ← magnitude? cs
    if n < twoPow 64 then some n else none

/-- A finite number with an optional fraction and exponent. -/
def real? (cs : List Char) : Option Numeral := do
  let n ← match cs with
    | '-' :: cs => (readUnsigned? cs).map fun n => { n with negative := true }
    | '+' :: cs => readUnsigned? cs
    | cs => readUnsigned? cs
  let _ ← n.toFinite?
  return { n with plain := false }

/-- The number that an unquoted scalar denotes. Underscores may divide its digits, unless it starts
with the decimal point. -/
def number? : List Char → Option Numeral
  | [] => none
  | c :: cs =>
    if c = '.' then real? (c :: cs)
    else if c.isDigit ∨ c = '+' ∨ c = '-' then
      let bare := (c :: cs).filter (· != '_')
      match integer? bare with
      | some i => some (.ofInt i)
      | none => real? bare
    else none

def nullWords : List String := ["", "~", "null", "Null", "NULL"]

def trueWords : List String := ["true", "True", "TRUE"]

def falseWords : List String := ["false", "False", "FALSE"]

def nanWords : List String := [".nan", ".NaN", ".NAN"]

def infinityWords : List String := [".inf", ".Inf", ".INF", "+.inf", "+.Inf", "+.INF"]

def negativeInfinityWords : List String := ["-.inf", "-.Inf", "-.INF"]

/-- The quiet NaN with the smallest payload. -/
def nan : Double :=
  .ofPattern (binary64.infinity + binary64.quietBit + 1)

/-- What an unquoted scalar means. -/
def meaning (s : String) : Scalar :=
  if nullWords.contains s then .null
  else if trueWords.contains s then .flag true s
  else if falseWords.contains s then .flag false s
  else if nanWords.contains s then .special nan s
  else if infinityWords.contains s then .special (.ofPattern binary64.infinity) s
  else if negativeInfinityWords.contains s then
    .special (.ofPattern (binary64.withSign true binary64.infinity)) s
  else match number? s.toList with
    | some n => .number n s
    | none => .text s

/-- The meaning of a scalar; one that is quoted or a block is a text. -/
def scalarMeaning (text : String) (isPlain : Bool) : Scalar :=
  if isPlain then meaning text else .text text

/-- Two keys are written alike. -/
def hasRepeatedKey (entries : List (Node × Node)) : Bool :=
  let written := entries.filterMap fun entry =>
    match entry.1 with
    | .scalar text _ => some text
    | _ => none
  written.eraseDups.length != written.length

namespace Node

mutual

/-- The tree of a node. Keys are scalars and differ from each other; an entry whose key says nothing
is passed over. -/
def toTree? : Node → Option Tree
  | .scalar text isPlain => some (.scalar (scalarMeaning text isPlain))
  | .sequence items => (itemTrees? items).map .list
  | .mapping entries =>
    if hasRepeatedKey entries then none else (memberTrees? entries).map .record

def itemTrees? : List Node → Option (List Tree)
  | [] => some []
  | n :: ns => do
    return (← toTree? n) :: (← itemTrees? ns)

def memberTrees? : List (Node × Node) → Option (List (String × Tree))
  | [] => some []
  | (key, value) :: rest =>
    match key with
    | .scalar text isPlain =>
      match (scalarMeaning text isPlain).source? with
      | none => memberTrees? rest
      | some name => do
        return (name, ← toTree? value) :: (← memberTrees? rest)
    | _ => none

end

end Node

/-- A mark of the encoding at the very start says nothing. -/
def afterMark : List Char → List Char
  | c :: cs => if c.toNat = 0xfeff then cs else c :: cs
  | [] => []

/-- The tree of the first document of a text: none if the text makes no sense, and none in it if
nothing is written. -/
def read? (cs : List Char) : Option (Option Tree) :=
  if cs.all isAllowed then do
    match ← Node.ofTokens? (tokens (unifyBreaks (afterMark cs))) with
    | some root => root.toTree?.map some
    | none => return none
  else none

end SchemaBindings.Document.Yaml
