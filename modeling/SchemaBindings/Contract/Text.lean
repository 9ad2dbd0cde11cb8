import SchemaBindings.Document.Json
import SchemaBindings.Document.Tree

namespace SchemaBindings.Contract

open SchemaBindings.Document
open SchemaBindings.Number

/-- The marks and words of a text that is checked directly. -/
inductive Mark where
  | openRecord
  | closeRecord
  | openList
  | closeList
  | colon
  | comma
  | plus
  | minus
  | word (name : String)
  | text (value : String)
  | number (value : Numeral) (source : String)
  deriving DecidableEq, Repr

namespace Mark

/-- A line that ends behind such a mark ends an item, as a comma does. -/
def endsItem : Mark → Bool
  | closeRecord | closeList | word _ | text _ | number .. => true
  | _ => false

end Mark

def escaped? : Char → Option Char
  | 'a' => some (Char.ofNat 7)
  | 'b' => some (Char.ofNat 8)
  | 'f' => some (Char.ofNat 12)
  | 'n' => some '\n'
  | 'r' => some '\r'
  | 't' => some '\t'
  | 'v' => some (Char.ofNat 11)
  | '/' => some '/'
  | '\\' => some '\\'
  | '"' => some '"'
  | _ => none

/-- Reads up to the closing quote; `done` holds the text so far in reverse, and `high` the first
half of a pair of code units, which must be completed at once. -/
def textFrom (high : Option Nat) (done : List Char) : List Char → Option (String × List Char)
  | [] => none
  | '\\' :: 'u' :: a :: b :: c :: d :: cs => do
    let n ← Text.readDigits? 16 [a, b, c, d]
    match high with
    | some h =>
      if Json.isLowSurrogate n then
        textFrom none (Char.ofNat (0x10000 + (h - 0xd800) * 0x400 + (n - 0xdc00)) :: done) cs
      else none
    | none =>
      if Json.isHighSurrogate n then textFrom (some n) done cs
      else if n.isValidChar then textFrom none (Char.ofNat n :: done) cs
      else none
  | c :: cs =>
    if high.isSome then none
    else if c = '"' then some (String.ofList done.reverse, cs)
    else if c = '\n' ∨ c = '\x00' then none
    else if c = '\\' then
      match cs with
      | 'U' :: e :: f :: g :: h :: i :: j :: k :: l :: rest => do
        let n ← Text.readDigits? 16 [e, f, g, h, i, j, k, l]
        if n.isValidChar then textFrom none (Char.ofNat n :: done) rest else none
      | e :: rest => do
        textFrom none ((← escaped? e) :: done) rest
      | [] => none
    else textFrom none (c :: done) cs

def isNumberPart (c : Char) : Bool :=
  c.isAlphanum || c == '_' || c == '.'

/-- A sign belongs to a number only behind the mark of a decimal exponent. -/
def numberToken (decimal afterMark : Bool) : List Char → List Char × List Char
  | [] => ([], [])
  | c :: cs =>
    if isNumberPart c || (decimal && afterMark && (c == '+' || c == '-')) then
      let (token, rest) := numberToken decimal (c == 'e' || c == 'E') cs
      (c :: token, rest)
    else ([], c :: cs)

/-- Underscores stand between two digits only. -/
def underscoresFit : List Char → Bool
  | a :: '_' :: b :: cs =>
    (Text.digitValue? a).isSome && (Text.digitValue? b).isSome && underscoresFit (b :: cs)
  | '_' :: _ => false
  | [_, '_'] => false
  | _ :: cs => underscoresFit cs
  | [] => true

/-- The digits of an integer with a mark for its base. -/
def marked? : List Char → Option Nat
  | '0' :: mark :: ds =>
    if mark = 'x' ∨ mark = 'X' then Text.readDigits? 16 ds
    else if mark = 'o' then Text.readDigits? 8 ds
    else if mark = 'b' then Text.readDigits? 2 ds
    else none
  | _ => none

/-- The number that a token denotes. An integer has no superfluous zeros. -/
def number? (token : List Char) : Option Numeral :=
  if underscoresFit token then
    let bare := token.filter (· != '_')
    match marked? bare with
    | some n => some (.ofInt n)
    | none => do
      let n ← readUnsigned? bare
      if n.plain || bare.any fun c => c == '.' || c == 'e' || c == 'E' then some n else none
  else none

def isWordChar (c : Char) : Bool :=
  c.isAlphanum || c == '_' || c == '$' || c == '#' || 0x80 ≤ c.toNat

/-- The mark that the characters start with. -/
def mark? (cs : List Char) : Option (Mark × List Char) :=
  match cs with
  | [] => none
  | c :: rest =>
    match c with
    | '\x7b' => some (.openRecord, rest)
    | '\x7d' => some (.closeRecord, rest)
    | '[' => some (.openList, rest)
    | ']' => some (.closeList, rest)
    | ':' => some (.colon, rest)
    | ',' => some (.comma, rest)
    | '+' => some (.plus, rest)
    | '-' => some (.minus, rest)
    | '"' => (textFrom none [] rest).map fun (s, rest) => (.text s, rest)
    | c =>
      if c.isDigit ∨ (c = '.' ∧ (rest.head?.map Char.isDigit).getD false) then
        let decimal := !(c == '0' && (rest.head?.map fun m => "xXob".toList.contains m).getD false)
        let (token, rest) := numberToken decimal false cs
        (number? token).map fun n => (.number n (String.ofList token), rest)
      else if isWordChar c then
        some (.word (String.ofList (cs.takeWhile isWordChar)), cs.dropWhile isWordChar)
      else none

/-- The marks of a text; `last?` is the one before. Blanks and comments are skipped, and the end of
a line stands for a comma where an item may end. Every round takes a character, so the number of
characters is enough fuel. -/
def marksFrom (last? : Option Mark) : Nat → List Char → Option (List Mark)
  | 0, _ => none
  | _, [] => some []
  | fuel + 1, c :: cs =>
    if c = '\n' then
      if (last?.map Mark.endsItem).getD false then do
        return .comma :: (← marksFrom none fuel cs)
      else marksFrom last? fuel cs
    else if c = ' ' ∨ c = '\t' ∨ c = '\r' then marksFrom last? fuel cs
    else if c = '/' then
      match cs with
      | '/' :: comment => marksFrom last? fuel (comment.dropWhile (· != '\n'))
      | _ => none
    else do
      let (mark, rest) ← mark? (c :: cs)
      return mark :: (← marksFrom (some mark) fuel rest)

/-- The marks of a text. -/
def marks? (cs : List Char) : Option (List Mark) :=
  marksFrom none (cs.length + 1) cs

/-- Two scalars are one value; whole numbers and others differ. -/
def sameScalar : Scalar → Scalar → Bool
  | .null, .null => true
  | .flag a _, .flag b _ => a == b
  | .text a, .text b => a == b
  | .number a _, .number b _ =>
    a.plain == b.plain && a.negative == b.negative
      && (let least := min a.exponent b.exponent
          a.coefficient * tenPow (a.exponent - least).toNat
            == b.coefficient * tenPow (b.exponent - least).toNat)
  | _, _ => false

mutual

/-- Two values for one place do not contradict each other: scalars are the same, lists agree item by
item, and records agree in the members that both have. -/
def agrees : Tree → Tree → Bool
  | .scalar a, .scalar b => sameScalar a b
  | .list as, .list bs => itemsAgree as bs
  | .record as, .record bs => membersAgree as bs
  | _, _ => false

def itemsAgree : List Tree → List Tree → Bool
  | [], [] => true
  | a :: as, b :: bs => agrees a b && itemsAgree as bs
  | _, _ => false

def membersAgree : List (String × Tree) → List (String × Tree) → Bool
  | [], _ => true
  | (name, a) :: as, bs =>
    (bs.all fun b => b.1 != name || agrees a b.2) && membersAgree as bs

end

/-- A part of a record: a member, or a value that the record is to be the same as. -/
inductive Part where
  | member (name : String) (tree : Tree)
  | whole (tree : Tree)

/-- The members of a record with those of the records in it; none if something else is in it. -/
def membersOf? : List Part → Option (List (String × Tree))
  | [] => some []
  | .member name tree :: rest => (membersOf? rest).map ((name, tree) :: ·)
  | .whole (.record members) :: rest => (membersOf? rest).map (members ++ ·)
  | .whole _ :: _ => none

def valueOf? : Part → Option Tree
  | .whole tree => some tree
  | .member .. => none

/-- The value that parts make up together: a record, or one value that all agree with. -/
def combine? (parts : List Part) : Option Tree :=
  match membersOf? parts with
  | some members => some (.record members)
  | none =>
    match parts.mapM valueOf? with
    | some (tree :: trees) => if trees.all (agrees tree) then some tree else none
    | _ => none

def label? : Mark → Option String
  | .word name | .text name => some name
  | _ => none

def wordValue? : String → Option Scalar
  | "null" => some .null
  | "true" => some (.flag true "true")
  | "false" => some (.flag false "false")
  | _ => none

/-- The number after a sign. -/
def signed? (negative : Bool) : List Mark → Option (Tree × List Mark)
  | .number n source :: rest =>
    some (.scalar (.number { n with negative := negative && n.coefficient != 0 } source), rest)
  | .minus :: rest => signed? (!negative) rest
  | .plus :: rest => signed? negative rest
  | _ => none

mutual

/-- The value that the marks start with. Every step takes a mark, so their number is enough fuel. -/
def value? : Nat → List Mark → Option (Tree × List Mark)
  | 0, _ => none
  | fuel + 1, marks =>
    match marks with
    | .openRecord :: rest => do
      let (parts, rest) ← parts? (some .closeRecord) fuel rest
      return (← combine? parts, rest)
    | .openList :: rest => do
      let (items, rest) ← items? fuel rest
      return (.list items, rest)
    | .text s :: rest => some (.scalar (.text s), rest)
    | .word name :: rest => (wordValue? name).map fun s => (.scalar s, rest)
    | marks => signed? false marks

/-- Items up to the closing bracket. -/
def items? : Nat → List Mark → Option (List Tree × List Mark)
  | 0, _ => none
  | fuel + 1, marks =>
    match marks with
    | .closeList :: rest => some ([], rest)
    | marks => do
      let (item, rest) ← value? fuel marks
      match rest with
      | .closeList :: rest => return ([item], rest)
      | .comma :: rest =>
        let (items, rest) ← items? fuel rest
        return (item :: items, rest)
      | _ => none

/-- A member or a value. A member whose value is a member again is a record in a record. -/
def part? : Nat → List Mark → Option (Part × List Mark)
  | 0, _ => none
  | fuel + 1, marks =>
    match marks with
    | label :: .colon :: rest => do
      let name ← label? label
      let (inner, rest) ← part? fuel rest
      match inner with
      | .member inside tree => return (.member name (.record [(inside, tree)]), rest)
      | .whole tree => return (.member name tree, rest)
    | marks => (value? fuel marks).map fun (tree, rest) => (.whole tree, rest)

/-- Parts up to the closing mark, or up to the end of the text if there is none. -/
def parts? (close? : Option Mark) : Nat → List Mark → Option (List Part × List Mark)
  | 0, _ => none
  | fuel + 1, marks =>
    if marks.head? = close? then some ([], marks.drop 1)
    else do
      let (part, rest) ← part? fuel marks
      if rest.head? = close? then return ([part], rest.drop 1)
      else
        let .comma :: rest := rest | none
        let (parts, rest) ← parts? close? fuel rest
        return (part :: parts, rest)

end

mutual

/-- Members of one name agree, everywhere in the tree. -/
def isConsistent : Tree → Bool
  | .scalar _ => true
  | .list items => areConsistent items
  | .record members => membersConsistent members

def areConsistent : List Tree → Bool
  | [] => true
  | t :: ts => isConsistent t && areConsistent ts

def membersConsistent : List (String × Tree) → Bool
  | [] => true
  | (name, t) :: rest =>
    isConsistent t && (rest.all fun other => other.1 != name || agrees t other.2)
      && membersConsistent rest

end

/-- The byte order mark. -/
def orderMark : Char := Char.ofNat 0xfeff

/-- A text without the byte order mark that it may start with; there may be no other in it. -/
def unmarked? (cs : List Char) : Option (List Char) :=
  let rest := if cs.head? = some orderMark then cs.tail else cs
  if rest.contains orderMark then none else some rest

/-- The value that a text denotes, if it can be read and nothing in it is contradictory. Braces
around the whole may be left out. -/
def readText? (cs : List Char) : Option Tree := do
  let marks ← marks? (← unmarked? cs)
  let (parts, _) ← parts? none (4 * marks.length + 4) marks
  let tree ← combine? parts
  if isConsistent tree then some tree else none

end SchemaBindings.Contract
