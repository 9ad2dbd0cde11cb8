import SchemaBindings.Document.Tree

namespace SchemaBindings.Document.Json

open SchemaBindings.Number

def isBlank (c : Char) : Bool :=
  c == ' ' || c == '\n' || c == '\t' || c == '\r'

def skipBlanks (cs : List Char) : List Char :=
  cs.dropWhile isBlank

/-- The number that four hexadecimal digits denote. -/
def codeUnit? (a b c d : Char) : Option Nat :=
  Text.readDigits? 16 [a, b, c, d]

def isHighSurrogate (n : Nat) : Bool :=
  0xd800 ≤ n && n < 0xdc00

def isLowSurrogate (n : Nat) : Bool :=
  0xdc00 ≤ n && n < 0xe000

/-- The character of a code unit; half of a pair has none of its own. -/
def unitChar (n : Nat) : Char :=
  if n.isValidChar then Char.ofNat n else Char.ofNat 0xfffd

/-- Adds a code unit to a text in reverse. `high` is the unit just before it if that was the first
half of a pair; it is part of the result again if the new unit is such a half. -/
def addUnit (high : Option Nat) (done : List Char) (n : Nat) : Option Nat × List Char :=
  match high with
  | some h =>
    if isLowSurrogate n then
      (none, Char.ofNat (0x10000 + (h - 0xd800) * 0x400 + (n - 0xdc00)) :: done.tail)
    else (if isHighSurrogate n then some n else none, unitChar n :: done)
  | none => (if isHighSurrogate n then some n else none, unitChar n :: done)

def escaped? : Char → Option Char
  | '"' => some '"'
  | '\\' => some '\\'
  | '/' => some '/'
  | 'b' => some (Char.ofNat 8)
  | 'f' => some (Char.ofNat 12)
  | 'n' => some '\n'
  | 'r' => some '\r'
  | 't' => some '\t'
  | _ => none

/-- Reads up to the closing quote; `done` holds the text so far in reverse and `high` the first half
of a pair at its end. Line breaks and control characters may stand in a text as they are, the zero
character may not. -/
def textFrom (high : Option Nat) (done : List Char) : List Char → Option (String × List Char)
  | [] => none
  | '"' :: cs => some (String.ofList done.reverse, cs)
  | '\\' :: 'u' :: a :: b :: c :: d :: cs => do
    let (high, done) := addUnit high done (← codeUnit? a b c d)
    textFrom high done cs
  | '\\' :: c :: cs => do
    textFrom none ((← escaped? c) :: done) cs
  | c :: cs => if c = '\x00' then none else textFrom none (c :: done) cs

/-- The text after an opening quote. -/
def text? (cs : List Char) : Option (String × List Char) :=
  textFrom none [] cs

def isNumberChar (c : Char) : Bool :=
  c.isDigit || c == '.' || c == 'e' || c == 'E' || c == '+' || c == '-'

/-- Takes a word off the front. -/
def afterWord? (word : String) (cs : List Char) : Option (List Char) :=
  if word.toList.isPrefixOf cs then some (cs.drop word.length) else none

/-- The scalar that the characters start with. -/
def scalar? (cs : List Char) : Option (Scalar × List Char) :=
  match cs with
  | '"' :: rest => (text? rest).map fun (s, rest) => (.text s, rest)
  | 'n' :: _ => (afterWord? "null" cs).map (.null, ·)
  | 't' :: _ => (afterWord? "true" cs).map (.flag true "true", ·)
  | 'f' :: _ => (afterWord? "false" cs).map (.flag false "false", ·)
  | c :: _ =>
    if c = '-' ∨ c.isDigit then
      let token := cs.takeWhile isNumberChar
      (readNumeral? token).map fun n =>
        (.number n (String.ofList token), cs.dropWhile isNumberChar)
    else none
  | [] => none

mutual

/-- The value that the characters start with, after blanks. Every step takes a character, so the
number of characters is enough fuel. -/
def value? : Nat → List Char → Option (Tree × List Char)
  | 0, _ => none
  | fuel + 1, cs =>
    match skipBlanks cs with
    | '[' :: rest =>
      match skipBlanks rest with
      | ']' :: rest => some (.list [], rest)
      | rest => (items? fuel rest).map fun (items, rest) => (.list items, rest)
    | '\x7b' :: rest =>
      match skipBlanks rest with
      | '\x7d' :: rest => some (.record [], rest)
      | rest => (members? fuel rest).map fun (members, rest) => (.record members, rest)
    | rest => (scalar? rest).map fun (s, rest) => (.scalar s, rest)

/-- At least one item, up to the closing bracket. -/
def items? : Nat → List Char → Option (List Tree × List Char)
  | 0, _ => none
  | fuel + 1, cs => do
    let (item, rest) ← value? fuel cs
    match skipBlanks rest with
    | ']' :: rest => return ([item], rest)
    | ',' :: rest =>
      let (items, rest) ← items? fuel rest
      return (item :: items, rest)
    | _ => none

/-- At least one member, up to the closing brace. -/
def members? : Nat → List Char → Option (List (String × Tree) × List Char)
  | 0, _ => none
  | fuel + 1, cs => do
    let '"' :: rest := skipBlanks cs | none
    let (name, rest) ← text? rest
    let ':' :: rest := skipBlanks rest | none
    let (value, rest) ← value? fuel rest
    match skipBlanks rest with
    | '\x7d' :: rest => return ([(name, value)], rest)
    | ',' :: rest =>
      let (members, rest) ← members? fuel rest
      return ((name, value) :: members, rest)
    | _ => none

end

/-- The first value of a text; whatever follows it is not looked at. -/
def read? (cs : List Char) : Option Tree :=
  (value? (cs.length + 1) cs).map Prod.fst

end SchemaBindings.Document.Json
