namespace SchemaBindings.Document.Yaml

/-- A place in a text: its line, its column in that line, and its index in the whole. -/
structure Position where
  line : Nat
  column : Nat
  index : Nat
  deriving DecidableEq, Repr, Inhabited

def isBreak (c : Char) : Bool :=
  c == '\n' || c.toNat == 0x2028 || c.toNat == 0x2029

def isSpace (c : Char) : Bool :=
  c == ' ' || c == '\t'

/-- Nothing, white space or a line break comes next. -/
def endsWord : List Char → Bool
  | [] => true
  | c :: _ => isSpace c || isBreak c

/-- The place after a character. -/
def Position.after (p : Position) (c : Char) : Position :=
  if isBreak c then ⟨p.line + 1, 0, p.index + 1⟩ else ⟨p.line, p.column + 1, p.index + 1⟩

/-- The place after several characters of one line. -/
def Position.forward (p : Position) (n : Nat) : Position :=
  ⟨p.line, p.column + n, p.index + n⟩

/-- Writes the several forms of a line break as one. The line and paragraph separators stay what
they are. -/
def unifyBreaks : List Char → List Char
  | [] => []
  | '\r' :: '\n' :: cs => '\n' :: unifyBreaks cs
  | '\r' :: cs => '\n' :: unifyBreaks cs
  | c :: cs => (if c.toNat = 0x85 then '\n' else c) :: unifyBreaks cs

/-- Control characters other than tabs and line breaks, and the two noncharacters that a byte order
could be mistaken for, may not stand in a text. -/
def isAllowed (c : Char) : Bool :=
  let n := c.toNat
  n == 9 || n == 10 || n == 13 || n == 0x85 || (0x20 ≤ n && n != 0x7f && !(0x80 ≤ n && n < 0xa0)
    && n != 0xfffe && n != 0xffff)

/-- A line of three equal characters and nothing more, which sets documents apart. -/
def isMarker (mark : Char) : List Char → Bool
  | a :: b :: c :: cs => a == mark && b == mark && c == mark && endsWord cs
  | _ => false

/-- A marker of documents at the start of a line. -/
def atMarker (p : Position) (cs : List Char) : Bool :=
  p.column == 0 && (isMarker '-' cs || isMarker '.' cs)

end SchemaBindings.Document.Yaml
