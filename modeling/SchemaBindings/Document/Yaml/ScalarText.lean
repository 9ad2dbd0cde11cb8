import SchemaBindings.Document.Yaml.Position
import SchemaBindings.Text.Digits

namespace SchemaBindings.Document.Yaml

/-- White space met inside a scalar and not yet part of its text: blanks on one line, or line
breaks with the blanks around them left out. The first break is missing when it was escaped. Lists
are in reverse. -/
inductive Gap where
  | none
  | blanks (cs : List Char)
  | breaks (first : Option Char) (more : List Char)
  deriving DecidableEq, Repr

namespace Gap

/-- One more blank. -/
def addBlank (c : Char) : Gap → Gap
  | none => blanks [c]
  | blanks cs => blanks (c :: cs)
  | breaks first more => breaks first more

/-- One more line break; blanks before the first one are dropped. -/
def addBreak (c : Char) : Gap → Gap
  | breaks first more => breaks first (c :: more)
  | _ => breaks (some c) []

def hasBreak : Gap → Bool
  | breaks .. => true
  | _ => false

/-- Adds the gap to a text in reverse: a single break becomes a blank, and of several the first is
dropped. Separator characters are kept. -/
def join (done : List Char) : Gap → List Char
  | none => done
  | blanks cs => cs ++ done
  | breaks (some '\n') [] => ' ' :: done
  | breaks (some '\n') more => more ++ done
  | breaks first more => more ++ first.toList ++ done

end Gap

/-- A scalar read from a text, with the place after it and what follows. -/
structure ScalarText where
  text : String
  position : Position
  rest : List Char
  /-- The white space skipped after the scalar holds a line break. -/
  broken : Bool
  deriving DecidableEq, Repr

/-- Characters that end an unquoted scalar inside brackets. -/
def isFlowIndicator (c : Char) : Bool :=
  c == ',' || c == '?' || c == '[' || c == ']' || c == '\x7b' || c == '\x7d'

/-- Reads an unquoted scalar. Outside brackets (`inFlow` is false) its further lines are indented
by at least `indent`. -/
def plainFrom (inFlow : Bool) (indent : Int) (p : Position) (gap : Gap) (done : List Char) :
    List Char → Option ScalarText
  | [] => some ⟨String.ofList done.reverse, p, [], gap.hasBreak⟩
  | c :: cs =>
    if isBreak c then plainFrom inFlow indent (p.after c) (gap.addBreak c) done cs
    else if isSpace c then
      if gap.hasBreak && c == '\t' && p.column < indent then none
      else plainFrom inFlow indent (p.after c) (gap.addBlank c) done cs
    else
      let outdented := !inFlow && gap.hasBreak && p.column < indent
      let interrupted := gap != .none && (atMarker p (c :: cs) || c == '#')
      let ended := (c == ':' && endsWord cs) || (inFlow && isFlowIndicator c)
      if outdented || interrupted || ended then
        some ⟨String.ofList done.reverse, p, c :: cs, gap.hasBreak⟩
      else plainFrom inFlow indent (p.after c) .none (c :: gap.join done) cs

/-- Reads a single-quoted scalar after its opening quote. A quote inside is written twice. -/
def singleFrom (p : Position) (gap : Gap) (done : List Char) : List Char → Option ScalarText
  | [] => none
  | '\'' :: '\'' :: cs => singleFrom (p.forward 2) .none ('\'' :: gap.join done) cs
  | '\'' :: cs => some ⟨String.ofList (gap.join done).reverse, p.forward 1, cs, false⟩
  | c :: cs =>
    if isBreak c then singleFrom (p.after c) (gap.addBreak c) done cs
    else if isSpace c then singleFrom (p.after c) (gap.addBlank c) done cs
    else if atMarker p (c :: cs) then none
    else singleFrom (p.after c) .none (c :: gap.join done) cs

/-- The character that a letter after a backslash stands for. -/
def escaped? : Char → Option Char
  | '0' => some (Char.ofNat 0)
  | 'a' => some (Char.ofNat 7)
  | 'b' => some (Char.ofNat 8)
  | 't' => some '\t'
  | '\t' => some '\t'
  | 'n' => some '\n'
  | 'v' => some (Char.ofNat 11)
  | 'f' => some (Char.ofNat 12)
  | 'r' => some '\r'
  | 'e' => some (Char.ofNat 27)
  | ' ' => some ' '
  | '"' => some '"'
  | '\'' => some '\''
  | '/' => some '/'
  | '\\' => some '\\'
  | 'N' => some (Char.ofNat 0x85)
  | '_' => some (Char.ofNat 0xa0)
  | 'L' => some (Char.ofNat 0x2028)
  | 'P' => some (Char.ofNat 0x2029)
  | _ => none

/-- The character with the given hexadecimal number. -/
def numbered? (digits : List Char) : Option Char := do
  let n ← Text.readDigits? 16 digits
  if n.isValidChar then some (Char.ofNat n) else none

/-- Reads a double-quoted scalar after its opening quote. -/
def doubleFrom (p : Position) (gap : Gap) (done : List Char) : List Char → Option ScalarText
  | [] => none
  | '"' :: cs => some ⟨String.ofList (gap.join done).reverse, p.forward 1, cs, false⟩
  | '\\' :: 'x' :: a :: b :: cs => do
    doubleFrom (p.forward 4) .none ((← numbered? [a, b]) :: gap.join done) cs
  | '\\' :: 'u' :: a :: b :: c :: d :: cs => do
    doubleFrom (p.forward 6) .none ((← numbered? [a, b, c, d]) :: gap.join done) cs
  | '\\' :: 'U' :: a :: b :: c :: d :: e :: f :: g :: h :: cs => do
    doubleFrom (p.forward 10) .none ((← numbered? [a, b, c, d, e, f, g, h]) :: gap.join done) cs
  | '\\' :: c :: cs =>
    if isBreak c then doubleFrom (p.after c) (.breaks none []) (gap.join done) cs
    else do doubleFrom (p.forward 2) .none ((← escaped? c) :: gap.join done) cs
  | c :: cs =>
    if isBreak c then doubleFrom (p.after c) (gap.addBreak c) done cs
    else if isSpace c then doubleFrom (p.after c) (gap.addBlank c) done cs
    else if atMarker p (c :: cs) then none
    else doubleFrom (p.after c) .none (c :: gap.join done) cs

/-- What happens to the line breaks at the end of a block. -/
inductive Chomping where
  | strip
  | clip
  | keep
  deriving DecidableEq, Repr

/-- How a block scalar is to be read: line by line or folded, what happens at its end, and the
columns it is indented by if that is stated. -/
structure BlockStyle where
  folded : Bool
  chomping : Chomping
  increment? : Option Nat
  deriving DecidableEq, Repr

/-- A block that is being read. `text` and `breaks` are in reverse. -/
structure Block where
  position : Position
  indent? : Option Nat
  /-- The widest indentation seen before the first line of text. -/
  widest : Nat
  inLine : Bool
  text : List Char
  /-- The break after the last line of text. -/
  lineBreak? : Option Char
  /-- The breaks of blank lines after that. -/
  breaks : List Char
  /-- The last line of text started with a blank. -/
  startedBlank : Bool
  deriving Repr

namespace Block

def finish (style : BlockStyle) (b : Block) (rest : List Char) : ScalarText :=
  let ending := match style.chomping with
    | .strip => []
    | .clip => b.lineBreak?.toList
    | .keep => b.breaks ++ b.lineBreak?.toList
  ⟨String.ofList (ending ++ b.text).reverse, b.position, rest, true⟩

/-- Starts a line of text that begins with `c`. Folding joins two lines by a blank, or by the blank
lines between them, unless one of them starts with a blank. -/
def startLine (style : BlockStyle) (b : Block) (c : Char) : Block :=
  let joined :=
    if style.folded && !b.startedBlank && !isSpace c && b.lineBreak? == some '\n' then
      if b.breaks.isEmpty then ' ' :: b.text else b.text
    else b.lineBreak?.toList ++ b.text
  { b with
    position := b.position.after c
    inLine := true
    text := c :: (b.breaks ++ joined)
    lineBreak? := none
    breaks := []
    startedBlank := isSpace c }

end Block

/-- Reads the lines of a block scalar. The block's own indentation, if it is not stated, is that of
its first line of text, and more than `outer`. -/
def blockFrom (style : BlockStyle) (outer : Int) (b : Block) : List Char → Option ScalarText
  | [] => some (b.finish style [])
  | c :: cs =>
    let next := b.position.after c
    if b.inLine then
      if isBreak c then
        blockFrom style outer { b with position := next, inLine := false, lineBreak? := some c } cs
      else blockFrom style outer { b with position := next, text := c :: b.text } cs
    else
      let before := match b.indent? with
        | none => true
        | some indent => b.position.column < indent
      if before && c == ' ' then
        blockFrom style outer { b with position := next, widest := max b.widest next.column } cs
      else if before && c == '\t' then none
      else if isBreak c then
        blockFrom style outer { b with position := next, breaks := c :: b.breaks } cs
      else
        let indent := b.indent?.getD (max b.widest (max (outer + 1).toNat 1))
        if b.position.column = indent then
          blockFrom style outer ({ b with indent? := some indent }.startLine style c) cs
        else some (b.finish style (c :: cs))

/-- A digit from one to nine at the front. -/
def increment? : List Char → Option (Nat × List Char)
  | c :: cs => if '1' ≤ c ∧ c ≤ '9' then some (c.toNat - '0'.toNat, cs) else none
  | [] => none

/-- The part of a block's first line that says how to read it, with what follows; the two marks
come in either order. -/
def blockStyle (folded : Bool) : List Char → BlockStyle × List Char
  | '+' :: cs => afterChomping .keep cs
  | '-' :: cs => afterChomping .strip cs
  | cs =>
    match increment? cs with
    | some (n, '+' :: rest) => (⟨folded, .keep, some n⟩, rest)
    | some (n, '-' :: rest) => (⟨folded, .strip, some n⟩, rest)
    | some (n, rest) => (⟨folded, .clip, some n⟩, rest)
    | none => (⟨folded, .clip, none⟩, cs)
where
  afterChomping (chomping : Chomping) (cs : List Char) : BlockStyle × List Char :=
    match increment? cs with
    | some (n, rest) => (⟨folded, chomping, some n⟩, rest)
    | none => (⟨folded, chomping, none⟩, cs)

/-- Skips blanks and a comment up to the end of the line, which must come next. -/
def restOfLine? (cs : List Char) : Option (List Char) :=
  let rest := match cs.dropWhile isSpace with
    | '#' :: comment => comment.dropWhile fun c => !isBreak c
    | rest => rest
  match rest with
  | [] => some []
  | c :: _ => if isBreak c then some rest else none

/-- Reads a block scalar after the character that announces it. -/
def block? (folded : Bool) (outer : Int) (p : Position) (cs : List Char) : Option ScalarText := do
  let (style, afterStyle) := blockStyle folded cs
  let lineEnd ← restOfLine? afterStyle
  let atEnd := p.forward (cs.length - lineEnd.length)
  let (position, rest) := match lineEnd with
    | [] => (atEnd, [])
    | c :: rest => (atEnd.after c, rest)
  let indent? := style.increment?.map fun n => (max outer 0).toNat + n
  blockFrom style outer ⟨position, indent?, 0, false, [], none, [], false⟩ rest

end SchemaBindings.Document.Yaml
