import SchemaBindings.Document.Yaml.ScalarText

namespace SchemaBindings.Document.Yaml

/-- The marks and words of a text. Blocks that are shown by indentation alone get a start and an end
of their own; `broken` stands where the text makes no sense. -/
inductive Token where
  | documentStart
  | documentEnd
  | sequenceStart
  | mappingStart
  | blockEnd
  | openList
  | closeList
  | openRecord
  | closeRecord
  | entry
  | comma
  | key
  | value
  | anchor (name : String)
  | alias (name : String)
  | scalar (text : String) (isPlain : Bool)
  | broken
  deriving DecidableEq, Repr, Inhabited

/-- A token that turns out to be a key if a colon follows it on its line. -/
structure KeyCandidate where
  /-- The number of tokens before it. -/
  number : Nat
  position : Position
  /-- It stands where only a key can. -/
  required : Bool
  deriving DecidableEq, Repr

/-- How many characters a key without a mark of its own may take. -/
def keyLimit : Nat := 1024

/-- A text that is being split into tokens. -/
structure Scan where
  position : Position
  rest : List Char
  /-- How many brackets are open. -/
  depth : Nat
  /-- The column of the innermost open block, and those of the blocks around it. -/
  indent : Int
  outer : List Int
  keyAllowed : Bool
  /-- The candidate of the innermost bracket, and those of the brackets around it. -/
  candidate : Option KeyCandidate
  candidates : List (Option KeyCandidate)
  /-- The tokens so far in reverse, and their number. -/
  tokens : List Token
  count : Nat
  deriving Repr

namespace Scan

def start (cs : List Char) : Scan :=
  ⟨⟨0, 0, 0⟩, cs, 0, -1, [], true, none, [], [], 0⟩

def add (s : Scan) (t : Token) : Scan :=
  { s with tokens := t :: s.tokens, count := s.count + 1 }

/-- Puts a token behind the first `number` ones. -/
def insert (s : Scan) (number : Nat) (t : Token) : Scan :=
  let later := s.count - number
  { s with tokens := s.tokens.take later ++ t :: s.tokens.drop later, count := s.count + 1 }

/-- Takes characters off the line. -/
def skip (s : Scan) (n : Nat) : Scan :=
  { s with position := s.position.forward n, rest := s.rest.drop n }

/-- Skips white space, comments and line breaks. Tabs may stand where no key can. -/
def skipBlanks (inFlow : Bool) (inComment keyAllowed : Bool) (p : Position) :
    List Char → Bool × Position × List Char
  | [] => (keyAllowed, p, [])
  | c :: cs =>
    if isBreak c then skipBlanks inFlow false (keyAllowed || !inFlow) (p.after c) cs
    else if inComment || c == ' ' || (c == '\t' && (inFlow || !keyAllowed)) then
      skipBlanks inFlow inComment keyAllowed (p.after c) cs
    else if c == '#' then skipBlanks inFlow true keyAllowed (p.after c) cs
    else (keyAllowed, p, c :: cs)

def toNext (s : Scan) : Scan :=
  let (keyAllowed, position, rest) := skipBlanks (s.depth != 0) false s.keyAllowed s.position s.rest
  { s with keyAllowed, position, rest }

/-- Ends the blocks that are indented further than a column. -/
def endBlocksFrom (column indent : Int) : List Int → Nat × Int × List Int
  | [] => (0, indent, [])
  | o :: outer =>
    if column < indent then
      let (n, indent, outer) := endBlocksFrom column o outer
      (n + 1, indent, outer)
    else (0, indent, o :: outer)

def endBlocks (s : Scan) (column : Int) : Scan :=
  if s.depth != 0 then s
  else
    let (n, indent, outer) := endBlocksFrom column s.indent s.outer
    { s with
      indent, outer
      tokens := List.replicate n .blockEnd ++ s.tokens
      count := s.count + n }

/-- Opens a block at a column, behind the first `number` tokens, unless one is open there. -/
def openBlock (s : Scan) (column number : Nat) (t : Token) : Scan :=
  if s.depth == 0 && s.indent < column then
    { s with indent := column, outer := s.indent :: s.outer }.insert number t
  else s

/-- Gives the candidate up; none if it had to be a key. -/
def dropCandidate? (s : Scan) : Option Scan :=
  match s.candidate with
  | some k => if k.required then none else some { s with candidate := none }
  | none => some s

/-- Marks the next token as a candidate, if a key may stand here. -/
def saveCandidate? (s : Scan) : Option Scan :=
  if s.keyAllowed then do
    let required := s.depth == 0 && s.indent == s.position.column
    let s ← s.dropCandidate?
    return { s with candidate := some ⟨s.count, s.position, required⟩ }
  else some s

/-- Replaces what is left of the text by what is left behind a scalar. -/
def addScalar (s : Scan) (isPlain : Bool) (read : ScalarText) : Scan :=
  { s with position := read.position, rest := read.rest }.add (.scalar read.text isPlain)

def marker? (s : Scan) (t : Token) : Option Scan := do
  let s ← (s.endBlocks (-1)).dropCandidate?
  return ({ s with keyAllowed := false }.skip 3).add t

def openBracket? (s : Scan) (t : Token) : Option Scan := do
  let s ← s.saveCandidate?
  return ({ s with
    depth := s.depth + 1
    candidates := s.candidate :: s.candidates
    candidate := none
    keyAllowed := true }.skip 1).add t

def closeBracket? (s : Scan) (t : Token) : Option Scan := do
  let s ← s.dropCandidate?
  let (candidate, candidates) := match s.candidates with
    | [] => (none, [])
    | c :: cs => (c, cs)
  return ({ s with depth := s.depth - 1, candidate, candidates, keyAllowed := false }.skip 1).add t

def comma? (s : Scan) : Option Scan := do
  let s ← s.dropCandidate?
  return ({ s with keyAllowed := true }.skip 1).add .comma

def entry? (s : Scan) : Option Scan := do
  if s.depth == 0 && !s.keyAllowed then none
  else
    let s ← (s.openBlock s.position.column s.count .sequenceStart).dropCandidate?
    return ({ s with keyAllowed := true }.skip 1).add .entry

def key? (s : Scan) : Option Scan := do
  if s.depth == 0 && !s.keyAllowed then none
  else
    let s ← (s.openBlock s.position.column s.count .mappingStart).dropCandidate?
    return ({ s with keyAllowed := s.depth == 0 }.skip 1).add .key

/-- A candidate holds as long as the line does, and not longer than the limit. -/
def isCurrent (s : Scan) (k : KeyCandidate) : Bool :=
  s.position.line == k.position.line && s.position.index ≤ k.position.index + keyLimit

/-- A colon makes a key of the candidate, and else belongs to a key with a mark of its own. -/
def value? (s : Scan) : Option Scan :=
  match s.candidate with
  | some k =>
    if s.isCurrent k then
      let s := (s.insert k.number .key).openBlock k.position.column k.number .mappingStart
      some (({ s with candidate := none, keyAllowed := false }.skip 1).add .value)
    else if k.required then none
    else unmarked { s with candidate := none }
  | none => unmarked s
where
  unmarked (s : Scan) : Option Scan :=
    if s.depth == 0 && !s.keyAllowed then none
    else
      let s := s.openBlock s.position.column s.count .mappingStart
      some (({ s with keyAllowed := s.depth == 0 }.skip 1).add .value)

def isNameChar (c : Char) : Bool :=
  c.isAlphanum || c == '_' || c == '-'

/-- A name after an ampersand or an asterisk. -/
def name? (s : Scan) (token : String → Token) : Option Scan := do
  let s ← s.saveCandidate?
  let word := (s.rest.drop 1).takeWhile isNameChar
  let rest := (s.rest.drop 1).dropWhile isNameChar
  let ended := match rest with
    | [] => true
    | c :: _ => endsWord rest || "?:,]\x7d%@`".toList.contains c
  if word.isEmpty || !ended then none
  else some (({ s with keyAllowed := false }.skip (word.length + 1)).add (token (String.ofList word)))

def blockScalar? (s : Scan) (folded : Bool) : Option Scan := do
  let s ← s.dropCandidate?
  let read ← block? folded s.indent (s.position.forward 1) (s.rest.drop 1)
  return { s with keyAllowed := true }.addScalar false read

def quoted? (s : Scan)
    (read : Position → Gap → List Char → List Char → Option ScalarText) : Option Scan := do
  let s ← s.saveCandidate?
  let found ← read (s.position.forward 1) .none [] (s.rest.drop 1)
  return { s with keyAllowed := false }.addScalar false found

def plain? (s : Scan) : Option Scan := do
  let s ← s.saveCandidate?
  let read ← plainFrom (s.depth != 0) (s.indent + 1) s.position .none [] s.rest
  return { s with keyAllowed := read.broken }.addScalar true read

/-- Characters that cannot start an unquoted scalar whatever follows. -/
def isIndicator (c : Char) : Bool :=
  "-?:,[]\x7b\x7d#&*!|>'\"%@`".toList.contains c

def startsPlain (inFlow : Bool) : List Char → Bool
  | [] => false
  | c :: cs =>
    (!isSpace c && !isBreak c && !isIndicator c)
      || (c == '-' && !(cs.head?.map isSpace).getD false)
      || (!inFlow && (c == '?' || c == ':') && !endsWord cs)

/-- Reads the next token, at the place where it starts. Tags and directives are not supported. -/
def token? (s : Scan) : Option Scan :=
  let inFlow := s.depth != 0
  match s.rest with
  | [] => none
  | c :: cs =>
    if s.position.column == 0 && c == '%' then none
    else if s.position.column == 0 && isMarker '-' s.rest then s.marker? .documentStart
    else if s.position.column == 0 && isMarker '.' s.rest then s.marker? .documentEnd
    else if c == '[' then s.openBracket? .openList
    else if c == '\x7b' then s.openBracket? .openRecord
    else if c == ']' then s.closeBracket? .closeList
    else if c == '\x7d' then s.closeBracket? .closeRecord
    else if c == ',' then s.comma?
    else if c == '-' && endsWord cs then s.entry?
    else if c == '?' && (inFlow || endsWord cs) then s.key?
    else if c == ':' && (inFlow || endsWord cs) then s.value?
    else if c == '*' then s.name? .alias
    else if c == '&' then s.name? .anchor
    else if c == '|' && !inFlow then s.blockScalar? false
    else if c == '>' && !inFlow then s.blockScalar? true
    else if c == '\'' then s.quoted? singleFrom
    else if c == '"' then s.quoted? doubleFrom
    else if startsPlain inFlow s.rest then s.plain?
    else none

/-- Reads tokens to the end of the text or to the first place that makes no sense. Every token takes
a character, so the number of characters is enough fuel. -/
def run : Nat → Scan → List Token
  | 0, s => (Token.broken :: s.tokens).reverse
  | fuel + 1, s =>
    let next := s.toNext
    let unrolled := next.endBlocks next.position.column
    if next.rest.isEmpty then
      match (next.endBlocks (-1)).dropCandidate? with
      | some ended => ended.tokens.reverse
      | none => (Token.broken :: s.tokens).reverse
    else match unrolled.token? with
      | some s' => run fuel s'
      | none => (Token.broken :: s.tokens).reverse

end Scan

/-- The tokens of a text. -/
def tokens (cs : List Char) : List Token :=
  Scan.run (cs.length + 1) (.start cs)

end SchemaBindings.Document.Yaml
