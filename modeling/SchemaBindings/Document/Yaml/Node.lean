import SchemaBindings.Document.Yaml.Token

namespace SchemaBindings.Document.Yaml

/-- What a text says, with scalars as they are written. -/
inductive Node where
  | scalar (text : String) (isPlain : Bool)
  | sequence (items : List Node)
  | mapping (entries : List (Node × Node))
  deriving Inhabited

namespace Node

/-- What stands where nothing is written. -/
def nothing : Node := scalar "" true

end Node

/-- The tokens that are still to be read and the nodes that were given names. -/
structure Outlook where
  tokens : List Token
  named : List (String × Node)

/-- A step of reading nodes; none when the tokens do not fit. -/
abbrev Reading := StateT Outlook Option

namespace Reading

def refuse {α : Type} : Reading α :=
  fun _ => none

/-- How far a broken place shows ahead. -/
def foresight : Nat := 3

/-- The next token, if there is one. It cannot be told when the text is broken close to it. -/
def peek : Reading (Option Token) := do
  let s ← get
  if (s.tokens.take foresight).contains .broken then refuse else return s.tokens.head?

def advance : Reading Unit :=
  modify fun s => { s with tokens := s.tokens.drop 1 }

/-- Gives a node a name. -/
def bindName (name? : Option String) (n : Node) : Reading Node := do
  match name? with
  | some name => modify fun s => { s with named := (name, n) :: s.named }
  | none => pure ()
  return n

/-- The node with a name. -/
def lookup (name : String) : Reading Node := do
  match (← get).named.find? fun entry => entry.1 == name with
  | some (_, n) => return n
  | none => refuse

/-- Nothing may be written where a name is given to it. -/
def unwritten (name? : Option String) : Reading Node :=
  if name?.isSome then bindName name? .nothing else refuse

mutual

/-- A node. Blocks may be read where `inBlock` is set, and a sequence that is not indented where
`mayAlign` is. Fuel bounds the number of steps. -/
def node (inBlock mayAlign : Bool) : Nat → Reading Node
  | 0 => refuse
  | fuel + 1 => do
    match ← peek with
    | some (.alias name) => do
      advance
      lookup name
    | some (.anchor name) => do
      advance
      content inBlock mayAlign (some name) fuel
    | _ => content inBlock mayAlign none fuel

/-- A node after its name. -/
def content (inBlock mayAlign : Bool) (name? : Option String) : Nat → Reading Node
  | 0 => refuse
  | fuel + 1 => do
    match ← peek with
    | some (.scalar text isPlain) => do
      advance
      bindName name? (.scalar text isPlain)
    | some .openList => do
      advance
      bindName name? (.sequence (← listItems true fuel))
    | some .openRecord => do
      advance
      bindName name? (.mapping (← recordEntries true fuel))
    | some .entry =>
      if mayAlign then do bindName name? (.sequence (← alignedItems fuel))
      else unwritten name?
    | some .sequenceStart =>
      if inBlock then do
        advance
        bindName name? (.sequence (← blockItems fuel))
      else unwritten name?
    | some .mappingStart =>
      if inBlock then do
        advance
        bindName name? (.mapping (← blockEntries fuel))
      else unwritten name?
    | _ => unwritten name?

/-- A node, or nothing if one of the given tokens comes next. -/
def nodeUnless (stops : List (Option Token)) (inBlock mayAlign : Bool) : Nat → Reading Node
  | 0 => refuse
  | fuel + 1 => do
    if stops.contains (← peek) then return .nothing else node inBlock mayAlign fuel

def blockItems : Nat → Reading (List Node)
  | 0 => refuse
  | fuel + 1 => do
    match ← peek with
    | some .entry => do
      advance
      let item ← nodeUnless [some .entry, some .blockEnd] true false fuel
      return item :: (← blockItems fuel)
    | some .blockEnd => do
      advance
      return []
    | _ => refuse

def alignedItems : Nat → Reading (List Node)
  | 0 => refuse
  | fuel + 1 => do
    match ← peek with
    | some .entry => do
      advance
      let item ← nodeUnless [some .entry, some .key, some .value, some .blockEnd] true false fuel
      return item :: (← alignedItems fuel)
    | _ => return []

def blockEntries : Nat → Reading (List (Node × Node))
  | 0 => refuse
  | fuel + 1 => do
    let ends := [some Token.key, some .value, some .blockEnd]
    match ← peek with
    | some .key => do
      advance
      let key ← nodeUnless ends true true fuel
      let value ←
        if (← peek) = some .value then do
          advance
          nodeUnless ends true true fuel
        else pure .nothing
      return (key, value) :: (← blockEntries fuel)
    | some .blockEnd => do
      advance
      return []
    | _ => refuse

/-- The items of a list in brackets, a comma before each but the first. -/
def listItems (isFirst : Bool) : Nat → Reading (List Node)
  | 0 => refuse
  | fuel + 1 => do
    match ← peek with
    | some .closeList => do
      advance
      return []
    | next => do
      if !isFirst then
        if next = some .comma then advance else refuse
      match ← peek with
      | some .closeList => do
        advance
        return []
      | some .key => do
        advance
        let pair ← pairInList fuel
        return .mapping [pair] :: (← listItems false fuel)
      | _ => do
        let item ← node false false fuel
        return item :: (← listItems false fuel)

/-- An item of a list that is a single entry of a mapping. -/
def pairInList : Nat → Reading (Node × Node)
  | 0 => refuse
  | fuel + 1 => do
    let ends := [some Token.comma, some .closeList]
    let key ← nodeUnless (some .value :: ends) false false fuel
    if (← peek) = some .value then do
      advance
      return (key, ← nodeUnless ends false false fuel)
    else return (key, .nothing)

/-- The entries of a mapping in braces, a comma before each but the first. -/
def recordEntries (isFirst : Bool) : Nat → Reading (List (Node × Node))
  | 0 => refuse
  | fuel + 1 => do
    let ends := [some Token.comma, some .closeRecord]
    match ← peek with
    | some .closeRecord => do
      advance
      return []
    | next => do
      if !isFirst then
        if next = some .comma then advance else refuse
      match ← peek with
      | some .closeRecord => do
        advance
        return []
      | some .key => do
        advance
        let key ← nodeUnless (some .value :: ends) false false fuel
        let value ←
          if (← peek) = some .value then do
            advance
            nodeUnless ends false false fuel
          else pure .nothing
        return (key, value) :: (← recordEntries false fuel)
      | _ => do
        let key ← node false false fuel
        return (key, .nothing) :: (← recordEntries false fuel)

end

/-- The first document: none in it if nothing is written at all. A document may start with a marker;
what follows it is looked at only as far as to find where it ends. -/
def firstDocument (fuel : Nat) : Reading (Option Node) := do
  match ← peek with
  | none => return none
  | some .documentStart => do
    advance
    let root ← nodeUnless [none, some .documentStart, some .documentEnd] true false fuel
    let _ ← peek
    return some root
  | _ => do
    let root ← node true false fuel
    let _ ← peek
    return some root

end Reading

/-- The node of the first document. Every step takes a token or descends at most three levels before
it does. -/
def Node.ofTokens? (tokens : List Token) : Option (Option Node) :=
  ((Reading.firstDocument (4 * tokens.length + 4)).run ⟨tokens, []⟩).map Prod.fst

end SchemaBindings.Document.Yaml
