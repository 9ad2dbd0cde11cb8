namespace SchemaBindings.Delivery

/-- Cuts at every slash, so that there is one piece more than slashes. -/
def cutSlashes : List Char → List (List Char)
  | [] => [[]]
  | c :: cs =>
    if c = '/' then [] :: cutSlashes cs
    else match cutSlashes cs with
      | [] => [[c]]
      | piece :: pieces => (c :: piece) :: pieces

/-- The components of a path as they are written. -/
def components (s : String) : List String :=
  (cutSlashes s.toList).map String.ofList

def isAbsolute (s : String) : Bool :=
  s.toList.head? == some '/'

/-- A path without superfluous components; steps to a parent are at its start only. -/
structure Path where
  rooted : Bool
  parts : List String
  deriving DecidableEq, Repr

namespace Path

/-- The working directory. -/
def here : Path := ⟨false, []⟩

/-- The path after one more component: a step to the parent takes the last part away, if there is
one to take. -/
def step (p : Path) (component : String) : Path :=
  if component = "" ∨ component = "." then p
  else if component = ".." then
    match p.parts.getLast? with
    | none => if p.rooted then p else { p with parts := [".."] }
    | some last =>
      if last = ".." then { p with parts := p.parts ++ [".."] }
      else { p with parts := p.parts.dropLast }
  else { p with parts := p.parts ++ [component] }

/-- The path that a text denotes, whatever exists. -/
def ofText (s : String) : Path :=
  (components s).foldl step ⟨isAbsolute s, []⟩

/-- A path below a directory. -/
def join (directory name : String) : Path :=
  (components name).foldl step (ofText directory)

/-- The directory that holds the path. -/
def parent (p : Path) : Path :=
  { p with parts := p.parts.dropLast }

def text (p : Path) : String :=
  let joined := "/".intercalate p.parts
  if p.rooted then "/" ++ joined
  else if p.parts.isEmpty then "."
  else joined

/-- The path and the directories around it, the outermost first. -/
def lineage (p : Path) : List Path :=
  (List.range (p.parts.length + 1)).map fun n => { p with parts := p.parts.take n }

/-- Whether `p` is a directory around `q`. -/
def isAbove (p q : Path) : Bool :=
  p.rooted == q.rooted && p.parts.length < q.parts.length && p.parts.isPrefixOf q.parts

/-- The path lies outside the working directory, or is not told from it. -/
def isOutside (p : Path) : Bool :=
  p.rooted || p.parts.head? == some ".."

end Path

/-- A name that stays inside the directory it is joined to. -/
def isLocal (name : String) : Bool :=
  name != "" && !isAbsolute name && !(Path.ofText name).isOutside

end SchemaBindings.Delivery
