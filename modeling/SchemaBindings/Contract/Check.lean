import SchemaBindings.Contract.Rule
import SchemaBindings.Contract.Text
import SchemaBindings.Document.Encode

namespace SchemaBindings.Contract

/-- Why a request is refused before it is looked at further. -/
inductive Refusal where
  | unwritable
  | unreadable
  | violated
  deriving DecidableEq, Repr

namespace Refusal

def message : Refusal → String
  | unwritable => "marshaling document to JSON"
  | unreadable => "compiling JSON as CUE"
  | violated => "request document violates schema contract"

end Refusal

/-- Checks what a request says against the contract. -/
def checkTree (tree : Document.Tree) : Except Refusal Unit :=
  if requestRule.admits tree then .ok () else .error .violated

/-- A text that can be read again where it stands inside another. -/
def isLegibleText (s : String) : Bool :=
  !s.toList.contains orderMark

mutual

/-- Whether every text in a tree is legible. Members are named by plain words. -/
def isLegible : Document.Tree → Bool
  | .scalar (.text s) => isLegibleText s
  | .scalar _ => true
  | .list items => areLegible items
  | .record members => membersLegible members

def areLegible : List Document.Tree → Bool
  | [] => true
  | t :: ts => isLegible t && areLegible ts

def membersLegible : List (String × Document.Tree) → Bool
  | [] => true
  | (_, t) :: rest => isLegible t && membersLegible rest

end

/-- Checks a document in its written form, which must be one that can be read. -/
def checkDocument (d : Document) : Except Refusal Unit :=
  match Document.encode? d with
  | some tree => if isLegible tree then checkTree tree else .error .unreadable
  | none => .error .unwritable

/-- Checks a text without reading it as a document first. -/
def checkText (s : String) : Except Refusal Unit :=
  match readText? s.toList with
  | some tree => checkTree tree
  | none => .error .unreadable

end SchemaBindings.Contract
