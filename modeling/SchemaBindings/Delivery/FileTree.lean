import SchemaBindings.Delivery.Path

namespace SchemaBindings.Delivery

/-- Files with their content, and directories that were made. A directory is there also when a file
lies in it. -/
structure FileTree where
  files : List (Path × List UInt8)
  made : List Path
  deriving DecidableEq, Repr

/-- Why a file cannot be read. -/
inductive Unreadable where
  | missing
  | notDirectory
  | isDirectory
  deriving DecidableEq, Repr

namespace FileTree

def empty : FileTree := ⟨[], []⟩

def file? (t : FileTree) (p : Path) : Option (List UInt8) :=
  t.files.lookup p

/-- The working directory, the root and the directories above are always there. -/
def isDirectory (t : FileTree) (p : Path) : Bool :=
  p.parts.all (· == "..") || t.made.contains p || t.files.any fun f => p.isAbove f.1

/-- Puts a file at a path, in place of the one that was there. -/
def put (t : FileTree) (p : Path) (content : List UInt8) : FileTree :=
  if (t.file? p).isSome then
    { t with files := t.files.map fun f => if f.1 = p then (p, content) else f }
  else { t with files := t.files ++ [(p, content)] }

/-- Makes a directory with those around it; none if a file is in the way. -/
def makeDirectory? (t : FileTree) (p : Path) : Option FileTree :=
  if p.lineage.any fun q => (t.file? q).isSome then none
  else some { t with made := t.made ++ p.lineage.filter fun q => !t.isDirectory q }

/-- Writes a file into a directory that is there; none if the path is itself one. -/
def write? (t : FileTree) (p : Path) (content : List UInt8) : Option FileTree :=
  if t.isDirectory p then none else some (t.put p content)

/-- Follows a component from a path that must be a directory. -/
def follow (t : FileTree) (p : Path) (component : String) : Except Unreadable Path :=
  if t.isDirectory p then .ok (p.step component)
  else if (t.file? p).isSome then .error .notDirectory
  else .error .missing

/-- Reads the file that a text leads to, component by component. -/
def read (t : FileTree) (path : String) : Except Unreadable (List UInt8) :=
  if path = "" then .error .missing
  else do
    let p ← (components path).foldlM t.follow ⟨isAbsolute path, []⟩
    match t.file? p with
    | some content => return content
    | none => .error (if t.isDirectory p then .isDirectory else .missing)

/-- The files below the working directory, in the order of their names. -/
def listing (t : FileTree) : List (String × List UInt8) :=
  let inside := t.files.filter fun f => !f.1.isOutside
  (inside.map fun f => (f.1.text, f.2)).mergeSort fun a b => a.1 ≤ b.1

end FileTree

namespace Unreadable

/-- What the failure to read a file at a path says. -/
def message (path : String) : Unreadable → String
  | missing => "open " ++ path ++ ": no such file or directory"
  | notDirectory => "open " ++ path ++ ": not a directory"
  | isDirectory => "read " ++ path ++ ": is a directory"

end Unreadable

end SchemaBindings.Delivery
