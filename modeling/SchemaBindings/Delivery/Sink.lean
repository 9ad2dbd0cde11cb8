import SchemaBindings.Delivery.FileTree

namespace SchemaBindings.Delivery

/-- Why a generated file is not delivered. -/
inductive Undelivered where
  | cancelled
  | escapes (name directory : String)
  | noDirectory (name : String)
  | notWritten (name : String)
  deriving DecidableEq, Repr

namespace Undelivered

def message : Undelivered → String
  | cancelled => "context canceled"
  | escapes name directory => "output " ++ name ++ " escapes " ++ directory
  | noDirectory name => "creating directory for " ++ name
  | notWritten name => "writing " ++ name

end Undelivered

/-- When a run is cancelled. It asks before each file that it generates and again before each that
it delivers, and is told to go on as often as the number says, or always. -/
inductive Cancellation where
  | never
  | after (asked : Nat)
  deriving DecidableEq, Repr

namespace Cancellation

/-- The run is cancelled for the next that asks. -/
def isDue : Cancellation → Bool
  | never => false
  | after asked => asked == 0

/-- What is left once some have asked. A run that is cancelled stays so. -/
def past : Cancellation → Nat → Cancellation
  | never, _ => never
  | after asked, others => after (asked - others)

/-- A run that is cancelled from the beginning, or never. -/
def ofFlag (cancelled : Bool) : Cancellation :=
  if cancelled then after 0 else never

instance : Coe Bool Cancellation := ⟨ofFlag⟩

end Cancellation

/-- Where generated files go: into memory under any name, or below a directory. -/
inductive Sink where
  | memory (files : List (String × String))
  | directory (root : String) (tree : FileTree)
  deriving DecidableEq, Repr

/-- Files by name, the last write of a name kept. -/
def putNamed (files : List (String × String)) (name data : String) : List (String × String) :=
  if (files.lookup name).isSome then
    files.map fun f => if f.1 = name then (name, data) else f
  else files ++ [(name, data)]

/-- Where a file with the given name is written below a directory. -/
def target (root name : String) : Except Undelivered Path :=
  if isLocal name then .ok (.join root name) else .error (.escapes name root)

namespace Sink

/-- Delivers one file. A refused delivery leaves the sink as it was. -/
def write (sink : Sink) (c : Cancellation) (name data : String) : Except Undelivered Sink :=
  if c.isDue then .error .cancelled
  else match sink with
    | memory files => .ok (memory (putNamed files name data))
    | directory root tree => do
      let path ← target root name
      let some prepared := tree.makeDirectory? path.parent | .error (.noDirectory name)
      let some written := prepared.write? path data.toUTF8.toList | .error (.notWritten name)
      return directory root written

/-- The file of a name in memory. -/
def file? : Sink → String → Option String
  | memory files, name => files.lookup name
  | directory .., _ => none

/-- The names in memory, in order. -/
def names : Sink → List String
  | memory files => (files.map Prod.fst).mergeSort fun a b => a ≤ b
  | directory .. => []

end Sink

end SchemaBindings.Delivery
