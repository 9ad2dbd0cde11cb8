import SchemaBindings.Compile.Run

namespace SchemaBindings.Compile

open SchemaBindings.Bindings
open SchemaBindings.Delivery
open SchemaBindings.Schema

/-- How far a task has come. One that has returned still has to report, and holds its place until
then. -/
inductive Phase where
  | waiting
  | started
  | generating
  | returned (problem? : Option Problem)
  | finished (problem? : Option Problem)
  deriving DecidableEq, Repr

namespace Phase

def isWaiting : Phase → Bool
  | waiting => true
  | _ => false

def isActive : Phase → Bool
  | started | generating | returned _ => true
  | waiting | finished _ => false

def isFinished : Phase → Bool
  | finished _ => true
  | _ => false

end Phase

/-- The tasks of a request, one for each file, and what they share: the outputs under the places of
their files, the first problem that was reported, and the reports so far. The tasks run side by
side, a limited number at a time. -/
structure Pool where
  phases : List Phase
  outputs : List (Option FileOutput)
  problem? : Option Problem
  interrupted : Bool
  events : List Event

/-- What can happen next. Tasks are launched in the order of the files, the rest is up to them. -/
inductive Move where
  | launch
  | look (task : Nat)
  | generate (task : Nat)
  | report (task : Nat)
  | interrupt
  deriving DecidableEq, Repr

namespace Pool

def start (files : List RequestedFile) : Pool :=
  ⟨files.map fun _ => .waiting, files.map fun _ => none, none, false, []⟩

/-- Tasks that look now give up: the run was interrupted, or a task has reported a problem. -/
def isCancelled (pool : Pool) : Bool :=
  pool.interrupted || pool.problem?.isSome

def active (pool : Pool) : Nat :=
  pool.phases.countP Phase.isActive

def moveOn (pool : Pool) (task : Nat) (phase : Phase) : Pool :=
  { pool with phases := pool.phases.set task phase }

/-- The pool after a task has generated its file. -/
def store (pool : Pool) (task : Nat) (output : FileOutput) : Pool :=
  { pool.moveOn task (.returned none) with
    outputs := pool.outputs.set task (some output)
    events := pool.events ++
      [.generated output.filename output.source.utf8ByteSize output.usedImports.length] }

/-- The pool after a task has reported how it ended. The first problem is the one that counts. -/
def conclude (pool : Pool) (task : Nat) (problem? : Option Problem) : Pool :=
  { pool.moveOn task (.finished problem?) with problem? := pool.problem?.or problem? }

/-- One move, if the pool can take it. -/
def step (g : Graph) (files : List RequestedFile) (limit : Nat) (pool : Pool) : Move → Option Pool
  | .launch =>
    match pool.phases.findIdx? Phase.isWaiting with
    | some task => if pool.active < limit then some (pool.moveOn task .started) else none
    | none => none
  | .look task =>
    match pool.phases[task]? with
    | some .started =>
      if pool.isCancelled then
        some (pool.moveOn task (.returned (some .generationCancelled)))
      else some (pool.moveOn task .generating)
    | _ => none
  | .generate task =>
    match files[task]?, pool.phases[task]? with
    | some file, some .generating =>
      match generateFile g file with
      | .error failure => some (pool.moveOn task (.returned (some (.generating failure))))
      | .ok output => some (pool.store task output)
    | _, _ => none
  | .report task =>
    match pool.phases[task]? with
    | some (.returned problem?) => some (pool.conclude task problem?)
    | _ => none
  | .interrupt => some { pool with interrupted := true }

def run (g : Graph) (files : List RequestedFile) (limit : Nat) (pool : Pool)
    (schedule : List Move) : Option Pool :=
  schedule.foldlM (step g files limit) pool

/-- How the generation ends, once every task has finished. -/
def result? (pool : Pool) : Option (Except Problem (List FileOutput)) :=
  if pool.phases.all Phase.isFinished then
    match pool.problem? with
    | some problem => some (.error problem)
    | none => (pool.outputs.mapM id).map .ok
  else none

end Pool

/-- How many tasks run at a time: what the settings say, or one for each processor. -/
def taskLimit (settings : Settings) (processors : Nat) : Nat :=
  if 0 < settings.workers then settings.workers.toNat else processors

/-- The files of a request when its tasks take the moves of a schedule. There are none if the pool
cannot take them, or if they leave a task unfinished. -/
def scheduledOutputs (settings : Settings) (processors : Nat) (schedule : List Move)
    (request : Request) : Option (List Event × Except Problem (List (String × String))) :=
  let started := Event.started request.nodes.length request.files.length
  match Graph.ofNodes request.nodes with
  | .error failure => some ([started], .error (.indexing failure))
  | .ok g => do
    let limit := taskLimit settings processors
    let pool ← (Pool.start request.files).run g request.files limit schedule
    let result ← pool.result?
    some (started :: pool.events, result.map fun outputs => outputs.map (delivered settings.suffix))

/-- A run whose tasks take the moves of a schedule. Unless these interrupt it, it may still be
cancelled while it delivers. -/
def scheduledRun (settings : Settings) (processors : Nat) (schedule : List Move) (c : Cancellation)
    (sink : Sink) (request : Request) : Option Outcome :=
  (scheduledOutputs settings processors schedule request).map
    (finish (if schedule.contains .interrupt then .after 0 else c) sink)

end SchemaBindings.Compile
