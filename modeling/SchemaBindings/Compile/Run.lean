import SchemaBindings.Bindings.File
import SchemaBindings.Compile.Event
import SchemaBindings.Contract.Check
import SchemaBindings.Delivery.Sink
import SchemaBindings.Document.Request
import SchemaBindings.Settings.Basic

namespace SchemaBindings.Compile

open SchemaBindings.Bindings
open SchemaBindings.Delivery
open SchemaBindings.Schema

/-- Why a run fails. -/
inductive Problem where
  | refused (refusal : Contract.Refusal)
  | document (problem : Document.Problem)
  | indexing (failure : Failure)
  | generating (failure : Failure)
  | generationCancelled
  | undelivered (reason : Undelivered)
  deriving DecidableEq, Repr

namespace Problem

def message : Problem → String
  | refused refusal => refusal.message
  | document problem => problem.message
  | indexing failure => failure.message
  | generating failure => "generating: " ++ failure.message
  | generationCancelled => "generating: " ++ Undelivered.cancelled.message
  | undelivered reason => reason.message

end Problem

/-- What a run leaves behind: the sink, the reports in order, and how it ended. -/
structure Outcome where
  sink : Sink
  events : List Event
  result : Except Problem Unit

namespace Outcome

/-- The same outcome with a report before all others. -/
def after (e : Event) (o : Outcome) : Outcome :=
  { o with events := e :: o.events }

end Outcome

/-- The files of a request one after the other, up to the first that fails. Each of them asks
whether the run is cancelled. -/
def generateAll (g : Graph) :
    Cancellation → List RequestedFile → List Event × Except Problem (List FileOutput)
  | _, [] => ([], .ok [])
  | c, file :: files =>
    if c.isDue then ([], .error .generationCancelled)
    else match generateFile g file with
      | .error failure => ([], .error (.generating failure))
      | .ok output =>
        let (events, outputs) := generateAll g (c.past 1) files
        (.generated output.filename output.source.utf8ByteSize output.usedImports.length :: events,
          outputs.map (output :: ·))

/-- The name under which a generated file is delivered, with its text. -/
def delivered (suffix : String) (output : FileOutput) : String × String :=
  (output.filename ++ suffix, output.source)

/-- Delivers files one after the other, up to the first that is refused. Each of them asks again
whether the run is cancelled. -/
def deliver (c : Cancellation) (sink : Sink) : List (String × String) → Outcome
  | [] => ⟨sink, [], .ok ()⟩
  | (name, source) :: rest =>
    match sink.write c name source with
    | .error reason => ⟨sink, [], .error (.undelivered reason)⟩
    | .ok written => (deliver (c.past 1) written rest).after (.written name source.utf8ByteSize)

/-- Delivers all files and reports the end of it. -/
def deliverAll (c : Cancellation) (sink : Sink) (files : List (String × String)) : Outcome :=
  let o := deliver c sink files
  match o.result with
  | .ok () => { o with events := o.events ++ [.finished files.length] }
  | .error _ => o

/-- The files of a request under their names, with the reports on the way to them. -/
def requestOutputs (settings : Settings) (c : Cancellation) (request : Request) :
    List Event × Except Problem (List (String × String)) :=
  let started := Event.started request.nodes.length request.files.length
  match Graph.ofNodes request.nodes with
  | .error failure => ([started], .error (.indexing failure))
  | .ok g =>
    let (events, outputs) := generateAll g c request.files
    (started :: events, outputs.map fun files => files.map (delivered settings.suffix))

/-- The files of a document, which is checked first if the settings ask for it. -/
def documentOutputs (settings : Settings) (c : Cancellation) (d : Document) :
    List Event × Except Problem (List (String × String)) :=
  let unchecked := match Document.request d with
    | .error problem => ([], .error (.document problem))
    | .ok request => requestOutputs settings c request
  if settings.validate then
    match Contract.checkDocument d with
    | .error refusal => ([], .error (.refused refusal))
    | .ok () => (.validated (d.nodes?.getD []).length :: unchecked.1, unchecked.2)
  else unchecked

/-- Delivers files once all of them are there. -/
def finish (c : Cancellation) (sink : Sink) :
    List Event × Except Problem (List (String × String)) → Outcome
  | (events, .error problem) => ⟨sink, events, .error problem⟩
  | (events, .ok files) =>
    let o := deliverAll c sink files
    { o with events := events ++ o.events }

/-- Generates the files of a request, and delivers them once all are there. Every file has asked
once by then. -/
def run (settings : Settings) (c : Cancellation) (sink : Sink) (request : Request) : Outcome :=
  finish (c.past request.files.length) sink (requestOutputs settings c request)

/-- Takes a document into a request, checks it if the settings ask for that, and runs it. -/
def runDocument (settings : Settings) (c : Cancellation) (sink : Sink) (d : Document) : Outcome :=
  finish (c.past (d.files?.getD []).length) sink (documentOutputs settings c d)

end SchemaBindings.Compile
