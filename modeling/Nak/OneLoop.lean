import Nak.Frontend
import Nak.PlanBuilder

/-! The loop of the shell. While it waits for something a turn takes one event; at the
prompt it reads a plan, begins its commands and ends with a `GetDirectory` that is blocked
on all of them. What a turn has begun is returned with it and read by nothing. -/
namespace Nak
open Library

inductive Event where
  | remote (msg : Response)
  | key
  | ctrlC

/-- What a turn of the loop is given from outside. `order` is the one in which a turn goes
through the hash set `waiting_for`. -/
structure Inputs where
  terminal : Terminal
  trans : Transport Error
  recv : Except Error Event
  getCommand : String → Outcome (Except Error Plan)
  order : List ProcessId

structure Job where
  id : ProcessId
  command : Command
  pipes : WritePipes
  deriving DecidableEq, Repr

/-- A line that has been begun: its processes, the `GetDirectory` at its end and the pipes
of its sinks. -/
structure Line where
  jobs : List Job
  directory : Job
  sinks : List (GenericPipe × Sink)
  deriving DecidableEq, Repr

def Line.cwd (line : Line) : GenericPipe := line.directory.pipes.stdout.toGeneric

inductive Turn where
  | handled
  | begun (line : Line)
  | closed

structure PipePair where
  read : Option ReadPipe
  write : Option WritePipe
  deriving DecidableEq, Repr

/-- What the steps done so far have made and begun; `wait` holds the ids of the jobs. -/
structure Stage where
  pipePairs : List PipePair
  jobs : List Job

namespace Shell

def takeRead (pairs : List PipePair) (index : Nat) : Outcome (ReadPipe × List PipePair) :=
  match pairs[index]? with
  | none => .error .bounds
  | some pair => do
    let taken ← Outcome.unwrap pair.read
    pure (taken,pairs.set index { pair with read := none })

def takeWrite (pairs : List PipePair) (index : Nat) : Outcome (WritePipe × List PipePair) :=
  match pairs[index]? with
  | none => .error .bounds
  | some pair => do
    let taken ← Outcome.unwrap pair.write
    pure (taken,pairs.set index { pair with write := none })

def curRemote : Shell RemoteId := do
  let endpoint ← .get
  let (id,_) ← .lift (Outcome.unwrap endpoint.handler.remotes.getLast?)
  pure id

def newline : UInt8 := 10

def setWorkingDir (remote : RemoteId) : Bytes → List (RemoteId × RemoteInfo) → Outcome (List (RemoteId × RemoteInfo))
  | _, [] => pure []
  | result, (id,rem) :: remotes =>
    if id = remote then
      -- `pop` takes the last byte away also when it is no newline.
      if result.getLast? = some newline then do
        let text ← Outcome.unwrap (String.fromUTF8? ⟨result.dropLast.toArray⟩)
        pure ((id,{ rem with workingDir := text }) :: remotes)
      else do
        let remotes ← setWorkingDir remote result.dropLast remotes
        pure ((id,rem) :: remotes)
    else do
      let remotes ← setWorkingDir remote result remotes
      pure ((id,rem) :: remotes)

def drainCwd : List (Σ _ : RemoteId, GenericPipe) → StackedRemotes → Outcome StackedRemotes
  | [], handler => pure handler
  | ⟨remote,streamId⟩ :: cwds, handler => do
    let result ← Outcome.unwrap (handler.finishedOutput.lookup streamId)
    let remotes ← setWorkingDir remote result handler.remotes
    drainCwd cwds { handler with finishedOutput := handler.finishedOutput.erase streamId, remotes }

def prompt : Shell String := do
  let endpoint ← .get
  let handler ← .lift (drainCwd endpoint.handler.cwdForRemote.entries endpoint.handler)
  StackedRemotes.update fun _ => { handler with cwdForRemote := ∅ }
  let (_,top) ← .lift (Outcome.unwrap handler.remotes.getLast?)
  pure ("[" ++ toString handler.remotes.length ++ ":" ++ top.hostname ++ "] " ++ top.workingDir ++ "$ ")

section Begin
variable (trans : Transport Error)

def endRemote : Shell Unit := do
  let endpoint ← .get
  let (id,_) ← .lift (Outcome.unwrap endpoint.handler.remotes.getLast?)
  StackedRemotes.update fun handler => { handler with remotes := handler.remotes.dropLast }
  Endpoint.closeRemote trans id

/-- One step of the plan; `none` is the early `Ok(false)`. -/
def runStep (stage : Stage) : Step → Shell (Option Stage)
  | .pipe => do
    let (r,w) ← Endpoint.pipe
    pure (some { stage with pipePairs := stage.pipePairs ++ [⟨some r,some w⟩] })
  | .remote _ (.run cmd pr) => do
    let remote ← curRemote
    let (stdout,pairs) ← .lift (takeWrite stage.pipePairs pr.stdout)
    let (stderr,pairs) ← .lift (takeWrite pairs pr.stderr)
    let (stdin,pairs) ← .lift (takeRead pairs pr.stdin)
    let pid ← Endpoint.command trans remote cmd ∅ ⟨stdin,stdout,stderr⟩
    pure (some ⟨pairs,stage.jobs ++ [⟨pid,cmd,⟨stdin,stdout,stderr⟩⟩]⟩)
  | .remote _ .close => do
    let endpoint ← .get
    if endpoint.handler.remotes.length > 1 then
      endRemote trans
      pure (some stage)
    else pure none
  | .remote _ (.openOutputFile path) => do
    let remote ← curRemote
    let handle ← Endpoint.openOutputFile trans remote path
    pure (some { stage with pipePairs := stage.pipePairs ++ [⟨none,some handle⟩] })
  | _ => .panic .explicit

def runSteps : List Step → Stage → Shell (Option Stage)
  | [], stage => pure (some stage)
  | step :: steps, stage => do
    match ← runStep trans stage step with
    | some stage => runSteps steps stage
    | none => pure none

/-- Every job, with no condition on how it ends. The set of jobs has no order of its own. -/
def blockOn (jobs : List Job) : OrderedMap ProcessId Condition :=
  jobs.foldl (fun block job => block.insert job.id none) ∅

def beginDirectory (jobs : List Job) : Shell Job := do
  let remote ← curRemote
  let (stdoutRead,stdoutWrite) ← Endpoint.pipe
  let (stderrRead,stderrWrite) ← Endpoint.pipe
  let (stdinRead,_) ← Endpoint.pipe
  let pipes : WritePipes := ⟨stdinRead,stdoutWrite,stderrWrite⟩
  let pid ← Endpoint.command trans remote .getDirectory (blockOn jobs) pipes
  Endpoint.pipeBeginRead trans remote stdoutRead
  Endpoint.pipeBeginRead trans remote stderrRead
  Endpoint.pipeRead trans remote stdoutRead (1024 * 1024)
  Endpoint.pipeRead trans remote stderrRead (1024 * 1024)
  StackedRemotes.update fun handler => { handler with
    gatheringOutput := handler.gatheringOutput.insert stdoutRead.toGeneric []
    waitingForEof := insert stdoutRead.toGeneric handler.waitingForEof
    stderrPipes := insert stderrRead.toGeneric handler.stderrPipes
    cwdForRemote := handler.cwdForRemote.insert remote stdoutRead.toGeneric }
  pure ⟨pid,.getDirectory,pipes⟩

def registerSink (pipe : GenericPipe) : Sink → Shell Unit
  | .devNull => pure ()
  | .stdout => StackedRemotes.update fun handler =>
      { handler with stdoutPipes := insert pipe handler.stdoutPipes }
  | .stderr => StackedRemotes.update fun handler =>
      { handler with stderrPipes := insert pipe handler.stderrPipes }
  | .gather _ => .panic .explicit
  | .pager _ => .panic .explicit

/-- The loop over the sink map, from the entry at `index` on. -/
def readSinks (remote : RemoteId) : Nat → List (Option Sink) → List PipePair → Shell (List (GenericPipe × Sink))
  | _, [], _ => pure []
  | index, none :: sinks, pairs => readSinks remote (index + 1) sinks pairs
  | index, some sink :: sinks, pairs => do
    let (commPipe,pairs) ← .lift (takeRead pairs index)
    Endpoint.pipeBeginRead trans remote commPipe
    Endpoint.pipeRead trans remote commPipe (1024 * 1024)
    registerSink commPipe.toGeneric sink
    let more ← readSinks remote (index + 1) sinks pairs
    pure ((commPipe.toGeneric,sink) :: more)

def ids (jobs : List Job) : Finset ProcessId := (jobs.map Job.id).toFinset

def beginLine (plan : Plan) : Shell (Option Line) := do
  match ← runSteps trans plan.steps ⟨[],[]⟩ with
  | none => pure none
  | some stage =>
    let directory ← beginDirectory trans stage.jobs
    let remote ← curRemote
    let sinks ← readSinks trans remote 0 plan.sinkMap stage.pipePairs
    let endpoint ← .get
    .lift (Outcome.assert (endpoint.handler.waitingFor.card = 0))
    StackedRemotes.update fun handler => { handler with waitingFor := insert directory.id (ids stage.jobs) }
    pure (some ⟨stage.jobs,directory,sinks⟩)

end Begin

def cancelAll (trans : Transport Error) : List ProcessId → Shell Unit
  | [] => pure ()
  | id :: ids => do
    Endpoint.closeProcess trans id
    cancelAll trans ids

section Turns
variable (inputs : Inputs)

def readLine : Shell Turn := do
  let text ← prompt
  let plan ← .lift (inputs.getCommand text)
  match ← beginLine inputs.trans (← .propagate plan) with
  | some line => pure (.begun line)
  | none => pure .closed

def receive (msg : Response) : Shell Turn := do
  Endpoint.receive (StackedRemotes.handler inputs.terminal inputs.trans) msg
  pure .handled

def turn : Shell Turn := do
  let endpoint ← .get
  if endpoint.handler.waitingForRemote.isSome then
    match ← .propagate inputs.recv with
    | .remote msg => receive inputs msg
    | .ctrlC => .panic .explicit
    | .key => .panic .explicit
  else if endpoint.handler.waitingFor.card = 0 ∧ endpoint.handler.waitingForEof.card = 0 then readLine inputs
  else
    match ← .propagate inputs.recv with
    | .remote msg => receive inputs msg
    | .ctrlC => do
      cancelAll inputs.trans inputs.order
      pure .handled
    | .key => .panic .explicit

def oneLoop : Shell Bool := do
  match ← turn inputs with
  | .closed => pure false
  | _ => pure true

end Turns
end Shell
end Nak
