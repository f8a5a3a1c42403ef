import Nak.Protocol
import Nak.Library.Action

/-! The frontend's end of the protocol: which remotes, jobs and pipes it has handed out and
what it sends about them. A transport answers each message; `sent` lists the messages it
took. What is done with a response is up to the handler. -/
namespace Nak
open Library

structure RemoteState where
  parent : Option RemoteId
  deriving DecidableEq, Repr

abbrev Transport (ε : Type) := Request → Except ε Unit

structure Endpoint (H : Type) where
  handler : H
  ids : Ids
  remotes : FiniteMap RemoteId RemoteState
  /-- The remote each job was begun on. -/
  jobs : FiniteMap ProcessId RemoteId
  pipes : Finset Nat
  sent : List Request

namespace Endpoint
variable {H ε : Type}

def new (handler : H) : Endpoint H := ⟨handler,Ids.new,Finmap.singleton ⟨0⟩ ⟨none⟩,∅,∅,[]⟩

def root : RemoteId := ⟨0⟩

def nextId : Action ε (Endpoint H) Nat := do
  let endpoint ← .get
  let (id,ids) := endpoint.ids.next
  .modify fun endpoint => { endpoint with ids }
  pure id

def assertOpen (remote : RemoteId) : Action ε (Endpoint H) Unit := do
  let endpoint ← .get
  .lift (Outcome.assert (remote ∈ endpoint.remotes))

section Calls
variable (trans : Transport ε)

def send (remote : RemoteId) (message : RemoteRequest) : Action ε (Endpoint H) Unit := do
  .propagate (trans ⟨remote.val,message⟩)
  .modify fun endpoint => { endpoint with sent := endpoint.sent ++ [⟨remote.val,message⟩] }

def remote (remote : RemoteId) (command : Command) : Action ε (Endpoint H) RemoteId := do
  assertOpen remote
  let id ← nextId
  send trans remote (.beginRemote id command)
  let endpoint ← .get
  .modify fun endpoint => { endpoint with remotes := endpoint.remotes.insert ⟨id⟩ ⟨some remote⟩ }
  .lift (Outcome.assert (endpoint.remotes.lookup ⟨id⟩ = none))
  pure ⟨id⟩

def pipe : Action ε (Endpoint H) (ReadPipe × WritePipe) := do
  let id ← nextId
  .modify fun endpoint => { endpoint with pipes := insert id endpoint.pipes }
  pure (⟨id⟩,⟨id⟩)

def command (remote : RemoteId) (command : Command) (blockFor : OrderedMap ProcessId Condition)
    (pipes : WritePipes) : Action ε (Endpoint H) ProcessId := do
  assertOpen remote
  let id ← nextId
  let process : AbstractProcess := ⟨⟨id⟩,pipes.stdin.val,pipes.stdout.val,pipes.stderr.val⟩
  send trans remote (.beginCommand blockFor process command)
  .modify fun endpoint => { endpoint with jobs := endpoint.jobs.insert ⟨id⟩ remote }
  pure ⟨id⟩

def openOutputFile (remote : RemoteId) (path : String) : Action ε (Endpoint H) WritePipe := do
  assertOpen remote
  let id ← nextId
  .modify fun endpoint => { endpoint with pipes := insert id endpoint.pipes }
  send trans remote (.openOutputFile id path)
  pure ⟨id⟩

def openInputFile (remote : RemoteId) (path : String) : Action ε (Endpoint H) ReadPipe := do
  assertOpen remote
  let id ← nextId
  .modify fun endpoint => { endpoint with pipes := insert id endpoint.pipes }
  send trans remote (.openInputFile id path)
  pure ⟨id⟩

def closeRemote (remote : RemoteId) : Action ε (Endpoint H) Unit := do
  let endpoint ← .get
  let state ← .lift (Outcome.expect "remote not connected" (endpoint.remotes.lookup remote))
  .modify fun endpoint => { endpoint with remotes := endpoint.remotes.erase remote }
  let parent ← .lift (Outcome.expect "closing root remote" state.parent)
  send trans parent (.endRemote remote.val)

def closeProcess (id : ProcessId) : Action ε (Endpoint H) Unit := do
  let endpoint ← .get
  let parent ← .lift (Outcome.expect "process not running" (endpoint.jobs.lookup id))
  .modify fun endpoint => { endpoint with jobs := endpoint.jobs.erase id }
  assertOpen parent
  send trans parent (.cancelCommand id)

def finishEdit (commandId : ProcessId) (editId : Nat) (data : Bytes) : Action ε (Endpoint H) Unit := do
  let endpoint ← .get
  let parent ← .lift (Outcome.expect "process not running" (endpoint.jobs.lookup commandId))
  assertOpen parent
  send trans parent (.finishEdit editId data)

def pipeRead (remote : RemoteId) (id : ReadPipe) (readUpTo : Nat) : Action ε (Endpoint H) Unit :=
  send trans remote (.pipe ⟨id.val,.read readUpTo⟩)

def pipeBeginRead (remote : RemoteId) (id : ReadPipe) : Action ε (Endpoint H) Unit :=
  send trans remote (.pipe ⟨id.val,.beginRead⟩)

end Calls
end Endpoint

structure EndpointHandler (ε H : Type) where
  remoteReady : RemoteId → RemoteInfo → Action ε (Endpoint H) Unit
  commandDone : ProcessId → Int → Action ε (Endpoint H) Unit
  directoryListing : Nat → List String → Action ε (Endpoint H) Unit
  editRequest : Nat → ProcessId → String → Bytes → Action ε (Endpoint H) Unit
  pipe : GenericPipe → PipeMessage → Action ε (Endpoint H) Unit

def Endpoint.receive {ε H : Type} (handler : EndpointHandler ε H) (message : Response) :
    Action ε (Endpoint H) Unit :=
  match message.message with
  | .remoteReady info => handler.remoteReady ⟨message.remoteId⟩ info
  | .commandDone id exitCode => handler.commandDone id exitCode
  | .directoryListing id items => handler.directoryListing id items
  | .editRequest commandId editId name data => handler.editRequest editId commandId name data
  | .pipe pipe => do
    let endpoint ← .get
    .lift (Outcome.assert (pipe.id ∈ endpoint.pipes))
    handler.pipe ⟨pipe.id⟩ pipe.msg

end Nak
