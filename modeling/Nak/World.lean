import Nak.Exec
import Nak.OneLoop

/-! The whole system of a session with one backend: the loop of the frontend, the stream of
requests, the backend's main thread, its event queue and event loop, the threads that event
loop starts, and the child processes. One move is one step of one of them. -/
namespace Nak
open Library

/-- A child that has not exited, with the descriptors it was given. -/
structure Process where
  pid : ProcessId
  stdin : InputPipe
  stdout : OutputPipe
  stderr : OutputPipe
  deriving DecidableEq, Repr

namespace Effect

def process? : Effect → Option Process
  | .spawned pid _ _ _ stdin stdout stderr => some ⟨pid,stdin,stdout,stderr⟩
  | _ => none

def writer? : Effect → Option (OutputPipe × Bytes)
  | .writer _ handle data => some (handle,data)
  | _ => none

def reader? : Effect → Option (GenericPipe × InputPipe)
  | .reader pipe handle => some (pipe,handle)
  | _ => none

def response? : Effect → Option RemoteResponse
  | .sent response => some response
  | _ => none

end Effect

/-- `routed` counts the requests the backend has read and `received` the responses the
frontend has taken. Of each pipe `written` is everything ever written to it and `unsent`
what no one has read yet, or a reader thread has read and not yet queued. `exited` holds the
children whose waiter thread has yet to report. -/
structure World where
  info : RemoteInfo
  frontend : Endpoint StackedRemotes
  routed : Nat
  events : List ExecEvent
  exec : ExecInternal
  received : Nat
  children : List Process
  exited : List (ProcessId × Int)
  writers : List (OutputPipe × Bytes)
  readers : List (GenericPipe × InputPipe)
  written : GenericPipe → Bytes
  unsent : GenericPipe → Bytes
  lines : List Line

/-- What can happen next. The arguments are what the scheduler, the system calls, the user
and the children choose. -/
inductive Move where
  | prompt (getCommand : String → Outcome (Except Error Plan))
  | receive (terminal : Terminal)
  | interrupt (order : List ProcessId)
  | route (order : OrderedMap ProcessId Condition)
  | execute (os : Os)
  | write (child : Process) (stream : Stream) (data : Bytes)
  | consume (child : Process) (size : Nat)
  | exit (child : Process) (exitCode : Int)
  | report (exited : ProcessId × Int)
  | pour (writer : OutputPipe × Bytes) (size : Nat)
  | close (writer : OutputPipe × Bytes)
  | forward (reader : GenericPipe × InputPipe) (size : Nat)
  | eof (reader : GenericPipe × InputPipe)

namespace World

def new (info : RemoteInfo) : World :=
  ⟨info,Endpoint.new StackedRemotes.new,0,[],ExecInternal.new,0,[],[],[],[],fun _ => [],fun _ => [],[]⟩

def output (world : World) : List RemoteResponse :=
  .remoteReady world.info :: world.exec.effects.filterMap Effect.response?

/-- The loop reads a command, or leaves in single-command mode. -/
structure AtPrompt (world : World) : Prop where
  remote : world.frontend.handler.waitingForRemote = none
  processes : world.frontend.handler.waitingFor = ∅
  eofs : world.frontend.handler.waitingForEof = ∅

instance (world : World) : Decidable world.AtPrompt :=
  decidable_of_iff (world.frontend.handler.waitingForRemote = none ∧ world.frontend.handler.waitingFor = ∅ ∧
    world.frontend.handler.waitingForEof = ∅) ⟨fun h => ⟨h.1,h.2.1,h.2.2⟩,fun h => ⟨h.1,h.2,h.3⟩⟩

/-- A write end of the pipe is still open: the event loop keeps it, or a child or a writer
thread holds it. -/
def WriteOpen (world : World) (pipe : GenericPipe) : Prop :=
  (world.exec.openHandles.lookup pipe).bind Pair.write ≠ none ∨
  (∃ child ∈ world.children, child.stdout.handle.id? = some pipe ∨ child.stderr.handle.id? = some pipe) ∨
  ∃ writer ∈ world.writers, writer.1.handle.id? = some pipe

instance (world : World) (pipe : GenericPipe) : Decidable (world.WriteOpen pipe) :=
  inferInstanceAs (Decidable (_ ∨ _ ∨ _))

def addWritten (world : World) (pipe : GenericPipe) (data : Bytes) : World := { world with
  written := Function.update world.written pipe (world.written pipe ++ data)
  unsent := Function.update world.unsent pipe (world.unsent pipe ++ data) }

def dropUnsent (world : World) (pipe : GenericPipe) (size : Nat) : World :=
  { world with unsent := Function.update world.unsent pipe ((world.unsent pipe).drop size) }

/-- Data on a descriptor; what goes into a file is no concern of the pipes. -/
def put (world : World) (handle : OutputPipe) (data : Bytes) : World :=
  match handle.handle.id? with
  | some pipe => world.addWritten pipe data
  | none => world

/-- The threads and children that the effects of an event have started. -/
def begin (world : World) (effects : List Effect) : World := { world with
  children := world.children ++ effects.filterMap Effect.process?
  writers := world.writers ++ effects.filterMap Effect.writer?
  readers := world.readers ++ effects.filterMap Effect.reader? }

/-- A turn of the frontend's loop; the session goes on only after one that returns. The sends
of the frontend succeed, as one that fails ends the session. -/
def turn (world : World) (terminal : Terminal) (recv : Event) (getCommand : String → Outcome (Except Error Plan))
    (order : List ProcessId) : Outcome (Turn × World) := do
  let (result,frontend) ← Shell.turn ⟨terminal,fun _ => .ok (),.ok recv,getCommand,order⟩ world.frontend
  match result with
  | .ok turn => pure (turn,{ world with frontend })
  | .error _ => .error .unwrap

/-- `Request::route` in the backend, for the requests the loop of the shell sends to it; the
map of a command gets an iteration order of its own there. -/
def routeRequest (order : OrderedMap ProcessId Condition) : RemoteRequest → Outcome ExecEvent
  | .beginCommand blockFor process command => do
    Outcome.assert (order.entries.Perm blockFor.entries)
    pure (.enqueue process.id ⟨command,⟨process.stdin⟩,⟨process.stdout⟩,⟨process.stderr⟩⟩ order)
  | .cancelCommand id => pure (.cancelExec id)
  | .openOutputFile id path => pure (.openOutputFile ⟨id⟩ path)
  | .openInputFile id path => pure (.openInputFile ⟨id⟩ path)
  | .finishEdit id data => pure (.editComplete id data)
  | .pipe envelope => pure (.pipeMessage ⟨envelope.id⟩ envelope.msg)
  | _ => .error .explicit

/-- The state after a move. There is none for a move that cannot be made now, ends the
session or panics. -/
def next (world : World) : Move → Outcome World
  | .prompt getCommand => do
    Outcome.assert world.AtPrompt
    match ← world.turn .working .key getCommand [] with
    | (.begun line,world) => pure { world with lines := world.lines ++ [line] }
    | _ => .error .explicit
  | .receive terminal => do
    Outcome.assert (¬world.AtPrompt)
    let response ← Outcome.unwrap world.output[world.received]?
    let (_,world) ← world.turn terminal (.remote ⟨0,response⟩) (fun _ => .error .explicit) []
    pure { world with received := world.received + 1 }
  | .interrupt order => do
    Outcome.assert (¬world.AtPrompt ∧ order.Nodup ∧ order.toFinset = world.frontend.handler.waitingFor)
    let (_,world) ← world.turn .working .ctrlC (fun _ => .error .explicit) order
    pure world
  | .route order => do
    let request ← Outcome.unwrap world.frontend.sent[world.routed]?
    Outcome.assert (request.remoteId = 0)
    let event ← routeRequest order request.message
    pure { world with routed := world.routed + 1, events := world.events ++ [event] }
  | .execute os =>
    -- The event loop alone uses the executor's state, so an event is one step.
    match world.events with
    | [] => .error .explicit
    | event :: events => do
      let exec ← ExecInternal.handle os event world.exec
      pure ({ world with events, exec }.begin (exec.effects.drop world.exec.effects.length))
  | .write child stream data => do
    Outcome.assert (child ∈ world.children ∧ data ≠ [])
    match stream with
    | .stdout => pure (world.put child.stdout data)
    | .stderr => pure (world.put child.stderr data)
  | .consume child size => do
    Outcome.assert (child ∈ world.children)
    match child.stdin.handle.id? with
    | some pipe => pure (world.dropUnsent pipe size)
    | none => pure world
  | .exit child exitCode => do
    Outcome.assert (child ∈ world.children)
    pure { world with children := world.children.erase child, exited := world.exited ++ [(child.pid,exitCode)] }
  | .report exited => do
    Outcome.assert (exited ∈ world.exited)
    pure { world with
      exited := world.exited.erase exited
      events := world.events ++ [.completed exited.1 exited.2] }
  | .pour writer size => do
    Outcome.assert (writer ∈ world.writers ∧ 0 < size ∧ size ≤ writer.2.length)
    pure { world.put writer.1 (writer.2.take size) with
      writers := (writer.1,writer.2.drop size) :: world.writers.erase writer }
  | .close writer => do
    Outcome.assert (writer ∈ world.writers ∧ writer.2 = [])
    pure { world with writers := world.writers.erase writer }
  | .forward reader size => do
    let pipe ← Outcome.unwrap reader.2.handle.id?
    Outcome.assert (reader ∈ world.readers ∧ 0 < size ∧ size ≤ 1024 ∧ size ≤ (world.unsent pipe).length)
    pure { world.dropUnsent pipe size with
      events := world.events ++ [.pipeOutput reader.1 ((world.unsent pipe).take size) 0] }
  | .eof reader => do
    let pipe ← Outcome.unwrap reader.2.handle.id?
    Outcome.assert (reader ∈ world.readers ∧ world.unsent pipe = [] ∧ ¬world.WriteOpen pipe)
    pure { world with
      readers := world.readers.erase reader
      events := world.events ++ [.pipeClosed reader.1 0] }

def system (info : RemoteInfo) : System World Move := .ofPartial (new info) next

end World
end Nak
