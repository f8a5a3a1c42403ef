import Nak.Machine
import Nak.Library.Action

/-! The command executor of a backend. The thread of `run_handler` handles one event at a
time; the answers of the system calls made meanwhile are an argument, and what the event
loop asks of the operating system, of its threads and of the frontend is kept in order. -/
namespace Nak
open Library

structure RunCmd where
  cmd : Command
  pipes : WritePipes
  deriving DecidableEq

structure Child where
  val : Nat
  deriving DecidableEq, Repr

inductive ProcessState where
  | running (handle : Child)
  | awaitingEdit
  deriving DecidableEq

inductive RunResult where
  | process (state : ProcessState)
  | alreadyDone (exitCode : Int)

/-- What a descriptor is open on: a pipe the backend made for an id, or a file. -/
inductive Handle where
  | pipe (number : Nat) (id : GenericPipe)
  | file (number : Nat) (path : String)
  deriving DecidableEq, Repr

def Handle.id? : Handle → Option GenericPipe
  | .pipe _ id => some id
  | .file _ _ => none

structure OutputPipe where
  handle : Handle
  deriving DecidableEq, Repr

structure InputPipe where
  handle : Handle
  deriving DecidableEq, Repr

def OutputPipe.fromPipe (number : Nat) (id : GenericPipe) : OutputPipe := ⟨.pipe number id⟩

def OutputPipe.fromFile (number : Nat) (path : String) : OutputPipe := ⟨.file number path⟩

def InputPipe.fromPipe (number : Nat) (id : GenericPipe) : InputPipe := ⟨.pipe number id⟩

def InputPipe.fromFile (number : Nat) (path : String) : InputPipe := ⟨.file number path⟩

inductive ExecEvent where
  | enqueue (pid : ProcessId) (cmd : RunCmd) (blockFor : OrderedMap ProcessId Condition)
  | completed (pid : ProcessId) (exitCode : Int)
  | openOutputFile (pipe : WritePipe) (path : String)
  | openInputFile (pipe : ReadPipe) (path : String)
  | cancelExec (pid : ProcessId)
  | pipeClosed (pipe : GenericPipe) (endOffset : Nat)
  | pipeOutput (pipe : GenericPipe) (data : Bytes) (endOffset : Nat)
  | pipeMessage (pipe : GenericPipe) (msg : PipeMessage)
  | editComplete (editId : Nat) (data : Bytes)

structure Pair where
  read : Option InputPipe
  write : Option OutputPipe
  deriving DecidableEq, Repr

/-- What the system calls made during one event answer. Those of `run` are told apart by
their pid, pipes by the id they are made for; of the others an event makes at most one. -/
structure Os where
  allocPipe : GenericPipe → Except Error Unit
  spawn : ProcessId → Except Error Child
  setCurrentDir : ProcessId → Except Error Unit
  currentDir : ProcessId → Except Error String
  openFile : ProcessId → Except Error Unit
  readToEnd : ProcessId → Except Error Bytes
  openInput : Except Error Unit
  create : Except Error Unit
  writeAll : Except Error Unit
  lock : Except Error Unit
  kill : Except Error Unit
  send : RemoteResponse → Except Error Unit

def Os.working : Os where
  allocPipe _ := .ok ()
  spawn pid := .ok ⟨pid.val⟩
  setCurrentDir _ := .ok ()
  currentDir _ := .ok "/"
  openFile _ := .ok ()
  readToEnd _ := .ok []
  openInput := .ok ()
  create := .ok ()
  writeAll := .ok ()
  lock := .ok ()
  kill := .ok ()
  send _ := .ok ()

/-- What the event loop has caused, in order. -/
inductive Effect where
  | running (pid : ProcessId) (cmd : Command)
  /-- A child with its three descriptors, and a thread that waits for it to exit. -/
  | spawned (pid : ProcessId) (child : Child) (path : String) (args : List String) (stdin : InputPipe)
      (stdout stderr : OutputPipe)
  | currentDirSet (dir : String)
  /-- A thread that writes the data and then closes the descriptor. -/
  | writer (pipe : WritePipe) (handle : OutputPipe) (data : Bytes)
  | dropped (pipe : WritePipe) (handle : OutputPipe)
  /-- A thread that forwards what it reads until the end of file. -/
  | reader (pipe : GenericPipe) (handle : InputPipe)
  | killed (child : Child)
  | written (path : String) (data : Bytes)
  | sent (response : RemoteResponse)
  deriving DecidableEq

/-- `opened` numbers the descriptors; `effects` stands for the handler and the threads. -/
structure ExecInternal where
  editIds : Ids
  machine : Machine ProcessId RunCmd ProcessState
  openHandles : FiniteMap GenericPipe Pair
  activelyReading : Finset GenericPipe
  waitingEdits : FiniteMap Nat (ProcessId × String)
  opened : Nat
  effects : List Effect

abbrev Exec (α : Type) := Action Error ExecInternal α

/-- Every round of tasks that releases others takes a pid out of these collections. -/
def Machine.unstarted {Id Cmd State : Type} [DecidableEq Id] (machine : Machine Id Cmd State) : Nat :=
  machine.toRun.card + FiniteMap.len machine.waitingOn

namespace ExecInternal

def new : ExecInternal := ⟨Ids.new,Machine.new,∅,∅,∅,0,[]⟩

def cause (effect : Effect) : Exec Unit :=
  .modify fun exec => { exec with effects := exec.effects ++ [effect] }

def onMachine (call : Machine ProcessId RunCmd ProcessState →
    Outcome (List (Task ProcessId RunCmd) × Machine ProcessId RunCmd ProcessState)) :
    Exec (List (Task ProcessId RunCmd)) := do
  let exec ← .get
  let (tasks,machine) ← .lift (call exec.machine)
  .modify fun exec => { exec with machine }
  pure tasks

def nextHandle : Exec Nat := do
  let exec ← .get
  .modify fun exec => { exec with opened := exec.opened + 1 }
  pure exec.opened

section Calls
variable (os : Os)

def send (response : RemoteResponse) : Exec Unit := do
  .propagate (os.send response)
  cause (.sent response)

def pipeOutput (pipe : GenericPipe) (data : Bytes) (endOffset : Nat) : Exec Unit :=
  send os (.pipe ⟨pipe.toWrite.val,.data data endOffset⟩)

def pipeClosed (pipe : GenericPipe) (endOffset : Nat) : Exec Unit :=
  send os (.pipe ⟨pipe.toWrite.val,.closed endOffset⟩)

def commandResult (pid : ProcessId) (exitCode : Int) : Exec Unit :=
  send os (.commandDone pid exitCode)

def editRequest (pid : ProcessId) (editId : Nat) (name : String) (data : Bytes) : Exec Unit :=
  send os (.editRequest pid editId name data)

/-- The number both ends of a new pipe are known by. -/
def allocPipe (pipe : GenericPipe) : Exec Nat :=
  match os.allocPipe pipe with
  | .ok () => nextHandle
  | .error _ => .panic (.expect "alloc pipe failed")

def readEnd (pipe : ReadPipe) : Exec InputPipe := do
  let exec ← .get
  if pipe.toGeneric ∈ exec.openHandles then
    let handle ← .lift (Outcome.expect "already checked!?!?!" (exec.openHandles.lookup pipe.toGeneric))
    let taken ← .lift (Outcome.expect "read side taken" handle.read)
    .modify fun exec =>
      { exec with openHandles := exec.openHandles.insert pipe.toGeneric { handle with read := none } }
    pure taken
  else
    let number ← allocPipe os pipe.toGeneric
    .modify fun exec => { exec with
      openHandles := exec.openHandles.insert pipe.toGeneric ⟨none,some (.fromPipe number pipe.toGeneric)⟩ }
    pure (.fromPipe number pipe.toGeneric)

def writeEnd (pipe : WritePipe) : Exec OutputPipe := do
  let exec ← .get
  if pipe.toGeneric ∈ exec.openHandles then
    let handle ← .lift (Outcome.expect "already checked!?!?!" (exec.openHandles.lookup pipe.toGeneric))
    let taken ← .lift (Outcome.expect "write side taken" handle.write)
    .modify fun exec =>
      { exec with openHandles := exec.openHandles.insert pipe.toGeneric { handle with write := none } }
    pure taken
  else
    let number ← allocPipe os pipe.toGeneric
    .modify fun exec => { exec with
      openHandles := exec.openHandles.insert pipe.toGeneric ⟨some (.fromPipe number pipe.toGeneric),none⟩ }
    pure (.fromPipe number pipe.toGeneric)

def pipeAndClose (pipe : WritePipe) (handle : OutputPipe) (data : Bytes) : Exec Unit :=
  if data.length > 0 then cause (.writer pipe handle data) else cause (.dropped pipe handle)

def pipeOutputAndClose (pipes : WritePipes) (stdout stderr : Bytes) : Exec Unit := do
  pipeAndClose pipes.stdout (← writeEnd os pipes.stdout) stdout
  pipeAndClose pipes.stderr (← writeEnd os pipes.stderr) stderr

def beginEditRequest (pid : ProcessId) (path : String) (data : Bytes) : Exec Unit := do
  let exec ← .get
  let (editId,editIds) := exec.editIds.next
  .modify fun exec =>
    { exec with editIds, waitingEdits := exec.waitingEdits.insert editId (pid,path) }
  editRequest os pid editId path data

/-- The file as it is before the edit; one that does not exist yet is empty. -/
def readContents (pid : ProcessId) : Exec Bytes :=
  match os.openFile pid with
  | .ok () => .propagate (os.readToEnd pid)
  | .error e => if e.kind ≠ .notFound then .raise e else pure []

def run (pid : ProcessId) (c : RunCmd) : Exec RunResult := do
  cause (.running pid c.cmd)
  match c.cmd with
  | .unknown path args =>
    let stdin ← readEnd os c.pipes.stdin
    let stdout ← writeEnd os c.pipes.stdout
    let stderr ← writeEnd os c.pipes.stderr
    let handle ← .propagate (os.spawn pid)
    cause (.spawned pid handle path args stdin stdout stderr)
    pure (.process (.running handle))
  | .setDirectory dir =>
    match os.setCurrentDir pid with
    | .ok () =>
      cause (.currentDirSet dir)
      pipeOutputAndClose os c.pipes (bytes "Success: ()") []
      pure (.alreadyDone 0)
    | .error e =>
      pipeOutputAndClose os c.pipes (bytes ("Error: " ++ e.debug)) []
      pure (.alreadyDone 1)
  | .getDirectory =>
    match os.currentDir pid with
    | .ok dir =>
      pipeOutputAndClose os c.pipes (bytes (dir ++ "\n")) []
      pure (.alreadyDone 0)
    | .error e =>
      pipeOutputAndClose os c.pipes [] (bytes ("Error: " ++ e.debug))
      pure (.alreadyDone 1)
  | .edit path =>
    let contents ← readContents os pid
    beginEditRequest os pid path contents
    pure (.process .awaitingEdit)

/-- The body of the inner loop of `process_tasks`; the new tasks are its answer. -/
def processTask : Task ProcessId RunCmd → Exec (List (Task ProcessId RunCmd))
  | .start pid cmd => do
    let pipes := cmd.pipes
    match ← (run os pid cmd).result with
    | .ok (.process state) =>
      onMachine fun machine => do pure ([],← machine.start pid state)
    | .ok (.alreadyDone exitCode) =>
      let newTasks ← onMachine fun machine => machine.startCompleted pid (.fromExitCode exitCode)
      (commandResult os pid 0).unwrap
      pure newTasks
    | .error e =>
      let newTasks ← onMachine fun machine => machine.startCompleted pid .failure
      pipeOutputAndClose os pipes [] (bytes e.debug)
      commandResult os pid 1
      pure newTasks
  | .conditionFailed pid _ => do
    (commandResult os pid 1).unwrap
    pure []

def processRound : List (Task ProcessId RunCmd) → Exec (List (Task ProcessId RunCmd))
  | [] => pure []
  | t :: tasks => do
    let newTasks ← processTask os t
    let more ← processRound tasks
    pure (newTasks ++ more)

/-- The loop of `process_tasks`, at most `fuel` times. -/
def processTasksWith : Nat → List (Task ProcessId RunCmd) → Exec Unit
  | 0, _ => .panic .exhausted
  | fuel + 1, tasks => do
    let newTasks ← processRound os tasks
    if newTasks.length = 0 then pure () else processTasksWith fuel newTasks

def processTasks (tasks : List (Task ProcessId RunCmd)) : Exec Unit := do
  let exec ← .get
  processTasksWith os (exec.machine.unstarted + 1) tasks

def enqueue (pid : ProcessId) (cmd : RunCmd) (blockFor : OrderedMap ProcessId Condition) : Exec Unit := do
  let tasks ← onMachine fun machine => machine.enqueue pid cmd blockFor
  processTasks os tasks

def completed (pid : ProcessId) (exitCode : Int) : Exec Unit := do
  (commandResult os pid exitCode).unwrap
  let tasks ← onMachine fun machine => machine.completed pid (.fromExitCode exitCode)
  processTasks os tasks

def openOutputFile (pipe : WritePipe) (path : String) : Exec Unit := do
  let exec ← .get
  .lift (Outcome.assert (pipe.toGeneric ∉ exec.openHandles))
  .propagate os.create
  let number ← nextHandle
  .modify fun exec =>
    { exec with openHandles := exec.openHandles.insert pipe.toGeneric ⟨none,some (.fromFile number path)⟩ }

def openInputFile (pipe : ReadPipe) (path : String) : Exec Unit := do
  let exec ← .get
  .lift (Outcome.assert (pipe.toGeneric ∉ exec.openHandles))
  .propagate os.openInput
  let number ← nextHandle
  .modify fun exec =>
    { exec with openHandles := exec.openHandles.insert pipe.toGeneric ⟨some (.fromFile number path),none⟩ }

def pipeMessage (pipe : GenericPipe) : PipeMessage → Exec Unit
  | .beginRead => do
    let handle ← readEnd os pipe.toRead
    cause (.reader pipe handle)
    .modify fun exec => { exec with activelyReading := insert pipe exec.activelyReading }
  | .read _ => pure ()
  | .closed _ => .panic .explicit
  | .data _ _ => .panic .explicit

def cancel (pid : ProcessId) : Exec Unit := do
  let exec ← .get
  match ← .lift (exec.machine.status pid) with
  | .running (.running handle) =>
    (Action.propagate os.lock).unwrap
    .propagate os.kill
    cause (.killed handle)
  | .running .awaitingEdit => .panic .explicit
  | .exited _ => pure ()

def finishEdit (editId : Nat) (data : Bytes) : Exec Unit := do
  let exec ← .get
  let (pid,path) ← .lift (Outcome.unwrap (exec.waitingEdits.lookup editId))
  .modify fun exec => { exec with waitingEdits := exec.waitingEdits.erase editId }
  .propagate os.create
  (Action.propagate os.writeAll).unwrap
  cause (.written path data)
  completed os pid 0

def handleEvent : ExecEvent → Exec Unit
  | .enqueue pid cmd blockFor => enqueue os pid cmd blockFor
  | .completed pid exitCode => completed os pid exitCode
  | .openOutputFile pipe path => openOutputFile os pipe path
  | .openInputFile pipe path => openInputFile os pipe path
  | .cancelExec pid => cancel os pid
  | .pipeClosed pipe endOffset => pipeClosed os pipe endOffset
  | .pipeOutput pipe data endOffset => pipeOutput os pipe data endOffset
  | .pipeMessage pipe msg => pipeMessage os pipe msg
  | .editComplete editId data => finishEdit os editId data

end Calls

/-- One turn of the loop of `run_handler`, which unwraps every result. -/
def handle (os : Os) (event : ExecEvent) (exec : ExecInternal) : Outcome ExecInternal := do
  let (_,next) ← (handleEvent os event).unwrap exec
  pure next

def system : System ExecInternal (Os × ExecEvent) :=
  .ofPartial new fun exec label => handle label.1 label.2 exec

end ExecInternal
end Nak
