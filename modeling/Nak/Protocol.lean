import Nak.Library.FiniteMap

/-! The data both ends of the protocol share. Identifiers are newtypes over the
counter that `Ids` hands out; request and response envelopes carry one message. -/
namespace Nak
open Library

inductive Command where
  | unknown (path : String) (args : List String)
  | setDirectory (dir : String)
  | getDirectory
  | edit (path : String)
  deriving DecidableEq, Repr

structure ProcessId where
  val : Nat
  deriving DecidableEq, Repr

inductive ExitStatus where
  | success
  | failure
  deriving DecidableEq, Repr

def ExitStatus.fromExitCode (code : Int) : ExitStatus :=
  if code = 0 then .success else .failure

/-- The status a dependency must end with; `none` accepts any. -/
abbrev Condition := Option ExitStatus

/-- The guard `Some(expected) if expected != status` of the source. -/
def Contradicted (cond : Condition) (status : ExitStatus) : Prop :=
  match cond with
  | some expected => expected ≠ status
  | none => False

instance (cond : Condition) (status : ExitStatus) : Decidable (Contradicted cond status) :=
  match cond with
  | some expected => inferInstanceAs (Decidable (expected ≠ status))
  | none => inferInstanceAs (Decidable False)

structure ReadPipe where
  val : Nat
  deriving DecidableEq, Repr

structure WritePipe where
  val : Nat
  deriving DecidableEq, Repr

structure GenericPipe where
  val : Nat
  deriving DecidableEq, Repr

def ReadPipe.toGeneric (pipe : ReadPipe) : GenericPipe := ⟨pipe.val⟩

def WritePipe.toGeneric (pipe : WritePipe) : GenericPipe := ⟨pipe.val⟩

def GenericPipe.toWrite (pipe : GenericPipe) : WritePipe := ⟨pipe.val⟩

def GenericPipe.toRead (pipe : GenericPipe) : ReadPipe := ⟨pipe.val⟩

structure WritePipes where
  stdin : ReadPipe
  stdout : WritePipe
  stderr : WritePipe
  deriving DecidableEq, Repr

def WritePipes.input (pipes : WritePipes) (pipe : GenericPipe) : Prop := pipe = pipes.stdin.toGeneric

def WritePipes.output (pipes : WritePipes) (pipe : GenericPipe) : Prop :=
  pipe = pipes.stdout.toGeneric ∨ pipe = pipes.stderr.toGeneric

structure AbstractProcess where
  id : ProcessId
  stdin : Nat
  stdout : Nat
  stderr : Nat
  deriving DecidableEq, Repr

abbrev Bytes := List UInt8

def bytes (text : String) : Bytes := text.toUTF8.data.toList

inductive ErrorKind where
  | notFound
  | other
  deriving DecidableEq, Repr

/-- An error with the text that `{:?}` prints of it. -/
structure Error where
  kind : ErrorKind
  debug : String
  deriving DecidableEq, Repr

inductive PipeMessage where
  | beginRead
  | data (data : Bytes) (endOffset : Nat)
  | read (readUpTo : Nat)
  | closed (endOffset : Nat)
  deriving DecidableEq, Repr

structure PipeEnvelope where
  id : Nat
  msg : PipeMessage
  deriving DecidableEq, Repr

structure RemoteId where
  val : Nat
  deriving DecidableEq, Repr

structure Ids where
  nextId : Nat
  deriving DecidableEq, Repr

def Ids.new : Ids := ⟨0⟩

def Ids.next (ids : Ids) : Nat × Ids := (ids.nextId,⟨ids.nextId + 1⟩)

structure RemoteInfo where
  hostname : String
  username : String
  workingDir : String
  deriving DecidableEq, Repr

inductive RemoteRequest where
  | beginCommand (blockFor : OrderedMap ProcessId Condition) (process : AbstractProcess) (command : Command)
  | cancelCommand (id : ProcessId)
  | beginRemote (id : Nat) (command : Command)
  | openOutputFile (id : Nat) (path : String)
  | openInputFile (id : Nat) (path : String)
  | endRemote (id : Nat)
  | listDirectory (id : Nat) (path : String)
  | finishEdit (id : Nat) (data : Bytes)
  | pipe (envelope : PipeEnvelope)

inductive RemoteResponse where
  | remoteReady (info : RemoteInfo)
  | commandDone (id : ProcessId) (exitCode : Int)
  | directoryListing (id : Nat) (items : List String)
  | editRequest (commandId : ProcessId) (editId : Nat) (name : String) (data : Bytes)
  | pipe (envelope : PipeEnvelope)
  deriving DecidableEq, Repr

structure Request where
  remoteId : Nat
  message : RemoteRequest

structure Response where
  remoteId : Nat
  message : RemoteResponse
  deriving DecidableEq, Repr

end Nak
