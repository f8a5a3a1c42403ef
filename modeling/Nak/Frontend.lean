import Mathlib.Data.List.DropRight
import Nak.Endpoint

/-! The frontend's handler: the stack of remotes, what the loop of the shell waits for, and
which pipes are gathered or shown. `shown` lists what the terminal was given. -/
namespace Nak
open Library Action

inductive Stream where
  | stdout
  | stderr
  deriving DecidableEq, Repr

/-- Data on one of the frontend's own streams, with the pipe it came from. -/
structure Shown where
  stream : Stream
  source : Option GenericPipe
  data : Bytes
  deriving DecidableEq, Repr

structure StackedRemotes where
  remotes : List (RemoteId × RemoteInfo)
  waitingFor : Finset ProcessId
  waitingForEof : Finset GenericPipe
  waitingForRemote : Option RemoteId
  gatheringOutput : FiniteMap GenericPipe Bytes
  finishedOutput : FiniteMap GenericPipe Bytes
  cwdForRemote : OrderedMap RemoteId GenericPipe
  stdoutPipes : Finset GenericPipe
  stderrPipes : Finset GenericPipe
  shown : List Shown

/-- What the system calls made while one response is handled answer, and the editor. -/
structure Terminal where
  writeAll : Except Error Unit
  /-- How much of its argument a single `write` takes. -/
  write : Except Error Nat
  tempdir : Except Error String
  create : String → Except Error Unit
  writeFile : String → Bytes → Except Error Unit
  /-- Whether the editor exits successfully, on a file with that contents. -/
  status : String → Bytes → Except Error Bool
  openFile : String → Except Error Unit
  /-- What the editor has left of the contents. -/
  readToEnd : String → Bytes → Except Error Bytes

def Terminal.working : Terminal where
  writeAll := .ok ()
  write := .ok 0
  tempdir := .ok "/tmp/.tmp"
  create _ := .ok ()
  writeFile _ _ := .ok ()
  status _ _ := .ok true
  openFile _ := .ok ()
  readToEnd _ data := .ok data

/-- The part of a path behind the last slash. -/
def fileName (path : String) : String := .ofList (path.toList.rtakeWhile (· ≠ '/'))

/-- `Path::join` with a path that does not begin with a slash. -/
def join (dir path : String) : String :=
  if dir.toList.getLast? ∈ [none,some '/'] then dir ++ path else dir ++ "/" ++ path

example : join "/tmp/.tmp" (fileName "src/main.rs") = "/tmp/.tmp/main.rs" := by decide

/-- Opens the editor on a copy of the file in a new directory. -/
def Terminal.edit {σ : Type} (terminal : Terminal) (name : String) (data : Bytes) : Action Error σ Bytes := do
  let dir ← .propagate terminal.tempdir
  let path := join dir (fileName name)
  .propagate (terminal.create path)
  .propagate (terminal.writeFile path data)
  let success ← .propagate (terminal.status path data)
  .lift (Outcome.assert success)
  .propagate (terminal.openFile path)
  .propagate (terminal.readToEnd path data)

/-- What editing a file comes to. -/
def Terminal.answer (terminal : Terminal) (name : String) (data : Bytes) : Outcome (Except Error Bytes) :=
  (terminal.edit name data ()).map Prod.fst

section Stateless
variable {σ α β : Type} {state : σ} {alone : β → Action Error Unit α} {cont : β → Action Error σ α}
  (same : ∀ value, cont value state = (alone value ()).map fun done => (done.1,state))
include same

private theorem propagate_stateless (result : Except Error β) :
    (Action.propagate result >>= cont) state = ((Action.propagate result >>= alone) ()).map fun done =>
    (done.1,state) := by
  cases result with
  | error => rfl
  | ok value => exact same value

private theorem lift_stateless (outcome : Outcome β) :
    (Action.lift outcome >>= cont) state = ((Action.lift outcome >>= alone) ()).map fun done => (done.1,state) := by
  cases outcome with
  | error => rfl
  | ok value => exact same value

end Stateless

theorem Terminal.edit_eq {σ : Type} (terminal : Terminal) (name : String) (data : Bytes) (state : σ) :
    terminal.edit name data state = (terminal.answer name data).map fun result => (result,state) := by
  have same : terminal.edit name data state = (terminal.edit name data ()).map fun done => (done.1,state) := by
    refine propagate_stateless (fun dir => ?_) _
    refine propagate_stateless (fun _ => ?_) _
    refine propagate_stateless (fun _ => ?_) _
    refine propagate_stateless (fun success => ?_) _
    refine lift_stateless (fun _ => ?_) _
    exact propagate_stateless (fun _ => rfl) _
  rw [same,answer]
  cases terminal.edit name data () with
  | error => rfl
  | ok => rfl

theorem Terminal.edit_ok {σ : Type} {terminal : Terminal} {name : String} {data : Bytes} {state final : σ}
    {result : Except Error Bytes} : terminal.edit name data state = .ok (result,final) ↔
      terminal.answer name data = .ok result ∧ final = state := by
  rw [edit_eq]
  cases terminal.answer name data with
  | error => simp [Except.map]
  | ok => simp [Except.map,eq_comm]

abbrev Shell (α : Type) := Action Error (Endpoint StackedRemotes) α

namespace StackedRemotes

def new : StackedRemotes := ⟨[],∅,∅,some Endpoint.root,∅,∅,∅,∅,∅,[]⟩

def update (change : StackedRemotes → StackedRemotes) : Shell Unit :=
  .modify fun endpoint => { endpoint with handler := change endpoint.handler }

def print (stream : Stream) (source : Option GenericPipe) (data : Bytes) : Shell Unit :=
  update fun handler => { handler with shown := handler.shown ++ [⟨stream,source,data⟩] }

def remoteReady (id : RemoteId) (remoteInfo : RemoteInfo) : Shell Unit := do
  let endpoint ← .get
  let waiting ← .lift (Outcome.expect "no remote waiting" endpoint.handler.waitingForRemote)
  .lift (Outcome.assert (waiting = id))
  update fun handler =>
    { handler with waitingForRemote := none, remotes := handler.remotes ++ [(id,remoteInfo)] }

def commandDone (id : ProcessId) (_exitCode : Int) : Shell Unit := do
  let endpoint ← .get
  .lift (Outcome.assert (id ∈ endpoint.handler.waitingFor))
  update fun handler => { handler with waitingFor := handler.waitingFor.erase id }

def directoryListing (_id : Nat) (_items : List String) : Shell Unit := .panic .explicit

section Calls
variable (terminal : Terminal)

def pipe (id : GenericPipe) : PipeMessage → Shell Unit
  | .data data _ => do
    let endpoint ← .get
    match endpoint.handler.gatheringOutput.lookup id with
    | some out => update fun handler =>
        { handler with gatheringOutput := handler.gatheringOutput.insert id (out ++ data) }
    | none =>
      if id ∈ endpoint.handler.stdoutPipes then
        .propagate terminal.writeAll
        print .stdout (some id) data
      else if id ∈ endpoint.handler.stderrPipes then
        .propagate terminal.writeAll
        print .stderr (some id) data
      else .panic (.expect "bad pipe")
  | .closed _ => do
    update fun handler => { handler with waitingForEof := handler.waitingForEof.erase id }
    let endpoint ← .get
    match endpoint.handler.gatheringOutput.lookup id with
    | some output => update fun handler => { handler with
        gatheringOutput := handler.gatheringOutput.erase id
        finishedOutput := handler.finishedOutput.insert id output }
    | none => pure ()
  | _ => .panic .explicit

/-- `println!`, which panics when the line cannot be written. -/
def println (text : String) : Shell Unit := do
  .lift (Outcome.expect "failed printing to stdout" terminal.writeAll.toOption)
  print .stdout none (bytes (text ++ "\n"))

theorem println_ok {terminal : Terminal} {text : String} {endpoint next : Endpoint StackedRemotes}
    {result : Except Error Unit} : println terminal text endpoint = .ok (result,next) ↔
      terminal.writeAll = .ok () ∧ print .stdout none (bytes (text ++ "\n")) endpoint = .ok (result,next) := by
  unfold println
  cases written : terminal.writeAll with
  | error =>
    rw [lift_panics (by rfl)]
    simp
  | ok =>
    rw [lift_continues (by rfl)]
    exact (and_iff_right rfl).symm

variable (trans : Transport Error)

def editRequest (editId : Nat) (commandId : ProcessId) (name : String) (data : Bytes) : Shell Unit := do
  println terminal ("editing " ++ name)
  let taken ← .propagate terminal.write
  print .stdout none (data.take taken)
  let newData ← terminal.edit name data
  Endpoint.finishEdit trans commandId editId newData

def handler : EndpointHandler Error StackedRemotes where
  remoteReady := remoteReady
  commandDone := commandDone
  directoryListing := directoryListing
  editRequest := editRequest terminal trans
  pipe := pipe terminal

end Calls
end StackedRemotes
end Nak
