import Nak.Endpoint
import Nak.Library.Utf8
import Nak.References
import Nak.Transports
import Nak.World

/-! Both ends of the protocol together: what one end asks for is what the other end calls.
Typed pipes become numbers in between, and the arguments change places. A transport of the
backend answers each message; `sent` lists the messages it took. -/
namespace Nak
open Library Action

structure WriteProcess where
  id : ProcessId
  pipes : WritePipes
  deriving DecidableEq, Repr

structure BackendHandler (ε σ : Type) where
  beginCommand : OrderedMap ProcessId Condition → WriteProcess → Command → Action ε σ Unit
  cancelCommand : ProcessId → Action ε σ Unit
  beginRemote : Nat → Command → Action ε σ Unit
  openOutputFile : WritePipe → String → Action ε σ Unit
  openInputFile : ReadPipe → String → Action ε σ Unit
  endRemote : Nat → Action ε σ Unit
  listDirectory : Nat → String → Action ε σ Unit
  finishEdit : Nat → Bytes → Action ε σ Unit
  pipe : GenericPipe → PipeMessage → Action ε σ Unit

def Request.route {ε σ : Type} (handler : BackendHandler ε σ) (request : Request) : Action ε σ Unit :=
  match request.message with
  | .beginCommand blockFor process command =>
    let process : WriteProcess := ⟨process.id,⟨process.stdin⟩,⟨process.stdout⟩,⟨process.stderr⟩⟩
    handler.beginCommand blockFor process command
  | .cancelCommand id => handler.cancelCommand id
  | .beginRemote id command => handler.beginRemote id command
  | .openOutputFile id path => handler.openOutputFile ⟨id⟩ path
  | .openInputFile id path => handler.openInputFile ⟨id⟩ path
  | .endRemote id => handler.endRemote id
  | .listDirectory id path => handler.listDirectory id path
  | .finishEdit id data => handler.finishEdit id data
  | .pipe pipe => handler.pipe ⟨pipe.id⟩ pipe.msg

structure Backend where
  sent : List Response

namespace Backend
variable {ε : Type} (trans : Response → Except ε Unit)

def new : Backend := ⟨[]⟩

def send (remote : RemoteId) (message : RemoteResponse) : Action ε Backend Unit := do
  .propagate (trans ⟨remote.val,message⟩)
  .modify fun backend => { backend with sent := backend.sent ++ [⟨remote.val,message⟩] }

def remoteReady (info : RemoteInfo) : Action ε Backend Unit := send trans ⟨0⟩ (.remoteReady info)

def pipeData (id : WritePipe) (data : Bytes) (endOffset : Nat) : Action ε Backend Unit :=
  send trans ⟨0⟩ (.pipe ⟨id.val,.data data endOffset⟩)

def pipeClosed (id : WritePipe) (endOffset : Nat) : Action ε Backend Unit :=
  send trans ⟨0⟩ (.pipe ⟨id.val,.closed endOffset⟩)

def commandDone (id : ProcessId) (exitCode : Int) : Action ε Backend Unit :=
  send trans ⟨0⟩ (.commandDone id exitCode)

def directoryListing (id : Nat) (items : List String) : Action ε Backend Unit :=
  send trans ⟨0⟩ (.directoryListing id items)

def editRequest (commandId : ProcessId) (editId : Nat) (name : String) (data : Bytes) : Action ε Backend Unit :=
  send trans ⟨0⟩ (.editRequest commandId editId name data)

end Backend

/-- A call of the backend's handler, with its arguments. -/
inductive BackendCall where
  | beginCommand (blockFor : OrderedMap ProcessId Condition) (process : WriteProcess) (command : Command)
  | cancelCommand (id : ProcessId)
  | beginRemote (id : Nat) (command : Command)
  | openOutputFile (id : WritePipe) (path : String)
  | openInputFile (id : ReadPipe) (path : String)
  | endRemote (id : Nat)
  | listDirectory (id : Nat) (path : String)
  | finishEdit (id : Nat) (data : Bytes)
  | pipe (id : GenericPipe) (msg : PipeMessage)

def BackendCall.run {ε σ : Type} (handler : BackendHandler ε σ) : BackendCall → Action ε σ Unit
  | .beginCommand blockFor process command => handler.beginCommand blockFor process command
  | .cancelCommand id => handler.cancelCommand id
  | .beginRemote id command => handler.beginRemote id command
  | .openOutputFile id path => handler.openOutputFile id path
  | .openInputFile id path => handler.openInputFile id path
  | .endRemote id => handler.endRemote id
  | .listDirectory id path => handler.listDirectory id path
  | .finishEdit id data => handler.finishEdit id data
  | .pipe id msg => handler.pipe id msg

/-- The same call: `blockFor` is a map, in whatever order it is iterated. -/
inductive BackendCall.Same : BackendCall → BackendCall → Prop
  | beginCommand {blockFor other : OrderedMap ProcessId Condition} (perm : blockFor.entries.Perm other.entries)
      (process : WriteProcess) (command : Command) :
      Same (.beginCommand blockFor process command) (.beginCommand other process command)
  | refl (call : BackendCall) : Same call call

/-- A call of the frontend's handler, with its arguments. -/
inductive EndpointCall where
  | remoteReady (id : RemoteId) (info : RemoteInfo)
  | commandDone (id : ProcessId) (exitCode : Int)
  | directoryListing (id : Nat) (items : List String)
  | editRequest (editId : Nat) (commandId : ProcessId) (name : String) (data : Bytes)
  | pipe (id : GenericPipe) (msg : PipeMessage)
  deriving DecidableEq, Repr

def EndpointCall.run {ε H : Type} (handler : EndpointHandler ε H) : EndpointCall → Action ε (Endpoint H) Unit
  | .remoteReady id info => handler.remoteReady id info
  | .commandDone id exitCode => handler.commandDone id exitCode
  | .directoryListing id items => handler.directoryListing id items
  | .editRequest editId commandId name data => handler.editRequest editId commandId name data
  | .pipe id msg => handler.pipe id msg

def callAll {ε σ α : Type} (run : α → Action ε σ Unit) : List α → Action ε σ Unit
  | [] => pure ()
  | call :: calls => do
    run call
    callAll run calls

/-- What an edit request hands back: the editor's copy of the file. -/
def edited (terminal : Terminal) (name : String) (data : Bytes) : Option Bytes :=
  match terminal.answer name data with
  | .ok (.ok newData) => some newData
  | _ => none

/-- What a performed operation asks the backend for; making a pipe asks for nothing, and of the
responses only an edit request is answered. -/
def asks : Performed → Option BackendCall
  | (.remote _ command,.ok (.remote id)) => some (.beginRemote id.val command)
  | (.command _ command blockFor pipes,.ok (.process id)) => some (.beginCommand blockFor ⟨id,pipes⟩ command)
  | (.openOutputFile _ path,.ok (.output pipe)) => some (.openOutputFile pipe path)
  | (.openInputFile _ path,.ok (.input pipe)) => some (.openInputFile pipe path)
  | (.closeRemote remote,.ok _) => some (.endRemote remote.val)
  | (.closeProcess id,.ok _) => some (.cancelCommand id)
  | (.finishEdit _ editId data,.ok _) => some (.finishEdit editId data)
  | (.pipeRead _ id readUpTo,.ok _) => some (.pipe id.toGeneric (.read readUpTo))
  | (.pipeBeginRead _ id,.ok _) => some (.pipe id.toGeneric .beginRead)
  | (.receive terminal ⟨_,.editRequest _ editId name data⟩,.ok _) =>
    (edited terminal name data).map (.finishEdit editId)
  | _ => none

inductive BackendOperation where
  | remoteReady (info : RemoteInfo)
  | pipeData (id : WritePipe) (data : Bytes) (endOffset : Nat)
  | pipeClosed (id : WritePipe) (endOffset : Nat)
  | commandDone (id : ProcessId) (exitCode : Int)
  | directoryListing (id : Nat) (items : List String)
  | editRequest (commandId : ProcessId) (editId : Nat) (name : String) (data : Bytes)
  deriving DecidableEq, Repr

def BackendOperation.perform {ε : Type} (trans : Response → Except ε Unit) : BackendOperation → Action ε Backend Unit
  | .remoteReady info => Backend.remoteReady trans info
  | .pipeData id data endOffset => Backend.pipeData trans id data endOffset
  | .pipeClosed id endOffset => Backend.pipeClosed trans id endOffset
  | .commandDone id exitCode => Backend.commandDone trans id exitCode
  | .directoryListing id items => Backend.directoryListing trans id items
  | .editRequest commandId editId name data => Backend.editRequest trans commandId editId name data

/-- What an operation of the backend tells the frontend. -/
def BackendOperation.tells : BackendOperation → EndpointCall
  | .remoteReady info => .remoteReady Endpoint.root info
  | .pipeData id data endOffset => .pipe id.toGeneric (.data data endOffset)
  | .pipeClosed id endOffset => .pipe id.toGeneric (.closed endOffset)
  | .commandDone id exitCode => .commandDone id exitCode
  | .directoryListing id items => .directoryListing id items
  | .editRequest commandId editId name data => .editRequest editId commandId name data

section Lines
variable {α ε σ H : Type}

/-- A line as it is read, and decoded by `serde_json::from_str`; its newline is blank. -/
def decode (fromStr : String → Except Error α) (line : Bytes) : Except Error α :=
  match String.fromUTF8? ⟨line.toArray⟩ with
  | some text => fromStr text
  | none => .error ⟨.other,"stream did not contain valid UTF-8"⟩

/-- `from_str` reads what `to_string` has made of the value; what it reads is the same. -/
def Decodes (json : Serializer α) (fromStr : String → Except Error α) (same : α → α → Prop) (value : α) : Prop :=
  ∃ decoded, fromStr (json.toString value ++ newlineText) = .ok decoded ∧ same value decoded

def handleLines (fromStr : String → Except Error α) (handle : α → Action Error σ Unit) :
    List Bytes → Action Error σ Unit
  | [] => pure ()
  | line :: lines => do
    let message ← .propagate (decode fromStr line)
    handle message
    handleLines fromStr handle lines

def requestStream (json : Serializer Request) (sent : List Request) : Bytes :=
  (sent.map fun request => serToEndpoint json ⟨request.remoteId⟩ request.message).flatten

def responseStream (json : Serializer Response) (sent : List Response) : Bytes :=
  (sent.map fun response => serToFrontend json ⟨response.remoteId⟩ response.message).flatten

theorem fromUTF8_bytes (text : String) : String.fromUTF8? ⟨(bytes text).toArray⟩ = some text :=
  fromUTF8_toByteArray text

theorem decode_bytes (fromStr : String → Except Error α) (text : String) :
    decode fromStr (bytes text) = fromStr text := by
  rw [decode,fromUTF8_bytes]

theorem handleLines_texts (fromStr : String → Except Error α) (handle : α → Action Error σ Unit) (texts : List String)
    (framed : ∀ text ∈ texts, Frame (10 : UInt8) (bytes text)) {values : List α}
    (decodes : List.Forall₂ (fun text value => fromStr text = .ok value) texts values) :
    handleLines fromStr handle (frames 10 (texts.map bytes).flatten) = callAll handle values := by
  have cut : frames 10 (texts.map bytes).flatten = texts.map bytes := by
    refine frames_of_parts _ fun part member => ?_
    obtain ⟨text,listed,rfl⟩ := List.mem_map.mp member
    exact framed text listed
  rw [cut]
  clear cut framed
  induction decodes with
  | nil => rfl
  | cons first _ ih =>
    rw [List.map_cons,handleLines,decode_bytes,first,callAll,ih]
    rfl

theorem handleLines_decodes {json : Serializer α} {fromStr : String → Except Error α} {same : α → α → Prop}
    {values : List α} (decodes : ∀ value ∈ values, Decodes json fromStr same value) :
    ∃ decoded, List.Forall₂ same values decoded ∧ ∀ {σ : Type} (handle : α → Action Error σ Unit),
      handleLines fromStr handle (frames 10 (values.map fun value =>
        bytes (json.toString value ++ newlineText)).flatten) =
        callAll handle decoded := by
  have all : ∃ decoded, List.Forall₂ same values decoded ∧ List.Forall₂ (fun text value => fromStr text = .ok value)
      (values.map fun value => json.toString value ++ newlineText) decoded := by
    induction values with
    | nil => exact ⟨[],.nil,.nil⟩
    | cons value values ih =>
      obtain ⟨⟨first,read,like⟩,others⟩ := List.forall_mem_cons.mp decodes
      obtain ⟨decoded,likes,reads⟩ := ih others
      exact ⟨first :: decoded,.cons like likes,.cons read reads⟩
  obtain ⟨decoded,likes,reads⟩ := all
  refine ⟨decoded,likes,fun handle => ?_⟩
  have framed := handleLines_texts fromStr handle _ (fun text listed => ?_) reads
  · rw [List.map_map] at framed
    exact framed
  · obtain ⟨value,_,rfl⟩ := List.mem_map.mp listed
    exact json.frame value

end Lines

def RemoteRequest.call : RemoteRequest → BackendCall
  | .beginCommand blockFor process command =>
    .beginCommand blockFor ⟨process.id,⟨process.stdin⟩,⟨process.stdout⟩,⟨process.stderr⟩⟩ command
  | .cancelCommand id => .cancelCommand id
  | .beginRemote id command => .beginRemote id command
  | .openOutputFile id path => .openOutputFile ⟨id⟩ path
  | .openInputFile id path => .openInputFile ⟨id⟩ path
  | .endRemote id => .endRemote id
  | .listDirectory id path => .listDirectory id path
  | .finishEdit id data => .finishEdit id data
  | .pipe envelope => .pipe ⟨envelope.id⟩ envelope.msg

/-- The same request: a decoded map has an iteration order of its own. -/
inductive Request.Same : Request → Request → Prop
  | beginCommand {blockFor other : OrderedMap ProcessId Condition} (perm : blockFor.entries.Perm other.entries)
      (remoteId : Nat) (process : AbstractProcess) (command : Command) :
      Same ⟨remoteId,.beginCommand blockFor process command⟩ ⟨remoteId,.beginCommand other process command⟩
  | refl (request : Request) : Same request request

theorem Request.Same.call {request other : Request} (same : request.Same other) :
    request.message.call.Same other.message.call := by
  cases same with
  | beginCommand perm => exact .beginCommand perm _ _
  | refl => exact .refl _

theorem route_call {ε σ : Type} (handler : BackendHandler ε σ) (request : Request) :
    request.route handler = request.message.call.run handler := by
  obtain ⟨remoteId,message⟩ := request
  cases message <;> rfl

/-- The handler of a backend that is asked to run commands only: each call queues an event. -/
def queueing (order : OrderedMap ProcessId Condition) : BackendHandler Error (List ExecEvent) :=
  let queue (event : ExecEvent) : Action Error (List ExecEvent) Unit := .modify fun events => events ++ [event]
  { beginCommand := fun blockFor process command => do
      .lift (Outcome.assert (order.entries.Perm blockFor.entries))
      queue (.enqueue process.id ⟨command,process.pipes⟩ order)
    cancelCommand := fun id => queue (.cancelExec id)
    beginRemote := fun _ _ => .panic .explicit
    openOutputFile := fun id path => queue (.openOutputFile id path)
    openInputFile := fun id path => queue (.openInputFile id path)
    endRemote := fun _ => .panic .explicit
    listDirectory := fun _ _ => .panic .explicit
    finishEdit := fun id data => queue (.editComplete id data)
    pipe := fun id msg => queue (.pipeMessage id msg) }

theorem route_queueing (order : OrderedMap ProcessId Condition) (request : Request) (events : List ExecEvent) :
    request.route (queueing order) events =
      (World.routeRequest order request.message).map fun event => (.ok (),events ++ [event]) := by
  obtain ⟨remoteId,message⟩ := request
  cases message with
  | beginCommand blockFor process command =>
    by_cases perm : order.entries.Perm blockFor.entries
    · have asserted := Outcome.assert_true perm
      simp only [World.routeRequest,asserted]
      exact lift_continues asserted
    · have asserted := Outcome.assert_false perm
      simp only [World.routeRequest,asserted]
      exact lift_panics asserted
  | cancelCommand => rfl
  | beginRemote => rfl
  | openOutputFile => rfl
  | openInputFile => rfl
  | endRemote => rfl
  | listDirectory => rfl
  | finishEdit => rfl
  | pipe => rfl

theorem callAll_map {ε σ α β : Type} (run : β → Action ε σ Unit) (call : α → β) (values : List α) :
    callAll (fun value => run (call value)) values = callAll run (values.map call) := by
  induction values with
  | nil => rfl
  | cons value values ih => rw [callAll,ih,List.map_cons,callAll]

namespace References
variable {endpoint next : Endpoint StackedRemotes}

def calls (requests : List Request) : List BackendCall := requests.map fun request => request.message.call

def Unsent (endpoint next : Endpoint StackedRemotes) : Prop := next.sent = endpoint.sent

instance : IsPreorder (Endpoint StackedRemotes) Unsent where
  refl _ := rfl
  trans _ _ _ first second := second.trans first

theorem finishEdit_errorless (commandId : ProcessId) (editId : Nat) (data : Bytes) :
    Errorless (Endpoint.finishEdit trans commandId editId data : Shell Unit) :=
  Errorless.get.bind fun _ => (Errorless.lift _).bind fun _ => (assertOpen_errorless _).bind fun _ => send_errorless _ _

/-- What has been sent since, and what it makes the backend call. -/
def Asks (endpoint next : Endpoint StackedRemotes) (asked : Option BackendCall) : Prop :=
  ∃ more, next.sent = endpoint.sent ++ more ∧ calls more = asked.toList

theorem asks_none (unsent : Unsent endpoint next) : Asks endpoint next none :=
  ⟨[],by rw [List.append_nil]; exact unsent,rfl⟩

theorem asks_some {remoteId : Nat} {message : RemoteRequest} {asked : Option BackendCall}
    (sent : next.sent = endpoint.sent ++ [⟨remoteId,message⟩]) (same : asked = some message.call) :
    Asks endpoint next asked := ⟨_,sent,by rw [same]; rfl⟩

theorem println_errorless (terminal : Terminal) (text : String) : Errorless (StackedRemotes.println terminal text) :=
  (Errorless.lift _).bind fun _ => .modify _

theorem editRequest_asks {terminal : Terminal} {remoteId editId : Nat} {commandId : ProcessId} {name : String}
    {data : Bytes} {result : Except Error Unit}
    (ok : StackedRemotes.editRequest terminal trans editId commandId name data endpoint = .ok (result,next)) :
    Asks endpoint next
      (asks (.receive terminal ⟨remoteId,.editRequest commandId editId name data⟩,result.map fun _ => .done)) := by
  unfold StackedRemotes.editRequest at ok
  obtain ⟨_,_,printed,ok⟩ := (println_errorless terminal _).continues ok
  obtain ⟨_,rfl⟩ := Prod.mk.inj (Except.ok.inj (StackedRemotes.println_ok.mp printed).2)
  cases write : terminal.write with
  | error error =>
    rw [write] at ok
    cases ok
    exact asks_none rfl
  | ok taken =>
    rw [write] at ok
    change (terminal.edit name data >>= fun newData => Endpoint.finishEdit trans commandId editId newData) _ = _ at ok
    cases edit : terminal.answer name data with
    | error panic =>
      rw [panic_bind (by rw [Terminal.edit_eq,edit]; rfl)] at ok
      cases ok
    | ok answer =>
      cases answer with
      | error error =>
        rw [raised_bind (by rw [Terminal.edit_eq,edit]; rfl)] at ok
        cases ok
        exact asks_none rfl
      | ok newData =>
        rw [ok_bind (by rw [Terminal.edit_eq,edit]; rfl)] at ok
        cases result with
        | error error => exact absurd ok (finishEdit_errorless _ _ _).never
        | ok done =>
          obtain ⟨parent,_,_,rfl⟩ := Endpoint.finishEdit_ok ok
          refine ⟨[⟨parent.val,.finishEdit editId newData⟩],rfl,?_⟩
          simp [asks,edited,edit,Except.map,calls,RemoteRequest.call]

theorem update_unsent (change : StackedRemotes → StackedRemotes) : Keeps Unsent (StackedRemotes.update change) :=
  .modify _ fun _ => rfl

theorem pipe_unsent (terminal : Terminal) (id : GenericPipe) (message : PipeMessage) :
    Keeps Unsent (StackedRemotes.pipe terminal id message) := by
  have printed (stream : Stream) (data : Bytes) : Keeps Unsent (do
      Action.propagate terminal.writeAll
      StackedRemotes.print stream (some id) data : Shell Unit) :=
    (Keeps.propagate _).bind fun _ => update_unsent _
  cases message with
  | data data endOffset =>
    refine Keeps.get.bind fun endpoint => ?_
    split
    · exact update_unsent _
    · split
      · exact printed .stdout data
      · split
        · exact printed .stderr data
        · exact .panic _
  | closed endOffset =>
    refine (update_unsent _).bind fun _ => Keeps.get.bind fun endpoint => ?_
    split
    · exact update_unsent _
    · exact .pure _
  | beginRead => exact .panic _
  | read => exact .panic _

theorem receive_asks {terminal : Terminal} {message : Response} {result : Except Error Unit}
    (ok : Endpoint.receive (StackedRemotes.handler terminal trans) message endpoint = .ok (result,next)) :
    Asks endpoint next (asks (.receive terminal message,result.map fun _ => .done)) := by
  obtain ⟨remoteId,message⟩ := message
  cases message with
  | remoteReady info =>
    have unsent : Keeps Unsent (StackedRemotes.remoteReady ⟨remoteId⟩ info) :=
      Keeps.get.bind fun _ => (Keeps.lift _).bind fun _ => (Keeps.lift _).bind fun _ => update_unsent _
    exact asks_none (unsent.after ok)
  | commandDone id exitCode =>
    have unsent : Keeps Unsent (StackedRemotes.commandDone id exitCode) :=
      Keeps.get.bind fun _ => (Keeps.lift _).bind fun _ => update_unsent _
    exact asks_none (unsent.after ok)
  | directoryListing id items => cases ok
  | editRequest commandId editId name data => exact editRequest_asks ok
  | pipe envelope =>
    have unsent : Keeps Unsent (do
        let endpoint ← .get
        .lift (Outcome.assert (envelope.id ∈ endpoint.pipes))
        StackedRemotes.pipe terminal ⟨envelope.id⟩ envelope.msg : Shell Unit) :=
      Keeps.get.bind fun _ => (Keeps.lift _).bind fun _ => pipe_unsent _ _ _
    exact asks_none (unsent.after ok)

theorem perform_asks {operation : Operation} {result : Except Error Answer}
    (ok : perform operation endpoint = .ok (result,next)) : Asks endpoint next (asks (operation,result)) := by
  by_cases handles : ∃ terminal message, operation = .receive terminal message
  · obtain ⟨terminal,message,rfl⟩ := handles
    cases result with
    | error error =>
      rcases bind_raised.mp ok with raised | ⟨_,_,_,last⟩
      · exact receive_asks raised
      · cases last
    | ok value =>
      obtain ⟨_,_,received,last⟩ := bind_ok.mp ok
      obtain ⟨rfl,rfl⟩ := pure_ok.mp last
      exact receive_asks received
  · have errorless := perform_errorless operation fun terminal message same => handles ⟨terminal,message,same⟩
    cases result with
    | error error => exact absurd ok errorless.never
    | ok value =>
      cases operation with
      | receive terminal message => exact absurd ⟨terminal,message,rfl⟩ handles
      | pipe =>
        obtain ⟨_,_,made,last⟩ := bind_ok.mp ok
        obtain ⟨rfl,rfl⟩ := pure_ok.mp last
        obtain ⟨_,rfl⟩ := Endpoint.pipe_ok made rfl
        exact asks_none rfl
      | update change =>
        obtain ⟨_,_,updated,last⟩ := bind_ok.mp ok
        obtain ⟨rfl,rfl⟩ := pure_ok.mp last
        exact asks_none ((update_unsent change).after updated)
      | remote remote command =>
        obtain ⟨id,_,acted,last⟩ := bind_ok.mp ok
        obtain ⟨rfl,rfl⟩ := pure_ok.mp last
        obtain ⟨_,_,drawn,rfl⟩ := Endpoint.remote_ok acted
        obtain rfl := Except.ok.inj drawn
        exact asks_some rfl rfl
      | command remote command blockFor pipes =>
        obtain ⟨pid,_,acted,last⟩ := bind_ok.mp ok
        obtain ⟨rfl,rfl⟩ := pure_ok.mp last
        obtain ⟨_,rfl,rfl⟩ := Endpoint.command_ok acted
        exact asks_some rfl rfl
      | openOutputFile remote path =>
        obtain ⟨pipe,_,acted,last⟩ := bind_ok.mp ok
        obtain ⟨rfl,rfl⟩ := pure_ok.mp last
        obtain ⟨_,rfl,rfl⟩ := Endpoint.openOutputFile_ok acted
        exact asks_some rfl rfl
      | openInputFile remote path =>
        obtain ⟨pipe,_,acted,last⟩ := bind_ok.mp ok
        obtain ⟨rfl,rfl⟩ := pure_ok.mp last
        obtain ⟨_,rfl,rfl⟩ := Endpoint.openInputFile_ok acted
        exact asks_some rfl rfl
      | closeRemote remote =>
        obtain ⟨_,_,acted,last⟩ := bind_ok.mp ok
        obtain ⟨rfl,rfl⟩ := pure_ok.mp last
        obtain ⟨parent,_,rfl⟩ := Endpoint.closeRemote_ok acted
        exact asks_some rfl rfl
      | closeProcess id =>
        obtain ⟨_,_,acted,last⟩ := bind_ok.mp ok
        obtain ⟨rfl,rfl⟩ := pure_ok.mp last
        obtain ⟨parent,_,_,rfl⟩ := Endpoint.closeProcess_ok acted
        exact asks_some rfl rfl
      | finishEdit commandId editId data =>
        obtain ⟨_,_,acted,last⟩ := bind_ok.mp ok
        obtain ⟨rfl,rfl⟩ := pure_ok.mp last
        obtain ⟨parent,_,_,rfl⟩ := Endpoint.finishEdit_ok acted
        exact asks_some rfl rfl
      | pipeRead remote id readUpTo =>
        obtain ⟨_,_,acted,last⟩ := bind_ok.mp ok
        obtain ⟨rfl,rfl⟩ := pure_ok.mp last
        obtain rfl := Endpoint.pipeRead_ok acted
        exact asks_some rfl rfl
      | pipeBeginRead remote id =>
        obtain ⟨_,_,acted,last⟩ := bind_ok.mp ok
        obtain ⟨rfl,rfl⟩ := pure_ok.mp last
        obtain rfl := Endpoint.pipeBeginRead_ok acted
        exact asks_some rfl rfl

theorem run_asks {trace : List Performed} (run : system.Run trace endpoint) :
    calls endpoint.sent = trace.filterMap asks := by
  induction run with
  | initial start =>
    obtain rfl := start
    rfl
  | step before taken ih =>
    rename_i trace state label next
    obtain ⟨operation,result⟩ := label
    obtain ⟨more,sent,asked⟩ := perform_asks taken
    rw [sent,calls,List.map_append,← calls,← calls,ih,asked,List.filterMap_append]
    cases call : asks (operation,result) <;> simp [call]

/-- The backend is called for the operations that send, in their order, with their arguments. -/
theorem requests_agree {trace : List Performed} (run : system.Run trace endpoint) (json : Serializer Request)
    (fromStr : String → Except Error Request)
    (decodes : ∀ request ∈ endpoint.sent, Decodes json fromStr Request.Same request) :
    ∃ called, List.Forall₂ BackendCall.Same (trace.filterMap asks) called ∧
      ∀ {σ : Type} (handler : BackendHandler Error σ),
      handleLines fromStr (Request.route handler) (frames 10 (requestStream json endpoint.sent)) =
        callAll (BackendCall.run handler) called := by
  obtain ⟨decoded,same,handled⟩ := handleLines_decodes decodes
  refine ⟨calls decoded,?_,fun handler => ?_⟩
  · rw [← run_asks run,calls,calls]
    exact List.forall₂_map_left_iff.mpr (List.forall₂_map_right_iff.mpr (same.imp fun _ _ like => like.call))
  · refine (handled _).trans ?_
    rw [calls,← callAll_map]
    congr
    funext request
    exact route_call handler request

end References

section Responses
variable {H : Type}

def BackendOperation.message : BackendOperation → RemoteResponse
  | .remoteReady info => .remoteReady info
  | .pipeData id data endOffset => .pipe ⟨id.val,.data data endOffset⟩
  | .pipeClosed id endOffset => .pipe ⟨id.val,.closed endOffset⟩
  | .commandDone id exitCode => .commandDone id exitCode
  | .directoryListing id items => .directoryListing id items
  | .editRequest commandId editId name data => .editRequest commandId editId name data

def delivered : Response → Except Error Unit := fun _ => .ok ()

/-- The pipe of each message has been handed out by the endpoint when the message is handled. -/
def HandedOut (handler : EndpointHandler Error H) (calls : List EndpointCall) (endpoint : Endpoint H) : Prop :=
  ∀ before id msg after middle, calls = before ++ .pipe id msg :: after →
    callAll (EndpointCall.run handler) before endpoint = .ok (.ok (),middle) → id.val ∈ middle.pipes

theorem performAll_sent {operations : List BackendOperation} {backend last : Backend}
    (ok : callAll (BackendOperation.perform delivered) operations backend = .ok (.ok (),last)) :
    last.sent = backend.sent ++ operations.map fun operation => ⟨0,operation.message⟩ := by
  induction operations generalizing backend with
  | nil =>
    obtain ⟨_,rfl⟩ := pure_ok.mp ok
    simp
  | cons operation operations ih =>
    obtain ⟨_,middle,performed,rest⟩ := bind_ok.mp ok
    have one : middle.sent = backend.sent ++ [⟨0,operation.message⟩] := by
      cases operation <;> (cases performed; rfl)
    rw [ih rest,one]
    simp

theorem receive_pipe {handler : EndpointHandler Error H} {endpoint : Endpoint H} {remoteId : Nat}
    {envelope : PipeEnvelope}
    (known : envelope.id ∈ endpoint.pipes) :
    Endpoint.receive handler ⟨remoteId,.pipe envelope⟩ endpoint = handler.pipe ⟨envelope.id⟩ envelope.msg endpoint := by
  unfold Endpoint.receive
  simp only [get_bind]
  exact lift_continues (Outcome.assert_true known)

/-- The endpoint handles one message as it was meant, as far as it knows its pipe. -/
theorem receive_tells (handler : EndpointHandler Error H) (operation : BackendOperation) (endpoint : Endpoint H)
    (known : ∀ id msg, operation.tells = .pipe id msg → id.val ∈ endpoint.pipes) :
    Endpoint.receive handler ⟨0,operation.message⟩ endpoint = operation.tells.run handler endpoint := by
  cases operation with
  | remoteReady info => rfl
  | pipeData id data endOffset => exact receive_pipe (known _ _ rfl)
  | pipeClosed id endOffset => exact receive_pipe (known _ _ rfl)
  | commandDone id exitCode => rfl
  | directoryListing id items => rfl
  | editRequest commandId editId name data => rfl

theorem receiveAll_tells (handler : EndpointHandler Error H) (operations : List BackendOperation)
    (endpoint : Endpoint H)
    (known : HandedOut handler (operations.map BackendOperation.tells) endpoint) :
    callAll (Endpoint.receive handler) (operations.map fun operation => ⟨0,operation.message⟩) endpoint =
      callAll (EndpointCall.run handler) (operations.map BackendOperation.tells) endpoint := by
  induction operations generalizing endpoint with
  | nil => rfl
  | cons operation operations ih =>
    have first := receive_tells handler operation endpoint fun id msg same =>
      known [] id msg _ endpoint (by rw [List.map_cons,same,List.nil_append]) rfl
    rw [List.map_cons,List.map_cons,callAll,callAll]
    cases done : operation.tells.run handler endpoint with
    | error panic => rw [panic_bind done,panic_bind (first.trans done)]
    | ok pair =>
      obtain ⟨result,middle⟩ := pair
      cases result with
      | error error => rw [raised_bind done,raised_bind (first.trans done)]
      | ok value =>
        rw [ok_bind done,ok_bind (first.trans done)]
        refine ih middle fun before id msg after last split ran => ?_
        refine known (operation.tells :: before) id msg after last ?_ ?_
        · rw [List.map_cons,split,List.cons_append]
        · rw [callAll,ok_bind done]
          exact ran

theorem responses_agree {operations : List BackendOperation} {backend : Backend}
    (sent : callAll (BackendOperation.perform delivered) operations Backend.new = .ok (.ok (),backend))
    (json : Serializer Response) (fromStr : String → Except Error Response)
    (decodes : ∀ response ∈ backend.sent, Decodes json fromStr Eq response) (handler : EndpointHandler Error H)
    (endpoint : Endpoint H) (known : HandedOut handler (operations.map BackendOperation.tells) endpoint) :
    handleLines fromStr (Endpoint.receive handler) (frames 10 (responseStream json backend.sent)) endpoint =
      callAll (EndpointCall.run handler) (operations.map BackendOperation.tells) endpoint := by
  obtain ⟨decoded,same,handled⟩ := handleLines_decodes decodes
  obtain rfl : backend.sent = decoded := List.forall₂_eq_eq_eq ▸ same
  have messages : backend.sent = operations.map fun operation => ⟨0,operation.message⟩ := performAll_sent sent
  rw [← receiveAll_tells handler operations endpoint known,← messages,← handled]
  rfl

end Responses

/-- Each end calls what the other end's operations ask for or tell, in their order and with
their arguments, for messages about pipes that the endpoint has handed out; a message about
any other pipe is a failed assertion. -/
theorem ends_agree (requests : Serializer Request) (toRequest : String → Except Error Request)
    (responses : Serializer Response) (toResponse : String → Except Error Response) :
    (∀ trace endpoint, References.system.Run trace endpoint →
      (∀ request ∈ endpoint.sent, Decodes requests toRequest Request.Same request) →
      ∃ called, List.Forall₂ BackendCall.Same (trace.filterMap asks) called ∧
        ∀ {σ : Type} (handler : BackendHandler Error σ),
          handleLines toRequest (Request.route handler) (frames 10 (requestStream requests endpoint.sent)) =
            callAll (BackendCall.run handler) called) ∧
    ∀ {H : Type} (handler : EndpointHandler Error H) (endpoint : Endpoint H),
      (∀ operations backend,
        callAll (BackendOperation.perform delivered) operations Backend.new = .ok (.ok (),backend) →
        (∀ response ∈ backend.sent, Decodes responses toResponse Eq response) →
        HandedOut handler (operations.map BackendOperation.tells) endpoint →
        handleLines toResponse (Endpoint.receive handler) (frames 10 (responseStream responses backend.sent)) endpoint =
          callAll (EndpointCall.run handler) (operations.map BackendOperation.tells) endpoint) ∧
      ∀ remoteId envelope, envelope.id ∉ endpoint.pipes →
        Endpoint.receive handler ⟨remoteId,.pipe envelope⟩ endpoint = .error .assertion := by
  refine ⟨fun trace endpoint run decodes => References.requests_agree run requests toRequest decodes,
    fun handler endpoint => ⟨fun operations backend sent decodes known =>
      responses_agree sent responses toResponse decodes handler endpoint known,fun remoteId envelope unknown => ?_⟩⟩
  exact lift_panics (Outcome.assert_false unknown)

def commandText : String :=
  "\x7b\"remote_id\":0,\"message\":\x7b\"BeginCommand\":\x7b\"block_for\":\x7b\x7d,\"process\":" ++
  "\x7b\"id\":3,\"stdin\":0,\"stdout\":1,\"stderr\":2\x7d,\"command\":\x7b\"Edit\":\"notes\"\x7d\x7d\x7d\x7d"

def readText : String := "\x7b\"remote_id\":0,\"message\":\x7b\"Pipe\":\x7b\"id\":1,\"msg\":\"BeginRead\"\x7d\x7d\x7d"

def editText : String := "\x7b\"remote_id\":0,\"message\":\x7b\"EditRequest\":\x7b\"command_id\":3,\"edit_id\":0," ++
  "\"name\":\"notes\",\"data\":[104,105]\x7d\x7d\x7d"

def closedText : String := "\x7b\"remote_id\":0,\"message\":\x7b\"Pipe\":\x7b\"id\":1,\"msg\":\x7b\"Closed\":" ++
  "\x7b\"end_offset\":0\x7d\x7d\x7d\x7d\x7d"

def editing : Serializer Request where
  toString request :=
    match request.message with
    | .pipe _ => readText
    | _ => commandText
  compact value := by
    have first : (10 : UInt8) ∉ bytes readText := by decide +kernel
    have second : (10 : UInt8) ∉ bytes commandText := by decide +kernel
    obtain ⟨remoteId,message⟩ := value
    cases message with
    | pipe => exact first
    | _ => exact second

def toEditing (text : String) : Except Error Request :=
  if text = commandText ++ newlineText then .ok ⟨0,.beginCommand ∅ ⟨⟨3⟩,0,1,2⟩ (.edit "notes")⟩
  else .ok ⟨0,.pipe ⟨1,.beginRead⟩⟩

def answering : Serializer Response where
  toString response :=
    match response.message with
    | .editRequest .. => editText
    | _ => closedText
  compact value := by
    have first : (10 : UInt8) ∉ bytes editText := by decide +kernel
    have second : (10 : UInt8) ∉ bytes closedText := by decide +kernel
    obtain ⟨remoteId,message⟩ := value
    cases message with
    | editRequest => exact first
    | _ => exact second

def toAnswering (text : String) : Except Error Response :=
  if text = editText ++ newlineText then .ok ⟨0,.editRequest ⟨3⟩ 0 "notes" [104,105]⟩
  else .ok ⟨0,.pipe ⟨1,.closed 0⟩⟩

def noting : EndpointHandler Error (List EndpointCall) :=
  let note (call : EndpointCall) : Action Error (Endpoint (List EndpointCall)) Unit :=
    .modify fun endpoint => { endpoint with handler := endpoint.handler ++ [call] }
  { remoteReady := fun id info => note (.remoteReady id info)
    commandDone := fun id exitCode => note (.commandDone id exitCode)
    directoryListing := fun id items => note (.directoryListing id items)
    editRequest := fun editId commandId name data => note (.editRequest editId commandId name data)
    pipe := fun id msg => note (.pipe id msg) }

def edits : List Operation :=
  [.pipe,.pipe,.pipe,.command Endpoint.root (.edit "notes") ∅ ⟨⟨0⟩,⟨1⟩,⟨2⟩⟩,.pipeBeginRead Endpoint.root ⟨1⟩]

def handed : Endpoint (List EndpointCall) := { Endpoint.new [] with pipes := {1} }

theorem ends_agree_edit : (∃ trace endpoint, References.system.Run trace endpoint ∧ trace.map Prod.fst = edits ∧
      ∃ called, List.Forall₂ BackendCall.Same
          [.beginCommand ∅ ⟨⟨3⟩,⟨⟨0⟩,⟨1⟩,⟨2⟩⟩⟩ (.edit "notes"),.pipe ⟨1⟩ .beginRead] called ∧
        ∀ {σ : Type} (handler : BackendHandler Error σ),
          handleLines toEditing (Request.route handler) (frames 10 (requestStream editing endpoint.sent)) =
            callAll (BackendCall.run handler) called) ∧
    ∃ last, handleLines toAnswering (Endpoint.receive noting)
        (frames 10 (responseStream answering [⟨0,.editRequest ⟨3⟩ 0 "notes" [104,105]⟩,⟨0,.pipe ⟨1,.closed 0⟩⟩]))
          handed =
      .ok (.ok (),last) ∧ last.handler = [.editRequest 0 ⟨3⟩ "notes" [104,105],.pipe ⟨1⟩ (.closed 0)] := by
  constructor
  · have start : (References.system.restrict fun _ _ => True).Run [] _ := .initial rfl
    have first := References.performs .pipe start rfl trivial
    have second := References.performs .pipe first rfl trivial
    have third := References.performs .pipe second rfl trivial
    have begun := References.performs (.command Endpoint.root (.edit "notes") ∅ ⟨⟨0⟩,⟨1⟩,⟨2⟩⟩) third rfl trivial
    have read := References.performs (.pipeBeginRead Endpoint.root ⟨1⟩) begun rfl trivial
    refine ⟨_,_,read.unrestricted,rfl,(ends_agree editing toEditing answering toAnswering).1 _ _ read.unrestricted ?_⟩
    intro request member
    have listed : request ∈ [⟨0,.beginCommand ∅ ⟨⟨3⟩,0,1,2⟩ (.edit "notes")⟩,⟨0,.pipe ⟨1,.beginRead⟩⟩] := member
    rcases List.mem_pair.mp listed with rfl | rfl
    · exact ⟨_,if_pos rfl,.refl _⟩
    · exact ⟨_,if_neg (show readText ++ newlineText ≠ commandText ++ newlineText by decide +kernel),.refl _⟩
  · have told := ((ends_agree editing toEditing answering toAnswering).2 noting handed).1
      [.editRequest ⟨3⟩ 0 "notes" [104,105],.pipeClosed ⟨1⟩ 0] _ rfl ?_ ?_
    · exact ⟨_,told,rfl⟩
    · intro response member
      rcases List.mem_pair.mp member with rfl | rfl
      · exact ⟨_,if_pos rfl,rfl⟩
      · exact ⟨_,if_neg (show closedText ++ newlineText ≠ editText ++ newlineText by decide +kernel),rfl⟩
    · intro before id msg after middle split ran
      match before, split with
      | [_], split =>
        obtain ⟨rfl,same⟩ := List.cons.inj split
        obtain ⟨rfl,_⟩ := EndpointCall.pipe.inj (List.cons.inj same).1
        obtain ⟨_,rfl⟩ := Prod.mk.inj (Except.ok.inj ran)
        exact Finset.mem_singleton_self _
      | _ :: _ :: before, split => simp at split

/-- A message about a pipe that was never handed out: the handler is not called. -/
theorem ends_agree_fails : ∃ backend,
    callAll (BackendOperation.perform delivered) [.pipeClosed ⟨1⟩ 0] Backend.new = .ok (.ok (),backend) ∧
    (∀ response ∈ backend.sent, Decodes answering toAnswering Eq response) ∧
    handleLines toAnswering (Endpoint.receive noting) (frames 10 (responseStream answering backend.sent))
      (Endpoint.new []) = .error .assertion ∧
    ∃ last, callAll (EndpointCall.run noting) ([BackendOperation.pipeClosed ⟨1⟩ 0].map BackendOperation.tells)
      (Endpoint.new []) = .ok (.ok (),last) ∧ last.handler = [.pipe ⟨1⟩ (.closed 0)] := by
  have decodes : Decodes answering toAnswering Eq ⟨0,.pipe ⟨1,.closed 0⟩⟩ :=
    ⟨_,if_neg (show closedText ++ newlineText ≠ editText ++ newlineText by decide +kernel),rfl⟩
  refine ⟨_,rfl,fun response member => ?_,?_,_,rfl,rfl⟩
  · obtain rfl := List.mem_singleton.mp member
    exact decodes
  · have one := handleLines_texts toAnswering (Endpoint.receive noting) [closedText ++ newlineText]
      (List.forall_mem_singleton.mpr (answering.frame ⟨0,.pipe ⟨1,.closed 0⟩⟩))
      (.cons (if_neg (show closedText ++ newlineText ≠ editText ++ newlineText by decide +kernel)) .nil)
    exact (congrFun one _).trans rfl

end Nak
