import Nak.EndpointRules

/-! What a failed send leaves behind. Some operations note what they do before they tell the
backend, others after that. -/
namespace Nak.Endpoint
open Library Action

/-- The operations that send one message. -/
inductive Call where
  | remote (remote : RemoteId) (command : Command)
  | command (remote : RemoteId) (command : Command) (blockFor : OrderedMap ProcessId Condition) (pipes : WritePipes)
  | openOutputFile (remote : RemoteId) (path : String)
  | openInputFile (remote : RemoteId) (path : String)
  | closeRemote (remote : RemoteId)
  | closeProcess (id : ProcessId)
  | finishEdit (commandId : ProcessId) (editId : Nat) (data : Bytes)
  | pipeRead (remote : RemoteId) (id : ReadPipe) (readUpTo : Nat)
  | pipeBeginRead (remote : RemoteId) (id : ReadPipe)

variable {H ε : Type} {trans : Transport ε} {endpoint next : Endpoint H}

/-- Of the value returned only its being there is kept. -/
def Call.run (trans : Transport ε) : Call → Action ε (Endpoint H) Unit
  | .remote parent cmd => do
    let _ ← Endpoint.remote trans parent cmd
    pure ()
  | .command parent cmd blockFor pipes => do
    let _ ← Endpoint.command trans parent cmd blockFor pipes
    pure ()
  | .openOutputFile parent path => do
    let _ ← Endpoint.openOutputFile trans parent path
    pure ()
  | .openInputFile parent path => do
    let _ ← Endpoint.openInputFile trans parent path
    pure ()
  | .closeRemote closed => Endpoint.closeRemote trans closed
  | .closeProcess id => Endpoint.closeProcess trans id
  | .finishEdit commandId editId data => Endpoint.finishEdit trans commandId editId data
  | .pipeRead parent id readUpTo => Endpoint.pipeRead trans parent id readUpTo
  | .pipeBeginRead parent id => Endpoint.pipeBeginRead trans parent id

/-- The remote that a job was begun on, if it is open. -/
def openParent (endpoint : Endpoint H) (id : ProcessId) : Option RemoteId := do
  let parent ← endpoint.jobs.lookup id
  if parent ∈ endpoint.remotes then some parent else none

def Call.request (endpoint : Endpoint H) : Call → Option Request
  | .remote parent cmd =>
    if parent ∈ endpoint.remotes then some ⟨parent.val,.beginRemote endpoint.ids.nextId cmd⟩ else none
  | .command parent cmd blockFor pipes =>
    if parent ∈ endpoint.remotes then some ⟨parent.val,.beginCommand blockFor
      ⟨⟨endpoint.ids.nextId⟩,pipes.stdin.val,pipes.stdout.val,pipes.stderr.val⟩ cmd⟩ else none
  | .openOutputFile parent path =>
    if parent ∈ endpoint.remotes then some ⟨parent.val,.openOutputFile endpoint.ids.nextId path⟩ else none
  | .openInputFile parent path =>
    if parent ∈ endpoint.remotes then some ⟨parent.val,.openInputFile endpoint.ids.nextId path⟩ else none
  | .closeRemote closed => do
    let parent ← (← endpoint.remotes.lookup closed).parent
    some ⟨parent.val,.endRemote closed.val⟩
  | .closeProcess id => (endpoint.openParent id).map fun parent => ⟨parent.val,.cancelCommand id⟩
  | .finishEdit commandId editId data =>
    (endpoint.openParent commandId).map fun parent => ⟨parent.val,.finishEdit editId data⟩
  | .pipeRead parent id readUpTo => some ⟨parent.val,.pipe ⟨id.val,.read readUpTo⟩⟩
  | .pipeBeginRead parent id => some ⟨parent.val,.pipe ⟨id.val,.beginRead⟩⟩

/-- What the call notes before it sends is there already. -/
def Call.Harmless (endpoint : Endpoint H) : Call → Prop
  | .closeRemote _ => False
  | .closeProcess _ => False
  | .openOutputFile _ _ => endpoint.ids.nextId ∈ endpoint.pipes
  | .openInputFile _ _ => endpoint.ids.nextId ∈ endpoint.pipes
  | _ => True

def Call.left (endpoint : Endpoint H) : Call → Endpoint H
  | .remote _ _ => { endpoint with ids := ⟨endpoint.ids.nextId + 1⟩ }
  | .command _ _ _ _ => { endpoint with ids := ⟨endpoint.ids.nextId + 1⟩ }
  | .openOutputFile _ _ =>
    { endpoint with ids := ⟨endpoint.ids.nextId + 1⟩, pipes := insert endpoint.ids.nextId endpoint.pipes }
  | .openInputFile _ _ =>
    { endpoint with ids := ⟨endpoint.ids.nextId + 1⟩, pipes := insert endpoint.ids.nextId endpoint.pipes }
  | .closeRemote closed => { endpoint with remotes := endpoint.remotes.erase closed }
  | .closeProcess id => { endpoint with jobs := endpoint.jobs.erase id }
  | _ => endpoint

theorem if_some {α : Type} {condition : Prop} [Decidable condition] {value found : α}
    (some : (if condition then Option.some value else none) = .some found) : condition ∧ value = found := by
  by_cases holds : condition
  · rw [if_pos holds] at some
    exact ⟨holds,Option.some.inj some⟩
  · rw [if_neg holds] at some
    cases some

theorem openParent_some {id : ProcessId} {parent : RemoteId} (found : endpoint.openParent id = some parent) :
    endpoint.jobs.lookup id = some parent ∧ parent ∈ endpoint.remotes := by
  obtain ⟨other,listed,opened⟩ := Option.bind_eq_some_iff.mp found
  obtain ⟨member,rfl⟩ := if_some opened
  exact ⟨listed,member⟩

section Refused
variable {error : ε} {remote : RemoteId}

theorem command_refused {command : Command} {blockFor : OrderedMap ProcessId Condition} {pipes : WritePipes}
    (opened : remote ∈ endpoint.remotes) (refused : trans ⟨remote.val,.beginCommand blockFor
      ⟨⟨endpoint.ids.nextId⟩,pipes.stdin.val,pipes.stdout.val,pipes.stderr.val⟩ command⟩ = .error error) :
    Endpoint.command trans remote command blockFor pipes endpoint =
      .ok (.error error,{ endpoint with ids := ⟨endpoint.ids.nextId + 1⟩ }) := by
  unfold Endpoint.command
  rw [ok_bind (assertOpen_passes opened),ok_bind (nextId_draws endpoint)]
  exact raised_bind (send_refused refused)

/-- Opening a file notes its pipe before the message about it is sent. -/
private theorem openFile_refused {α : Type} {message : Nat → RemoteRequest} {pipe : Nat → α}
    (opened : remote ∈ endpoint.remotes) (refused : trans ⟨remote.val,message endpoint.ids.nextId⟩ = .error error) :
    (do
      assertOpen remote
      let id ← nextId
      .modify fun endpoint => { endpoint with pipes := insert id endpoint.pipes }
      send trans remote (message id)
      pure (pipe id) : Action ε (Endpoint H) α) endpoint = .ok (.error error,{ endpoint with
        ids := ⟨endpoint.ids.nextId + 1⟩, pipes := insert endpoint.ids.nextId endpoint.pipes }) := by
  rw [ok_bind (assertOpen_passes opened),ok_bind (nextId_draws endpoint),modify_bind]
  exact raised_bind (send_refused refused)

theorem closeRemote_refused {parent : RemoteId} (listed : endpoint.remotes.lookup remote = some ⟨some parent⟩)
    (refused : trans ⟨parent.val,.endRemote remote.val⟩ = .error error) :
    Endpoint.closeRemote trans remote endpoint =
      .ok (.error error,{ endpoint with remotes := endpoint.remotes.erase remote }) := by
  unfold Endpoint.closeRemote
  rw [get_bind,listed]
  exact send_refused refused

theorem closeProcess_refused {id : ProcessId} {parent : RemoteId} (listed : endpoint.jobs.lookup id = some parent)
    (opened : parent ∈ endpoint.remotes) (refused : trans ⟨parent.val,.cancelCommand id⟩ = .error error) :
    Endpoint.closeProcess trans id endpoint =
      .ok (.error error,{ endpoint with jobs := endpoint.jobs.erase id }) := by
  unfold Endpoint.closeProcess
  rw [get_bind,listed,lift_continues (by rfl),modify_bind]
  rw [ok_bind (@assertOpen_passes _ _ { endpoint with jobs := endpoint.jobs.erase id } _ opened)]
  exact send_refused refused

theorem finishEdit_refused {commandId : ProcessId} {editId : Nat} {data : Bytes} {parent : RemoteId}
    (listed : endpoint.jobs.lookup commandId = some parent) (opened : parent ∈ endpoint.remotes)
    (refused : trans ⟨parent.val,.finishEdit editId data⟩ = .error error) :
    Endpoint.finishEdit trans commandId editId data endpoint = .ok (.error error,endpoint) := by
  unfold Endpoint.finishEdit
  rw [get_bind,listed,lift_continues (by rfl),ok_bind (assertOpen_passes opened)]
  exact send_refused refused

end Refused

theorem Call.run_refused {call : Call} {request : Request} {error : ε} (sends : call.request endpoint = some request)
    (refused : trans request = .error error) : call.run trans endpoint = .ok (.error error,call.left endpoint) := by
  cases call with
  | remote parent cmd =>
    obtain ⟨opened,rfl⟩ := if_some sends
    exact raised_bind (remote_refused opened refused)
  | command parent cmd blockFor pipes =>
    obtain ⟨opened,rfl⟩ := if_some sends
    exact raised_bind (command_refused opened refused)
  | openOutputFile parent path =>
    obtain ⟨opened,rfl⟩ := if_some sends
    exact raised_bind (openFile_refused opened refused)
  | openInputFile parent path =>
    obtain ⟨opened,rfl⟩ := if_some sends
    exact raised_bind (openFile_refused opened refused)
  | closeRemote closed =>
    obtain ⟨⟨parent?⟩,listed,sends⟩ := Option.bind_eq_some_iff.mp sends
    obtain ⟨parent,rfl,sends⟩ := Option.bind_eq_some_iff.mp sends
    obtain rfl := Option.some.inj sends
    exact closeRemote_refused listed refused
  | closeProcess id =>
    obtain ⟨parent,found,rfl⟩ := Option.map_eq_some_iff.mp sends
    obtain ⟨listed,opened⟩ := openParent_some found
    exact closeProcess_refused listed opened refused
  | finishEdit commandId editId data =>
    obtain ⟨parent,found,rfl⟩ := Option.map_eq_some_iff.mp sends
    obtain ⟨listed,opened⟩ := openParent_some found
    exact finishEdit_refused listed opened refused
  | pipeRead parent id readUpTo =>
    obtain rfl := Option.some.inj sends
    exact send_refused refused
  | pipeBeginRead parent id =>
    obtain rfl := Option.some.inj sends
    exact send_refused refused

theorem pipes_kept : (∃ ids, ({ endpoint with
      ids := ⟨endpoint.ids.nextId + 1⟩, pipes := insert endpoint.ids.nextId endpoint.pipes } : Endpoint H) =
    { endpoint with ids }) ↔ endpoint.ids.nextId ∈ endpoint.pipes := by
  rw [← Finset.insert_eq_self]
  exact ⟨fun ⟨_,same⟩ => congrArg Endpoint.pipes same,fun same => ⟨_,by rw [same]⟩⟩

theorem Call.left_kept {call : Call} {request : Request} (sends : call.request endpoint = some request) :
    (∃ ids, call.left endpoint = { endpoint with ids }) ↔ call.Harmless endpoint := by
  cases call with
  | openOutputFile parent path => exact pipes_kept
  | openInputFile parent path => exact pipes_kept
  | closeRemote closed =>
    obtain ⟨state,listed,-⟩ := Option.bind_eq_some_iff.mp sends
    refine iff_of_false ?_ fun harmless => harmless
    rintro ⟨ids,same⟩
    have kept : endpoint.remotes.erase closed = endpoint.remotes := congrArg Endpoint.remotes same
    rw [← kept,Finmap.lookup_erase] at listed
    cases listed
  | closeProcess id =>
    obtain ⟨parent,found,-⟩ := Option.map_eq_some_iff.mp sends
    have listed := (openParent_some found).1
    refine iff_of_false ?_ fun harmless => harmless
    rintro ⟨ids,same⟩
    have kept : endpoint.jobs.erase id = endpoint.jobs := congrArg Endpoint.jobs same
    rw [← kept,Finmap.lookup_erase] at listed
    cases listed
  | _ => exact iff_of_true ⟨_,rfl⟩ trivial

/-- A call whose send fails leaves everything but the counter as it was exactly when it
notes nothing new before it sends. -/
theorem failed_send_iff {call : Call} {request : Request} {error : ε} (sends : call.request endpoint = some request)
    (refused : trans request = .error error) :
    (∃ ids, call.run trans endpoint = .ok (.error error,{ endpoint with ids })) ↔ call.Harmless endpoint := by
  rw [call.run_refused sends refused,← call.left_kept sends]
  refine exists_congr fun ids => ⟨fun same => ?_,fun same => by rw [same]⟩
  exact (Prod.mk.inj (Except.ok.inj same)).2

/-- Beginning a remote on a closed connection. -/
theorem failed_send_iff_remote : ∃ ids, (Call.remote root (.unknown "ssh" [])).run (fun _ => .error "closed") (new ()) =
    .ok (.error "closed",{ new () with ids }) :=
  (@failed_send_iff Unit String (fun _ => .error "closed") (new ()) (.remote root (.unknown "ssh" [])) _ "closed"
    rfl rfl).mpr trivial

def connected : Endpoint Unit := { new () with
  ids := ⟨2⟩
  remotes := (Finmap.singleton ⟨0⟩ ⟨none⟩).insert ⟨1⟩ ⟨some ⟨0⟩⟩ }

/-- A remote that could not be closed is gone. -/
theorem failed_send_fails : ⟨1⟩ ∈ connected.remotes ∧ ∃ next,
    (Call.closeRemote ⟨1⟩).run (fun _ => .error "closed") connected = .ok (.error "closed",next) ∧
      ⟨1⟩ ∉ next.remotes := by
  refine ⟨Finmap.mem_insert.mpr (Or.inl rfl),_,rfl,?_⟩
  exact Finmap.notMem_erase_self

end Nak.Endpoint
