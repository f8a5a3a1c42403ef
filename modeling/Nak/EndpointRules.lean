import Nak.Frontend

/-! What the operations of the endpoint have done when they return. -/
namespace Nak.Endpoint
open Library Action
variable {H ε : Type} {trans : Transport ε} {endpoint next : Endpoint H}

theorem send_ok {remote : RemoteId} {message : RemoteRequest}
    (ok : send trans remote message endpoint = .ok (.ok (),next)) :
    next = { endpoint with sent := endpoint.sent ++ [⟨remote.val,message⟩] } := by
  obtain ⟨_,_,sent,last⟩ := bind_ok.mp ok
  obtain ⟨_,rfl⟩ := Prod.mk.inj (Except.ok.inj sent)
  exact (Prod.mk.inj (Except.ok.inj last)).2.symm

theorem send_taken {remote : RemoteId} {message : RemoteRequest} (answer : trans ⟨remote.val,message⟩ = .ok ()) :
    send trans remote message endpoint =
      .ok (.ok (),{ endpoint with sent := endpoint.sent ++ [⟨remote.val,message⟩] }) := by
  unfold send
  rw [answer]
  rfl

theorem send_refused {remote : RemoteId} {message : RemoteRequest} {error : ε}
    (answer : trans ⟨remote.val,message⟩ = .error error) :
    send trans remote message endpoint = .ok (.error error,endpoint) := by
  unfold send
  rw [answer]
  rfl

theorem assertOpen_ok {remote : RemoteId} {result : Except ε Unit}
    (ok : assertOpen remote endpoint = .ok (result,next)) : remote ∈ endpoint.remotes ∧ next = endpoint := by
  unfold assertOpen at ok
  rw [get_bind] at ok
  obtain ⟨_,opened,_,rfl⟩ := lift_ok.mp ok
  exact ⟨(Outcome.assert_ok _ _).mp opened,rfl⟩

theorem assertOpen_passes {remote : RemoteId} (opened : remote ∈ endpoint.remotes) :
    (assertOpen remote : Action ε (Endpoint H) Unit) endpoint = .ok (.ok (),endpoint) := by
  rw [assertOpen,get_bind,Outcome.assert_true opened]
  rfl

theorem nextId_draws (endpoint : Endpoint H) : (nextId : Action ε (Endpoint H) Nat) endpoint =
    .ok (.ok endpoint.ids.nextId,{ endpoint with ids := ⟨endpoint.ids.nextId + 1⟩ }) := rfl

theorem nextId_ok {id : Nat} {result : Except ε Nat} (ok : nextId endpoint = .ok (result,next))
    (value : result = .ok id) :
    id = endpoint.ids.nextId ∧ next = { endpoint with ids := ⟨endpoint.ids.nextId + 1⟩ } := by
  obtain ⟨same,rfl⟩ := Prod.mk.inj (Except.ok.inj ok)
  rw [value] at same
  exact ⟨(Except.ok.inj same).symm,rfl⟩

theorem remote_ok {parent : RemoteId} {command : Command} {result : Except ε RemoteId}
    (ok : Endpoint.remote (fun _ => .ok ()) parent command endpoint = .ok (result,next)) :
    parent ∈ endpoint.remotes ∧ endpoint.remotes.lookup ⟨endpoint.ids.nextId⟩ = none ∧
      result = .ok ⟨endpoint.ids.nextId⟩ ∧ next = { endpoint with
        ids := ⟨endpoint.ids.nextId + 1⟩
        sent := endpoint.sent ++ [⟨parent.val,.beginRemote endpoint.ids.nextId command⟩]
        remotes := endpoint.remotes.insert ⟨endpoint.ids.nextId⟩ ⟨some parent⟩ } := by
  unfold Endpoint.remote assertOpen at ok
  obtain ⟨_,found,ok⟩ := lift_bind_ok.mp ok
  have member := (Outcome.assert_ok _ _).mp found
  obtain ⟨_,vacant,last⟩ := lift_bind_ok.mp ok
  have absent := (Outcome.assert_ok _ _).mp vacant
  obtain ⟨drawn,shape⟩ := Prod.mk.inj (Except.ok.inj last)
  exact ⟨member,absent,drawn.symm,shape.symm⟩

theorem remote_refused {remote : RemoteId} {command : Command} {error : ε} (opened : remote ∈ endpoint.remotes)
    (refused : trans ⟨remote.val,.beginRemote endpoint.ids.nextId command⟩ = .error error) :
    Endpoint.remote trans remote command endpoint =
      .ok (.error error,{ endpoint with ids := ⟨endpoint.ids.nextId + 1⟩ }) := by
  unfold Endpoint.remote
  rw [ok_bind (assertOpen_passes opened),ok_bind (nextId_draws endpoint)]
  exact raised_bind (send_refused refused)

theorem pipe_ok {ends : ReadPipe × WritePipe} {result : Except ε (ReadPipe × WritePipe)}
    (ok : pipe endpoint = .ok (result,next)) (value : result = .ok ends) :
    ends = (⟨endpoint.ids.nextId⟩,⟨endpoint.ids.nextId⟩) ∧ next = { endpoint with
      ids := ⟨endpoint.ids.nextId + 1⟩
      pipes := insert endpoint.ids.nextId endpoint.pipes } := by
  obtain ⟨same,rfl⟩ := Prod.mk.inj (Except.ok.inj ok)
  rw [value] at same
  exact ⟨(Except.ok.inj same).symm,rfl⟩

theorem command_ok {remote : RemoteId} {command : Command} {blockFor : OrderedMap ProcessId Condition}
    {pipes : WritePipes} {pid : ProcessId}
    (ok : Endpoint.command trans remote command blockFor pipes endpoint = .ok (.ok pid,next)) :
    remote ∈ endpoint.remotes ∧ pid = ⟨endpoint.ids.nextId⟩ ∧ next = { endpoint with
      ids := ⟨endpoint.ids.nextId + 1⟩
      sent := endpoint.sent ++ [⟨remote.val,.beginCommand blockFor
        ⟨⟨endpoint.ids.nextId⟩,pipes.stdin.val,pipes.stdout.val,pipes.stderr.val⟩ command⟩]
      jobs := endpoint.jobs.insert ⟨endpoint.ids.nextId⟩ remote } := by
  obtain ⟨_,_,opened,rest⟩ := bind_ok.mp ok
  obtain ⟨member,rfl⟩ := assertOpen_ok opened
  obtain ⟨id,_,drawn,rest⟩ := bind_ok.mp rest
  obtain ⟨rfl,rfl⟩ := nextId_ok drawn rfl
  obtain ⟨_,_,sent,last⟩ := bind_ok.mp rest
  obtain rfl := send_ok sent
  obtain ⟨same,rfl⟩ := Prod.mk.inj (Except.ok.inj last)
  exact ⟨member,(Except.ok.inj same).symm,rfl⟩

private theorem openFile_ok {α : Type} {remote : RemoteId} {message : Nat → RemoteRequest} {opened : Nat → α} {pipe : α}
    (ok : (do
      assertOpen remote
      let id ← nextId
      .modify fun endpoint => { endpoint with pipes := insert id endpoint.pipes }
      send trans remote (message id)
      pure (opened id) : Action ε (Endpoint H) α) endpoint = .ok (.ok pipe,next)) :
    remote ∈ endpoint.remotes ∧ pipe = opened endpoint.ids.nextId ∧ next = { endpoint with
      ids := ⟨endpoint.ids.nextId + 1⟩
      pipes := insert endpoint.ids.nextId endpoint.pipes
      sent := endpoint.sent ++ [⟨remote.val,message endpoint.ids.nextId⟩] } := by
  obtain ⟨_,_,opened,rest⟩ := bind_ok.mp ok
  obtain ⟨member,rfl⟩ := assertOpen_ok opened
  obtain ⟨id,_,drawn,rest⟩ := bind_ok.mp rest
  obtain ⟨rfl,rfl⟩ := nextId_ok drawn rfl
  rw [modify_bind] at rest
  obtain ⟨_,_,sent,last⟩ := bind_ok.mp rest
  obtain rfl := send_ok sent
  obtain ⟨same,rfl⟩ := Prod.mk.inj (Except.ok.inj last)
  exact ⟨member,(Except.ok.inj same).symm,rfl⟩

theorem openOutputFile_ok {remote : RemoteId} {path : String} {pipe : WritePipe}
    (ok : openOutputFile trans remote path endpoint = .ok (.ok pipe,next)) :
    remote ∈ endpoint.remotes ∧ pipe = ⟨endpoint.ids.nextId⟩ ∧ next = { endpoint with
      ids := ⟨endpoint.ids.nextId + 1⟩
      pipes := insert endpoint.ids.nextId endpoint.pipes
      sent := endpoint.sent ++ [⟨remote.val,.openOutputFile endpoint.ids.nextId path⟩] } := openFile_ok ok

theorem openInputFile_ok {remote : RemoteId} {path : String} {pipe : ReadPipe}
    (ok : openInputFile trans remote path endpoint = .ok (.ok pipe,next)) :
    remote ∈ endpoint.remotes ∧ pipe = ⟨endpoint.ids.nextId⟩ ∧ next = { endpoint with
      ids := ⟨endpoint.ids.nextId + 1⟩
      pipes := insert endpoint.ids.nextId endpoint.pipes
      sent := endpoint.sent ++ [⟨remote.val,.openInputFile endpoint.ids.nextId path⟩] } := openFile_ok ok

theorem pipeBeginRead_ok {remote : RemoteId} {id : ReadPipe}
    (ok : pipeBeginRead trans remote id endpoint = .ok (.ok (),next)) :
    next = { endpoint with sent := endpoint.sent ++ [⟨remote.val,.pipe ⟨id.val,.beginRead⟩⟩] } := send_ok ok

theorem pipeRead_ok {remote : RemoteId} {id : ReadPipe} {limit : Nat}
    (ok : pipeRead trans remote id limit endpoint = .ok (.ok (),next)) :
    next = { endpoint with sent := endpoint.sent ++ [⟨remote.val,.pipe ⟨id.val,.read limit⟩⟩] } := send_ok ok

theorem closeRemote_ok {remote : RemoteId} (ok : closeRemote trans remote endpoint = .ok (.ok (),next)) :
    ∃ parent, endpoint.remotes.lookup remote = some ⟨some parent⟩ ∧ next = { endpoint with
      remotes := endpoint.remotes.erase remote
      sent := endpoint.sent ++ [⟨parent.val,.endRemote remote.val⟩] } := by
  unfold closeRemote at ok
  rw [get_bind] at ok
  obtain ⟨⟨parent?⟩,found,ok⟩ := lift_bind_ok.mp ok
  rw [modify_bind] at ok
  obtain ⟨parent,named,ok⟩ := lift_bind_ok.mp ok
  have found := (Outcome.expect_ok _ _ _).mp found
  obtain rfl := (Outcome.expect_ok _ _ _).mp named
  exact ⟨parent,found,send_ok ok⟩

theorem closeProcess_ok {id : ProcessId} (ok : closeProcess trans id endpoint = .ok (.ok (),next)) :
    ∃ parent, endpoint.jobs.lookup id = some parent ∧ parent ∈ endpoint.remotes ∧ next = { endpoint with
      jobs := endpoint.jobs.erase id
      sent := endpoint.sent ++ [⟨parent.val,.cancelCommand id⟩] } := by
  unfold closeProcess at ok
  rw [get_bind] at ok
  obtain ⟨parent,found,ok⟩ := lift_bind_ok.mp ok
  rw [modify_bind] at ok
  obtain ⟨_,_,opened,last⟩ := bind_ok.mp ok
  obtain ⟨member,rfl⟩ := assertOpen_ok opened
  exact ⟨parent,(Outcome.expect_ok _ _ _).mp found,member,send_ok last⟩

theorem finishEdit_ok {commandId : ProcessId} {editId : Nat} {data : Bytes}
    (ok : finishEdit trans commandId editId data endpoint = .ok (.ok (),next)) :
    ∃ parent, endpoint.jobs.lookup commandId = some parent ∧ parent ∈ endpoint.remotes ∧
      next = { endpoint with sent := endpoint.sent ++ [⟨parent.val,.finishEdit editId data⟩] } := by
  unfold finishEdit at ok
  rw [get_bind] at ok
  obtain ⟨parent,found,ok⟩ := lift_bind_ok.mp ok
  obtain ⟨_,_,opened,last⟩ := bind_ok.mp ok
  obtain ⟨member,rfl⟩ := assertOpen_ok opened
  exact ⟨parent,(Outcome.expect_ok _ _ _).mp found,member,send_ok last⟩

end Nak.Endpoint
