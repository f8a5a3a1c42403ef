import Nak.EndpointRules
import Nak.OneLoop

/-! Everything the receipt of a response and the cancelling of processes can have done. -/
namespace Nak
open Library Action

variable {terminal : Terminal} {trans : Transport Error} {endpoint next : Endpoint StackedRemotes}

def Endpoint.changed (endpoint : Endpoint StackedRemotes) (change : StackedRemotes → StackedRemotes) :
    Endpoint StackedRemotes := { endpoint with handler := change endpoint.handler }

inductive Receipt (endpoint : Endpoint StackedRemotes) : Response → Endpoint StackedRemotes → Prop
  | ready (id info) (waiting : endpoint.handler.waitingForRemote = some ⟨id⟩) :
      Receipt endpoint ⟨id,.remoteReady info⟩ (endpoint.changed fun handler =>
        { handler with waitingForRemote := none, remotes := handler.remotes ++ [(⟨id⟩,info)] })
  | done (remoteId id exitCode) (listed : id ∈ endpoint.handler.waitingFor) :
      Receipt endpoint ⟨remoteId,.commandDone id exitCode⟩ (endpoint.changed fun handler =>
        { handler with waitingFor := handler.waitingFor.erase id })
  | edited (remoteId commandId editId name data) (parent : RemoteId) (newData shown)
      (told : ∃ more, shown = endpoint.handler.shown ++ more ∧ ∀ entry ∈ more, entry.source = none)
      (job : endpoint.jobs.lookup commandId = some parent) :
      Receipt endpoint ⟨remoteId,.editRequest commandId editId name data⟩
        { endpoint.changed fun handler => { handler with shown } with
          sent := endpoint.sent ++ [⟨parent.val,.finishEdit editId newData⟩] }
  | gathered (remoteId id data endOffset out) (known : id ∈ endpoint.pipes)
      (found : endpoint.handler.gatheringOutput.lookup ⟨id⟩ = some out) :
      Receipt endpoint ⟨remoteId,.pipe ⟨id,.data data endOffset⟩⟩ (endpoint.changed fun handler =>
        { handler with gatheringOutput := handler.gatheringOutput.insert ⟨id⟩ (out ++ data) })
  | shown (remoteId id data endOffset stream) (known : id ∈ endpoint.pipes)
      (absent : endpoint.handler.gatheringOutput.lookup ⟨id⟩ = none) :
      Receipt endpoint ⟨remoteId,.pipe ⟨id,.data data endOffset⟩⟩ (endpoint.changed fun handler =>
        { handler with shown := handler.shown ++ [⟨stream,some ⟨id⟩,data⟩] })
  | finished (remoteId id endOffset out) (known : id ∈ endpoint.pipes)
      (found : endpoint.handler.gatheringOutput.lookup ⟨id⟩ = some out) :
      Receipt endpoint ⟨remoteId,.pipe ⟨id,.closed endOffset⟩⟩ (endpoint.changed fun handler => { handler with
        waitingForEof := handler.waitingForEof.erase ⟨id⟩
        gatheringOutput := handler.gatheringOutput.erase ⟨id⟩
        finishedOutput := handler.finishedOutput.insert ⟨id⟩ out })
  | closed (remoteId id endOffset) (known : id ∈ endpoint.pipes)
      (absent : endpoint.handler.gatheringOutput.lookup ⟨id⟩ = none) :
      Receipt endpoint ⟨remoteId,.pipe ⟨id,.closed endOffset⟩⟩ (endpoint.changed fun handler =>
        { handler with waitingForEof := handler.waitingForEof.erase ⟨id⟩ })

theorem data_receipt {remoteId id : Nat} {data : Bytes} {endOffset : Nat} (known : id ∈ endpoint.pipes)
    (ok : StackedRemotes.pipe terminal ⟨id⟩ (.data data endOffset) endpoint = .ok (.ok (),next)) :
    Receipt endpoint ⟨remoteId,.pipe ⟨id,.data data endOffset⟩⟩ next := by
  unfold StackedRemotes.pipe at ok
  simp only [get_bind] at ok
  cases gathering : endpoint.handler.gatheringOutput.lookup ⟨id⟩ with
  | some out =>
    rw [gathering] at ok
    obtain ⟨_,rfl⟩ := Prod.mk.inj (Except.ok.inj ok)
    exact .gathered remoteId id data endOffset out known gathering
  | none =>
    have printed (stream : Stream) (ok : (do
        Action.propagate terminal.writeAll
        StackedRemotes.print stream (some ⟨id⟩) data : Shell Unit) endpoint = .ok (.ok (),next)) :
        Receipt endpoint ⟨remoteId,.pipe ⟨id,.data data endOffset⟩⟩ next := by
      obtain ⟨_,_,written,last⟩ := bind_ok.mp ok
      obtain ⟨_,rfl⟩ := Prod.mk.inj (Except.ok.inj written)
      obtain ⟨_,rfl⟩ := Prod.mk.inj (Except.ok.inj last)
      exact .shown remoteId id data endOffset stream known gathering
    rw [gathering] at ok
    simp only at ok
    split at ok
    · exact printed .stdout ok
    · split at ok
      · exact printed .stderr ok
      · cases ok

theorem closed_receipt (terminal : Terminal) {remoteId id endOffset : Nat} (known : id ∈ endpoint.pipes)
    (ok : StackedRemotes.pipe terminal ⟨id⟩ (.closed endOffset) endpoint = .ok (.ok (),next)) :
    Receipt endpoint ⟨remoteId,.pipe ⟨id,.closed endOffset⟩⟩ next := by
  obtain ⟨_,_,updated,rest⟩ := bind_ok.mp ok
  obtain ⟨_,rfl⟩ := Prod.mk.inj (Except.ok.inj updated)
  rw [get_bind] at rest
  cases gathering : endpoint.handler.gatheringOutput.lookup ⟨id⟩ with
  | some out =>
    rw [gathering] at rest
    obtain ⟨_,rfl⟩ := Prod.mk.inj (Except.ok.inj rest)
    exact .finished remoteId id endOffset out known gathering
  | none =>
    rw [gathering] at rest
    obtain ⟨_,rfl⟩ := Prod.mk.inj (Except.ok.inj rest)
    exact .closed remoteId id endOffset known gathering

theorem edit_receipt {remoteId editId : Nat} {commandId : ProcessId} {name : String} {data : Bytes}
    (ok : StackedRemotes.editRequest terminal trans editId commandId name data endpoint = .ok (.ok (),next)) :
    Receipt endpoint ⟨remoteId,.editRequest commandId editId name data⟩ next := by
  obtain ⟨_,_,printed,rest⟩ := bind_ok.mp ok
  obtain ⟨_,rfl⟩ := Prod.mk.inj (Except.ok.inj (StackedRemotes.println_ok.mp printed).2)
  obtain ⟨taken,_,written,rest₁⟩ := bind_ok.mp rest
  obtain ⟨_,rfl⟩ := Prod.mk.inj (Except.ok.inj written)
  obtain ⟨_,_,printed',rest₂⟩ := bind_ok.mp rest₁
  obtain ⟨_,rfl⟩ := Prod.mk.inj (Except.ok.inj printed')
  obtain ⟨newData,_,edited,last⟩ := bind_ok.mp rest₂
  obtain ⟨_,rfl⟩ := Terminal.edit_ok.mp edited
  obtain ⟨parent,job,_,rfl⟩ := Endpoint.finishEdit_ok last
  refine .edited remoteId commandId editId name data parent newData _ ⟨[_,_],List.append_assoc _ _ _,?_⟩ job
  intro entry member
  rcases List.mem_pair.mp member with rfl | rfl <;> rfl

theorem receive_receipt {msg : Response}
    (ok : Endpoint.receive (StackedRemotes.handler terminal trans) msg endpoint = .ok (.ok (),next)) :
    Receipt endpoint msg next := by
  obtain ⟨remoteId,message⟩ := msg
  cases message with
  | remoteReady info =>
    unfold Endpoint.receive StackedRemotes.handler StackedRemotes.remoteReady at ok
    simp only [get_bind] at ok
    obtain ⟨waiting,found,rest⟩ := lift_bind_ok.mp ok
    obtain ⟨_,same,rest₁⟩ := lift_bind_ok.mp rest
    obtain ⟨_,rfl⟩ := Prod.mk.inj (Except.ok.inj rest₁)
    obtain rfl := (Outcome.assert_ok _ _).mp same
    exact .ready remoteId info ((Outcome.expect_ok _ _ _).mp found)
  | commandDone id exitCode =>
    unfold Endpoint.receive StackedRemotes.handler StackedRemotes.commandDone at ok
    simp only [get_bind] at ok
    obtain ⟨_,listed,rest⟩ := lift_bind_ok.mp ok
    obtain ⟨_,rfl⟩ := Prod.mk.inj (Except.ok.inj rest)
    exact .done remoteId id exitCode ((Outcome.assert_ok _ _).mp listed)
  | directoryListing => cases ok
  | editRequest commandId editId name data => exact edit_receipt ok
  | pipe envelope =>
    obtain ⟨id,msg⟩ := envelope
    unfold Endpoint.receive at ok
    simp only [get_bind] at ok
    obtain ⟨_,asserted,rest⟩ := lift_bind_ok.mp ok
    have known := (Outcome.assert_ok _ _).mp asserted
    cases msg with
    | data data endOffset => exact data_receipt known rest
    | closed endOffset => exact closed_receipt terminal known rest
    | beginRead => cases rest
    | read => cases rest

end Nak
