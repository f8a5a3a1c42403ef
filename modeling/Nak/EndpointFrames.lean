import Nak.EndpointRules

/-! What leaves the remotes and the jobs of the endpoint alone. -/
namespace Nak.Frames
open Library Action

def Same (endpoint next : Endpoint StackedRemotes) : Prop :=
  next.remotes = endpoint.remotes ∧ next.jobs = endpoint.jobs

instance : IsPreorder (Endpoint StackedRemotes) Same where
  refl _ := ⟨rfl,rfl⟩
  trans _ _ _ first second := ⟨second.1.trans first.1,second.2.trans first.2⟩

variable {trans : Transport Error}

/-- The relation looks neither at what was sent nor at the handler. -/
structure Spared (relates : Endpoint StackedRemotes → Endpoint StackedRemotes → Prop) : Prop where
  sent : ∀ (endpoint : Endpoint StackedRemotes) (request : Request),
    relates endpoint { endpoint with sent := endpoint.sent ++ [request] }
  handler : ∀ (endpoint : Endpoint StackedRemotes) (change : StackedRemotes → StackedRemotes),
    relates endpoint { endpoint with handler := change endpoint.handler }

namespace Spared
variable {relates : Endpoint StackedRemotes → Endpoint StackedRemotes → Prop} [IsPreorder _ relates]

theorem send (spared : Spared relates) (remote : RemoteId) (message : RemoteRequest) :
    Keeps relates (Endpoint.send trans remote message) :=
  (Keeps.propagate _).bind fun _ => .modify _ fun _ => spared.sent _ _

omit [IsPreorder _ relates] in
theorem update (spared : Spared relates) (change : StackedRemotes → StackedRemotes) :
    Keeps relates (StackedRemotes.update change) := .modify _ fun _ => spared.handler _ _

theorem assertOpen (remote : RemoteId) : Keeps relates (Endpoint.assertOpen remote : Shell Unit) :=
  Keeps.get.bind fun _ => .lift _

theorem finishEdit (spared : Spared relates) (commandId : ProcessId) (editId : Nat) (data : Bytes) :
    Keeps relates (Endpoint.finishEdit trans commandId editId data) :=
  Keeps.get.bind fun _ => (Keeps.lift _).bind fun _ => (assertOpen _).bind fun _ => spared.send _ _

theorem println (spared : Spared relates) (terminal : Terminal) (text : String) :
    Keeps relates (StackedRemotes.println terminal text) :=
  (Keeps.lift _).bind fun _ => spared.update _

theorem edit (terminal : Terminal) (name : String) (data : Bytes) :
    Keeps relates (terminal.edit name data : Shell Bytes) where
  after ok := (Terminal.edit_ok.mp ok).2 ▸ Std.Refl.refl _

theorem pipe (spared : Spared relates) (terminal : Terminal) (id : GenericPipe) (message : PipeMessage) :
    Keeps relates (StackedRemotes.pipe terminal id message) := by
  cases message with
  | data data endOffset =>
    refine Keeps.get.bind fun endpoint => ?_
    have printed (stream : Stream) : Keeps relates (do
        Action.propagate terminal.writeAll
        StackedRemotes.print stream (some id) data : Shell Unit) :=
      (Keeps.propagate _).bind fun _ => spared.update _
    split
    · exact spared.update _
    · split
      · exact printed .stdout
      · split
        · exact printed .stderr
        · exact .panic _
  | closed endOffset =>
    refine (spared.update _).bind fun _ => Keeps.get.bind fun endpoint => ?_
    split
    · exact spared.update _
    · exact .pure _
  | beginRead => exact .panic _
  | read => exact .panic _

theorem receive (spared : Spared relates) (terminal : Terminal) (message : Response) :
    Keeps relates (Endpoint.receive (StackedRemotes.handler terminal trans) message) := by
  obtain ⟨remoteId,message⟩ := message
  cases message with
  | remoteReady info =>
    exact Keeps.get.bind fun _ => (Keeps.lift _).bind fun _ => (Keeps.lift _).bind fun _ => spared.update _
  | commandDone id exitCode => exact Keeps.get.bind fun _ => (Keeps.lift _).bind fun _ => spared.update _
  | directoryListing id items => exact .panic _
  | editRequest commandId editId name data =>
    exact (spared.println _ _).bind fun _ => (Keeps.propagate _).bind fun _ => (spared.update _).bind fun _ =>
      (edit _ _ _).bind fun _ => spared.finishEdit _ _ _
  | pipe envelope => exact Keeps.get.bind fun _ => (Keeps.lift _).bind fun _ => spared.pipe _ _ _

end Spared

theorem same_spared : Spared Same := ⟨fun _ _ => ⟨rfl,rfl⟩,fun _ _ => ⟨rfl,rfl⟩⟩

theorem nextId_same : Keeps Same (Endpoint.nextId : Shell Nat) :=
  Keeps.get.bind fun _ => (Keeps.modify _ fun _ => ⟨rfl,rfl⟩).bind fun _ => .pure _

theorem newPipe_same : Keeps Same (Endpoint.pipe : Shell (ReadPipe × WritePipe)) :=
  nextId_same.bind fun _ => (Keeps.modify _ fun _ => ⟨rfl,rfl⟩).bind fun _ => .pure _

private theorem openFile_same {α : Type} (remote : RemoteId) (message : Nat → RemoteRequest) (opened : Nat → α) :
    Keeps Same (do
      Endpoint.assertOpen remote
      let id ← Endpoint.nextId
      .modify fun endpoint => { endpoint with pipes := insert id endpoint.pipes }
      Endpoint.send trans remote (message id)
      pure (opened id) : Shell α) :=
  (Spared.assertOpen _).bind fun _ => nextId_same.bind fun _ => (Keeps.modify _ fun _ => ⟨rfl,rfl⟩).bind fun _ =>
    (same_spared.send _ _).bind fun _ => .pure _

theorem openOutputFile_same (remote : RemoteId) (path : String) :
    Keeps Same (Endpoint.openOutputFile trans remote path) := openFile_same _ _ _

theorem openInputFile_same (remote : RemoteId) (path : String) :
    Keeps Same (Endpoint.openInputFile trans remote path) := openFile_same _ _ _

end Nak.Frames
