import Nak.Lines
import Nak.Receipts

/-! The turns of the loop that begin no line: what they send, and what they do to the pipes
the frontend waits for, gathers and shows. -/
namespace Nak
open Library Action

def PipeEnvelope.dataFor (pipe : GenericPipe) (envelope : PipeEnvelope) : Bytes :=
  match envelope.msg with
  | .data data _ => if envelope.id = pipe.val then data else []
  | _ => []

def RemoteResponse.envelope? : RemoteResponse → Option PipeEnvelope
  | .pipe envelope => some envelope
  | _ => none

def carried (pipe : GenericPipe) (envelopes : List PipeEnvelope) : Bytes :=
  envelopes.flatMap (PipeEnvelope.dataFor pipe)

def shownFrom (pipe : GenericPipe) (shown : List Shown) : Bytes :=
  shown.flatMap fun entry => if entry.source = some pipe then entry.data else []

theorem shownFrom_append (pipe : GenericPipe) (shown more : List Shown) :
    shownFrom pipe (shown ++ more) = shownFrom pipe shown ++ shownFrom pipe more := List.flatMap_append ..

theorem carried_append (pipe : GenericPipe) (envelopes more : List PipeEnvelope) :
    carried pipe (envelopes ++ more) = carried pipe envelopes ++ carried pipe more := List.flatMap_append ..

def PipeEnvelope.Closes (envelope : PipeEnvelope) (pipe : GenericPipe) : Prop :=
  envelope.id = pipe.val ∧ ∃ endOffset, envelope.msg = .closed endOffset

namespace Shell
variable {inputs : Inputs} {trans : Transport Error} {terminal : Terminal}
variable {endpoint next start : Endpoint StackedRemotes}

def Idle (request : Request) : Prop :=
  (∃ id, request.message = .cancelCommand id) ∨ ∃ editId data, request.message = .finishEdit editId data

structure Unbegun (start next : Endpoint StackedRemotes) : Prop where
  ids : next.ids = start.ids
  sent : ∃ more, next.sent = start.sent ++ more ∧ ∀ request ∈ more, Idle request

theorem Unbegun.same (ids : next.ids = start.ids) (sent : next.sent = start.sent) : Unbegun start next :=
  ⟨ids,[],by rw [sent,List.append_nil],by simp⟩

/-- What handling a response does to the pipes. -/
structure Receives (response : RemoteResponse) (start next : Endpoint StackedRemotes) : Prop where
  unbegun : Unbegun start next
  eof : ∀ pipe ∈ start.handler.waitingForEof, pipe ∈ next.handler.waitingForEof ∨
    ∃ envelope, response = .pipe envelope ∧ envelope.Closes pipe
  gathered : ∀ pipe, start.handler.gatheringOutput.lookup pipe = none →
    next.handler.gatheringOutput.lookup pipe = none
  shown : ∀ pipe, start.handler.gatheringOutput.lookup pipe = none →
    shownFrom pipe next.handler.shown = shownFrom pipe start.handler.shown ++
      carried pipe response.envelope?.toList

private theorem receives_other {response : RemoteResponse} (unbegun : Unbegun start next)
    (other : response.envelope? = none) (eof : next.handler.waitingForEof = start.handler.waitingForEof)
    (gathered : next.handler.gatheringOutput = start.handler.gatheringOutput)
    (shown : ∀ pipe, shownFrom pipe next.handler.shown = shownFrom pipe start.handler.shown) :
    Receives response start next where
  unbegun := unbegun
  eof pipe member := Or.inl (eof ▸ member)
  gathered pipe absent := gathered ▸ absent
  shown := by
    intro pipe _
    rw [shown,other]
    simp [carried]

private theorem carried_other {pipe : GenericPipe} {id endOffset : Nat} {data : Bytes} (different : pipe ≠ ⟨id⟩) :
    carried pipe (RemoteResponse.envelope? (.pipe ⟨id,.data data endOffset⟩)).toList = [] := by
  have value : id ≠ pipe.val := fun same => different (congrArg GenericPipe.mk same.symm)
  simp [carried,RemoteResponse.envelope?,PipeEnvelope.dataFor,value]

private theorem closed_eof {id endOffset : Nat} {before after : Finset GenericPipe} (same : after = before.erase ⟨id⟩)
    (pipe : GenericPipe) (member : pipe ∈ before) : pipe ∈ after ∨ ∃ envelope : PipeEnvelope,
      RemoteResponse.pipe ⟨id,.closed endOffset⟩ = .pipe envelope ∧ envelope.Closes pipe := by
  by_cases equal : pipe = ⟨id⟩
  · exact Or.inr ⟨_,rfl,by rw [equal],endOffset,rfl⟩
  · exact Or.inl (by rw [same]; exact Finset.mem_erase.mpr ⟨equal,member⟩)

/-- Data goes to the gathered output of its pipe or is shown, and to no other pipe. -/
theorem Receipt.receives {msg : Response} (receipt : Receipt endpoint msg next) :
    Receives msg.message endpoint next := by
  have silent (pipe : GenericPipe) (id endOffset : Nat) :
      carried pipe (RemoteResponse.envelope? (.pipe ⟨id,.closed endOffset⟩)).toList = [] := by
    simp [carried,RemoteResponse.envelope?,PipeEnvelope.dataFor]
  cases receipt with
  | ready => exact receives_other (.same rfl rfl) rfl rfl rfl fun _ => rfl
  | done => exact receives_other (.same rfl rfl) rfl rfl rfl fun _ => rfl
  | edited remoteId commandId editId name data parent newData shown told job =>
    obtain ⟨more,rfl,sourceless⟩ := told
    refine receives_other ⟨rfl,_,rfl,?_⟩ rfl rfl rfl ?_
    · intro request member
      rw [List.mem_singleton.mp member]
      exact Or.inr ⟨editId,newData,rfl⟩
    · intro pipe
      change shownFrom pipe (endpoint.handler.shown ++ more) = _
      rw [shownFrom_append,List.append_right_eq_self,shownFrom,List.flatMap_eq_nil_iff]
      intro entry member
      rw [sourceless entry member,if_neg nofun]
  | gathered remoteId id data endOffset out known found =>
    have apart (pipe : GenericPipe) (absent : endpoint.handler.gatheringOutput.lookup pipe = none) : pipe ≠ ⟨id⟩ := by
      intro same
      rw [same,found] at absent
      cases absent
    refine ⟨.same rfl rfl,fun pipe member => Or.inl member,?_,?_⟩
    · intro pipe absent
      exact (Finmap.lookup_insert_of_ne _ (apart pipe absent)).trans absent
    · intro pipe absent
      rw [carried_other (apart pipe absent),List.append_nil]
      rfl
  | shown remoteId id data endOffset stream known absent =>
    refine ⟨.same rfl rfl,fun pipe member => Or.inl member,fun _ absent => absent,?_⟩
    intro pipe _
    change shownFrom pipe (endpoint.handler.shown ++ [⟨stream,some ⟨id⟩,data⟩]) = _
    rw [shownFrom_append]
    by_cases same : pipe = ⟨id⟩
    · subst same
      simp [shownFrom,carried,RemoteResponse.envelope?,PipeEnvelope.dataFor]
    · have different : (⟨id⟩ : GenericPipe) ≠ pipe := fun equal => same equal.symm
      rw [carried_other same]
      simp [shownFrom,different]
  | finished remoteId id endOffset out known found =>
    refine ⟨.same rfl rfl,closed_eof rfl,?_,?_⟩
    · intro pipe absent
      change (endpoint.handler.gatheringOutput.erase ⟨id⟩).lookup pipe = none
      rw [FiniteMap.lookup_erase_if,absent,ite_self]
    · intro pipe _
      rw [silent,List.append_nil]
      rfl
  | closed remoteId id endOffset known absent =>
    refine ⟨.same rfl rfl,closed_eof rfl,fun _ absent => absent,?_⟩
    intro pipe _
    rw [silent,List.append_nil]
    rfl

theorem receive_ok {response : RemoteResponse} {turn : Turn}
    (ok : receive inputs ⟨0,response⟩ endpoint = .ok (.ok turn,next)) : Receives response endpoint next := by
  obtain ⟨_,_,received,last⟩ := bind_ok.mp ok
  obtain ⟨_,rfl⟩ := pure_ok.mp last
  exact Receipt.receives (receive_receipt received)

theorem cancelAll_ok {order : List ProcessId} (ok : cancelAll trans order endpoint = .ok (.ok (),next)) :
    Unbegun endpoint next ∧ next.handler = endpoint.handler := by
  induction order generalizing endpoint with
  | nil =>
    obtain ⟨_,rfl⟩ := pure_ok.mp ok
    exact ⟨.same rfl rfl,rfl⟩
  | cons id order ih =>
    obtain ⟨_,_,cancelled,rest⟩ := bind_ok.mp ok
    obtain ⟨parent,_,_,rfl⟩ := Endpoint.closeProcess_ok cancelled
    obtain ⟨⟨ids,more,sent,idle⟩,handler⟩ := ih rest
    refine ⟨⟨ids,⟨parent.val,.cancelCommand id⟩ :: more,?_,?_⟩,handler⟩
    · rw [sent,List.append_assoc,List.singleton_append]
    · intro request member
      rcases List.mem_cons.mp member with same | later
      · exact Or.inl ⟨id,by rw [same]⟩
      · exact idle request later

theorem readLine_begins {line : Line} (ok : readLine inputs start = .ok (.ok (.begun line),next)) :
    Begins line start next := by
  obtain ⟨text,middle,prompted,rest⟩ := bind_ok.mp ok
  obtain ⟨plan,_,rest₁⟩ := lift_bind_ok.mp rest
  obtain ⟨got,_,propagated,rest₂⟩ := bind_ok.mp rest₁
  obtain ⟨_,rfl⟩ := Prod.mk.inj (Except.ok.inj propagated)
  obtain ⟨done,_,begun,last⟩ := bind_ok.mp rest₂
  cases done with
  | none => cases last
  | some other =>
    obtain ⟨same,rfl⟩ := pure_ok.mp last
    obtain rfl := Turn.begun.inj same
    have begins := beginLine_begins begun
    obtain ⟨kept,ids,sent⟩ := prompt_ok prompted
    have sound := begins.sound
    have asked := begins.sent
    rw [ids] at sound asked
    rw [sent] at asked
    refine ⟨sound,asked,?_,begins.waitingFor,?_,?_,?_⟩
    · exact begins.waitingForRemote.trans kept.waitingForRemote
    · exact begins.waitingForEof.trans (by rw [kept.waitingForEof])
    · intro pipe
      rw [begins.gatheringOutput,kept.gatheringOutput]
    · exact begins.shown.trans kept.shown

end Shell
end Nak
