import Nak.Library.Transition
import Nak.WorldLedger

/-! The frontend's view of the whole system. Its backend answers only what was begun, so what
holds of every session with a conforming backend holds of the system. -/
namespace Nak
open Library Action

theorem mem_closedReads {received : List RemoteResponse} {id : Nat} (closed : ⟨id⟩ ∈ closedReads received) :
    ∃ envelope ∈ received.filterMap RemoteResponse.envelope?, envelope.Closes ⟨id⟩ := by
  rw [closedReads_envelopes] at closed
  obtain ⟨⟨other,msg⟩,member,closes⟩ := List.mem_filterMap.mp closed
  cases msg with
  | closed endOffset =>
    obtain rfl := GenericPipe.mk.inj (Option.some.inj closes)
    exact ⟨_,member,rfl,endOffset,rfl⟩
  | _ => cases closes

namespace World
variable {world after : World} {move : Move} {info : RemoteInfo} {pid : ProcessId} {pipe : GenericPipe}

/-- The session as the frontend sees it: the responses that it has taken. -/
def session (world : World) : Session := ⟨world.frontend,world.output.take world.received⟩

theorem session_awaits : world.session.Awaits ↔ ¬world.AtPrompt := by
  constructor
  · intro awaits atPrompt
    rcases awaits with waiting | busy
    · rw [session,atPrompt.remote] at waiting
      cases waiting
    · exact busy ⟨Finset.card_eq_zero.mpr atPrompt.processes,Finset.card_eq_zero.mpr atPrompt.eofs⟩
  · intro waits
    by_cases ready : world.frontend.handler.waitingForRemote.isSome
    · exact Or.inl ready
    · exact Or.inr (not_atPrompt waits ready)

theorem turn_handled {inputs : Inputs} {frontend : Endpoint StackedRemotes} {turn : Turn} (waits : ¬world.AtPrompt)
    (turned : Shell.turn inputs world.frontend = .ok (.ok turn,frontend)) : turn = .handled := by
  unfold Shell.turn at turned
  rw [get_bind] at turned
  split at turned
  · obtain ⟨event,_,_,rest⟩ := bind_ok.mp turned
    cases event with
    | remote msg =>
      obtain ⟨_,_,_,last⟩ := bind_ok.mp rest
      exact (pure_ok.mp last).1.symm
    | ctrlC => cases rest
    | key => cases rest
  · rename_i ready
    rw [if_neg (not_atPrompt waits ready)] at turned
    obtain ⟨event,_,_,rest⟩ := bind_ok.mp turned
    cases event with
    | remote msg =>
      obtain ⟨_,_,_,last⟩ := bind_ok.mp rest
      exact (pure_ok.mp last).1.symm
    | ctrlC =>
      obtain ⟨_,_,_,last⟩ := bind_ok.mp rest
      exact (pure_ok.mp last).1.symm
    | key => cases rest

theorem turn_remote {inputs : Inputs} {msg : Response} (waits : ¬world.AtPrompt)
    (recv : inputs.recv = .ok (.remote msg)) :
    Shell.turn inputs world.frontend = Shell.receive inputs msg world.frontend := by
  unfold Shell.turn
  rw [get_bind,recv]
  split
  · rfl
  · rename_i ready
    rw [if_neg (not_atPrompt waits ready)]
    rfl

theorem Permits.introduced {before : List RemoteResponse} {response : RemoteResponse}
    (permits : ExecInternal.Permits before response) : ExecInternal.Permits (.remoteReady info :: before) response := by
  match response, permits with
  | .commandDone pid _, permits => exact permits
  | .editRequest pid _ _ _, permits => exact permits
  | .pipe ⟨_,.data _ _⟩, _ => exact trivial
  | .pipe ⟨_,.closed _⟩, _ => exact trivial

/-- A response is the introduction, or it is permitted after those before it. -/
theorem Ledger.permits (ledger : Ledger world) {response : RemoteResponse}
    (found : world.output[world.received]? = some response) :
    (response = .remoteReady world.info ∧ world.session.received = []) ∨
      ExecInternal.Permits world.session.received response := by
  unfold session
  generalize world.received = received at found ⊢
  cases received with
  | zero => exact Or.inl ⟨(Option.some.inj found).symm,rfl⟩
  | succ received =>
    right
    change (ExecInternal.responses world.exec)[received]? = some response at found
    apply Permits.introduced
    refine ledger.speaking.permitted _ _ ((ExecInternal.responses world.exec).drop (received + 1)) ?_
    obtain ⟨bound,rfl⟩ := List.getElem?_eq_some_iff.mp found
    rw [← List.drop_eq_getElem_cons bound]
    exact (List.take_append_drop received (ExecInternal.responses world.exec)).symm

theorem Ledger.begun (ledger : Ledger world) (owes : 0 < ExecInternal.tally pid world.exec) :
    pid ∈ begunCommands world.frontend.sent := by
  have share := ledger.commandShare pid
  rw [commandShare_tally] at share
  rw [ledger.commands]
  exact List.count_pos_iff.mp (by omega)

theorem Ledger.reading (ledger : Ledger world) (begun : world.ReadBegun pipe) :
    pipe ∈ begunReads world.frontend.sent := by
  obtain ⟨handle,caused⟩ := begun
  have started : 0 < ((world.exec.effects.filterMap Effect.reader?).map Prod.fst).count pipe :=
    List.count_pos_iff.mpr (List.mem_map.mpr ⟨(pipe,handle),List.mem_filterMap.mpr ⟨_,caused,rfl⟩,rfl⟩)
  have share := ledger.readShare pipe
  rw [ledger.threads] at started
  rw [World.readShare] at share
  rw [ledger.reads]
  exact List.count_pos_iff.mp (by omega)

theorem received_split {response : RemoteResponse} (found : world.output[world.received]? = some response) :
    ∃ later, world.output = world.session.received ++ response :: later := by
  obtain ⟨bound,rfl⟩ := List.getElem?_eq_some_iff.mp found
  refine ⟨world.output.drop (world.received + 1),?_⟩
  rw [← List.drop_eq_getElem_cons bound]
  exact (List.take_append_drop ..).symm

theorem reads_on (ledger : Ledger world) (streaming : Streaming world) {envelope : PipeEnvelope}
    (found : world.output[world.received]? = some (.pipe envelope)) : world.session.Reading ⟨envelope.id⟩ := by
  obtain ⟨later,split⟩ := received_split found
  have whole : world.envelopes = world.session.received.filterMap RemoteResponse.envelope? ++ envelope ::
      (later.filterMap RemoteResponse.envelope? ++ world.events.filterMap ExecEvent.envelope?) := by
    rw [envelopes,split,List.filterMap_append,List.append_assoc]
    rfl
  constructor
  · refine ledger.reading (streaming.told envelope ?_)
    rw [whole]
    exact List.mem_append_right _ (List.mem_cons_self ..)
  · intro closed
    obtain ⟨closing,member,closes⟩ := mem_closedReads closed
    exact streaming.going _ envelope _ whole closing member closes

theorem answers (ledger : Ledger world) (streaming : Streaming world) {response : RemoteResponse}
    (found : world.output[world.received]? = some response) : world.session.Answers ⟨0,response⟩ := by
  have member := List.mem_of_getElem? found
  have owed (pid : ProcessId) (code : Int) (same : response = .commandDone pid code) :
      0 < ExecInternal.tally pid world.exec := by
    have reported : pid ∈ reportedCommands world.output := List.mem_filterMap.mpr ⟨response,member,by rw [same]; rfl⟩
    have counted := List.count_pos_iff.mpr reported
    have same : (reportedCommands world.output).count pid = ExecInternal.reports pid world.exec :=
      ExecInternal.reported_responses pid world.exec
    unfold ExecInternal.tally
    omega
  rcases ledger.permits found with ⟨rfl,none⟩ | permits
  · exact ⟨rfl,none⟩
  · match response, permits with
    | .commandDone pid code, permits => exact ⟨ledger.begun (owed pid code rfl),permits⟩
    | .editRequest pid editId name data, permits =>
      have asked : .editRequest pid editId name data ∈ ExecInternal.responses world.exec := by
        rcases List.mem_cons.mp member with same | later
        · cases same
        · exact later
      exact ⟨ledger.begun (ledger.speaking.asked pid editId name data asked),permits⟩
    | .pipe ⟨id,.data data endOffset⟩, _ => exact reads_on ledger streaming found
    | .pipe ⟨id,.closed endOffset⟩, _ => exact reads_on ledger streaming found

theorem next_session {inputs : Inputs} {turn : Turn} {frontend : Endpoint StackedRemotes}
    (ordered : world.session.Ordered inputs) (going : turn ≠ .closed)
    (turned : Shell.turn inputs world.frontend = .ok (.ok turn,frontend)) (same : after.frontend = frontend)
    (received : after.session.received = world.session.received ++ world.session.takes inputs) :
    world.session.next inputs = .ok after.session := by
  have looped : Shell.oneLoop inputs world.session.endpoint = .ok (.ok true,frontend) := by
    refine bind_ok.mpr ⟨turn,frontend,turned,?_⟩
    cases turn with
    | closed => exact absurd rfl going
    | handled => rfl
    | begun line => rfl
  obtain rfl := same
  refine Outcome.bind_ok.mpr ⟨(),(Outcome.assert_ok _ _).mpr ordered,?_⟩
  rw [looped]
  change Except.ok _ = _
  rw [← received]
  rfl

noncomputable def receiveInputs (world : World) (terminal : Terminal) (response : RemoteResponse) : Inputs :=
  ⟨terminal,fun _ => .ok (),.ok (.remote ⟨0,response⟩),fun _ => .ok (.error ⟨.other,""⟩),
    world.frontend.handler.waitingFor.toList⟩

def interruptInputs (order : List ProcessId) :
    Inputs := ⟨.working,fun _ => .ok (),.ok .ctrlC,fun _ => .error .explicit,order⟩

inductive Gives (world : World) : Move → Inputs → Prop
  | prompt (getCommand) : Gives world (.prompt getCommand) (promptInputs getCommand)
  | receive (terminal response) (waits : ¬world.AtPrompt) (found : world.output[world.received]? = some response) :
      Gives world (.receive terminal) (world.receiveInputs terminal response)
  | interrupt (order) (waits : ¬world.AtPrompt) : Gives world (.interrupt order) (interruptInputs order)

theorem prompt_session {getCommand : String → Outcome (Except Error Plan)}
    (ok : world.next (.prompt getCommand) = .ok after) :
    world.session.next (promptInputs getCommand) = .ok after.session := by
  obtain ⟨line,frontend,atPrompt,turned,shape⟩ := prompt_turn ok
  have going : Turn.begun line ≠ .closed := nofun
  refine next_session ⟨List.nodup_nil,atPrompt.processes.symm⟩ going turned (by rw [shape]) ?_
  rw [shape]
  exact (List.append_nil _).symm

theorem interrupt_session {order : List ProcessId} (ok : world.next (.interrupt order) = .ok after) :
    ¬world.AtPrompt ∧ world.session.next (interruptInputs order) = .ok after.session := by
  obtain ⟨_,guard,rest⟩ := Outcome.bind_ok.mp ok
  obtain ⟨⟨turn,_⟩,turned,last⟩ := Outcome.bind_ok.mp rest
  obtain ⟨frontend,taken,rfl⟩ := turn_ok turned
  obtain rfl := Except.ok.inj last
  obtain ⟨waits,ordered⟩ := (Outcome.assert_ok _ _).mp guard
  have going : turn ≠ .closed := by
    rw [turn_handled waits taken]
    nofun
  exact ⟨waits,next_session ordered going taken rfl (List.append_nil _).symm⟩

theorem receive_session {terminal : Terminal} (ok : world.next (.receive terminal) = .ok after) :
    ¬world.AtPrompt ∧ ∃ response, world.output[world.received]? = some response ∧
      world.session.next (world.receiveInputs terminal response) = .ok after.session := by
  obtain ⟨_,guard,rest⟩ := Outcome.bind_ok.mp ok
  obtain ⟨response,unwrapped,rest⟩ := Outcome.bind_ok.mp rest
  obtain ⟨⟨turn,_⟩,turned,last⟩ := Outcome.bind_ok.mp rest
  obtain ⟨frontend,taken,rfl⟩ := turn_ok turned
  obtain rfl := Except.ok.inj last
  have waits := (Outcome.assert_ok _ _).mp guard
  have found := (Outcome.unwrap_ok _ _).mp unwrapped
  refine ⟨waits,response,found,?_⟩
  rw [turn_remote waits rfl] at taken
  have going : turn ≠ .closed := by
    obtain ⟨_,_,_,last⟩ := bind_ok.mp taken
    rw [← (pure_ok.mp last).1]
    nofun
  have again : Shell.turn (world.receiveInputs terminal response) world.frontend = .ok (.ok turn,frontend) := by
    rw [turn_remote waits rfl]
    exact taken
  refine next_session ⟨Finset.nodup_toList _,Finset.toList_toFinset _⟩ going again rfl ?_
  rw [Session.takes_message (session_awaits.mpr waits) rfl]
  change world.output.take (world.received + 1) = _
  rw [List.take_add_one,found]
  rfl

/-- A move is a turn of the session, or the frontend sees nothing of it. -/
theorem next_seen (relayed : Relayed world) (traced : Traced world) (ledger : Ledger world)
    (streaming : Streaming world)
    (ok : world.next move = .ok after) : after.session = world.session ∨
    ∃ inputs, Gives world move inputs ∧ world.session.next inputs = .ok after.session ∧
      world.session.Conforms inputs := by
  have still (frontend : after.frontend = world.frontend) (received : after.received = world.received)
      (more : List RemoteResponse) (output : after.output = world.output ++ more) : after.session = world.session := by
    rw [session,session,frontend,received,output,List.take_append_of_le_length relayed.received]
  have moved := next_moves ok
  cases moved with
  | prompt getCommand line frontend begins =>
    exact Or.inr ⟨_,.prompt getCommand,prompt_session ok,trivial⟩
  | receive terminal response frontend found receives =>
    obtain ⟨waits,response,found,taken⟩ := receive_session ok
    exact Or.inr ⟨_,.receive terminal response waits found,taken,fun _ => answers ledger streaming found⟩
  | interrupt order frontend unbegun same =>
    obtain ⟨waits,taken⟩ := interrupt_session ok
    exact Or.inr ⟨_,.interrupt order waits,taken,trivial⟩
  | execute os event events exec found handled =>
    have handled := ExecInternal.handle_handled traced.inv traced.named handled
    exact Or.inl (still rfl rfl _ (output_grows rfl handled.appended))
  | write child stream data alive some =>
    obtain ⟨written,unsent,shape⟩ := world.put_shape (outputOf child stream) data
    rw [shape]
    exact Or.inl rfl
  | pour writer size listed some enough =>
    obtain ⟨written,unsent,shape⟩ := world.put_shape writer.1 (writer.2.take size)
    rw [shape]
    exact Or.inl rfl
  | _ => exact Or.inl rfl

/-- Everything that the simulation rests on. -/
structure Coherent (world : World) : Prop where
  traced : Traced world
  relayed : Relayed world
  streaming : Streaming world
  ledger : Ledger world

theorem reachable_coherent (reachable : (system info).Reachable world) : Coherent world := by
  refine reachable.invariant Coherent ?_ ?_
  · intro _ same
    obtain rfl := same
    exact ⟨.start,.start,.start,.start⟩
  · intro world move after coherent taken
    obtain ⟨traced,relayed,streaming,ledger⟩ := coherent
    have moves := next_moves taken
    exact ⟨traced.moves moves,relayed.moves traced moves,streaming.moves traced moves,ledger.moves traced taken⟩

theorem Coherent.seen (coherent : Coherent world) (ok : world.next move = .ok after) :
    after.session = world.session ∨
    ∃ inputs, Gives world move inputs ∧ world.session.next inputs = .ok after.session ∧ world.session.Conforms inputs :=
  next_seen coherent.relayed coherent.traced coherent.ledger coherent.streaming ok

/-- The backend conforms: to its frontend, each session is one with a conforming backend. -/
theorem backend_conforms (info : RemoteInfo) :
    Simulates (system info) (Session.system.restrict Session.Conforms) session where
  initial world start := by
    change world.session = Session.new
    obtain rfl : world = new info := start
    rfl
  step trace world move after run taken := by
    refine ((reachable_coherent run.reachable).seen taken).imp_right fun seen => ?_
    obtain ⟨inputs,_,stepped,conforms⟩ := seen
    exact ⟨inputs,stepped,conforms⟩

end World
end Nak
