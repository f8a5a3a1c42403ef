import Nak.ExecEdits
import Nak.WorldAccount
import Nak.WorldSession

/-! The edits on their way. An edit that the event loop waits for is in the request to the
frontend, in its answer, or in the event queue. -/
namespace Nak
open Library Action

def ExecEvent.answers? : ExecEvent → Option Nat
  | .editComplete editId _ => some editId
  | _ => none

def RemoteRequest.answers? : RemoteRequest → Option Nat
  | .finishEdit editId _ => some editId
  | _ => none

def RemoteResponse.asks? : RemoteResponse → Option Nat
  | .editRequest _ editId _ _ => some editId
  | _ => none

def answeredEdits (sent : List Request) : List Nat := sent.filterMap fun request => request.message.answers?

def askedEdits (received : List RemoteResponse) : List Nat := received.filterMap RemoteResponse.asks?

theorem answeredEdits_append (sent more : List Request) :
    answeredEdits (sent ++ more) = answeredEdits sent ++ answeredEdits more := List.filterMap_append ..

theorem askedEdits_append (received more : List RemoteResponse) :
    askedEdits (received ++ more) = askedEdits received ++ askedEdits more := List.filterMap_append ..

theorem askedEdits_responses (effects : List Effect) :
    askedEdits (effects.filterMap Effect.response?) = ExecInternal.editRequests effects := by
  rw [askedEdits,List.filterMap_filterMap]
  refine List.filterMap_congr fun effect _ => ?_
  cases effect with
  | sent response => cases response <;> rfl
  | _ => rfl

namespace ExecInternal
variable {os : Os} {exec next : ExecInternal} {event : ExecEvent} {pid : ProcessId}

def awaited (exec : ExecInternal) (editId : Nat) : Nat := if editId ∈ exec.waitingEdits then 1 else 0

/-- No id of an edit that is waited for is given out again. -/
def Fresh (exec : ExecInternal) : Prop := ∀ editId ∈ exec.waitingEdits, editId < exec.editIds.nextId

/-- Every edit that is waited for now was waited for before, or is asked for since. -/
structure Asking (exec next : ExecInternal) : Prop where
  fresh : Fresh exec → Fresh next
  counts : Fresh exec → ∃ more, next.effects = exec.effects ++ more ∧
    ∀ editId, next.awaited editId = exec.awaited editId + (editRequests more).count editId

instance : IsPreorder ExecInternal Asking where
  refl _ := ⟨id,fun _ => ⟨[],(List.append_nil _).symm,fun _ => rfl⟩⟩
  trans exec middle next first second := by
    refine ⟨second.fresh ∘ first.fresh,fun fresh => ?_⟩
    obtain ⟨more,effects,counts⟩ := first.counts fresh
    obtain ⟨rest,appended,counts'⟩ := second.counts (first.fresh fresh)
    refine ⟨more ++ rest,by rw [appended,effects,List.append_assoc],fun editId => ?_⟩
    rw [counts',counts,editRequests,editRequests,editRequests,List.filterMap_append,List.count_append,Nat.add_assoc]

theorem SameEdits.asking (same : SameEdits exec next) : Asking exec next := by
  obtain ⟨edits,ids,more,effects,none⟩ := same
  constructor
  · intro fresh
    rw [Fresh,edits,ids]
    exact fresh
  · refine fun _ => ⟨more,effects,fun editId => ?_⟩
    rw [none,awaited,edits]
    rfl

theorem AsksEdit.asking {path : String} (asks : AsksEdit pid path exec next) : Asking exec next := by
  obtain ⟨edits,ids,more,data,effects,none⟩ := asks
  constructor
  · intro fresh editId waits
    rw [edits] at waits
    rw [ids]
    rcases Finmap.mem_insert.mp waits with rfl | old
    · exact Nat.lt_succ_self _
    · exact Nat.lt_succ_of_lt (fresh editId old)
  · refine fun fresh => ⟨more ++ [.sent (.editRequest pid exec.editIds.nextId path data)],?_,fun editId => ?_⟩
    · rw [effects,List.append_assoc]
    rw [editRequests,List.filterMap_append,List.count_append,← editRequests,none,awaited,awaited,edits]
    by_cases same : editId = exec.editIds.nextId
    · have new : exec.editIds.nextId ∉ exec.waitingEdits := fun waits => absurd (fresh _ waits) (lt_irrefl _)
      subst same
      simp [Effect.editId?,new]
    · simp [Effect.editId?,same,Ne.symm same]

section Tasks
variable {task : Task ProcessId RunCmd} {tasks : List (Task ProcessId RunCmd)}

theorem processTask_asking (sends : ∀ response, os.send response = .ok ())
    (ok : processTask os task exec = .ok (.ok tasks,next)) : Asking exec next := by
  have shape := processTask_cases ok
  cases shape with
  | refused pid cmd => exact (report_sameEdits exec pid 1).asking
  | started pid cmd state middle ran quiet toRun =>
    cases run_edits sends ran with
    | same _ middle same =>
      have moved (machine) : SameEdits exec { middle with machine } := ⟨same.waitingEdits,same.editIds,same.effects⟩
      exact (moved _).asking
    | asks path middle asks =>
      have moved (machine) : AsksEdit pid path exec { middle with machine } :=
        ⟨asks.waitingEdits,asks.editIds,asks.effects⟩
      exact (moved _).asking
  | done pid cmd exitCode middle tasks machine ran quiet completed =>
    generalize same : (Except.ok (RunResult.alreadyDone exitCode) : Except Error RunResult) = result at ran
    cases run_edits sends ran with
    | same _ middle same =>
      have began : SameEdits exec { middle with machine } := ⟨same.waitingEdits,same.editIds,same.effects⟩
      exact IsTrans.trans _ _ _ began.asking (report_sameEdits _ pid 0).asking
    | asks => cases same
  | failed pid cmd e middle tasks machine after ran quiet completed closed silent =>
    generalize same : (Except.error e : Except Error RunResult) = result at ran
    cases run_edits sends ran with
    | same _ middle same =>
      have began : SameEdits exec { middle with machine } := ⟨same.waitingEdits,same.editIds,same.effects⟩
      have taking : Taking os pid SameEdits := sameEdits_taking
      have closing := (taking.pipeOutputAndClose cmd.pipes [] (bytes e.debug)).after closed
      exact IsTrans.trans _ _ _ (IsTrans.trans _ _ _ began.asking closing.asking) (report_sameEdits _ pid 1).asking
    | asks => cases same

theorem processTasks_asking (sends : ∀ response, os.send response = .ok ())
    (ok : processTasks os tasks exec = .ok (.ok (),next)) : Asking exec next :=
  processTasks_queue (fun _ => Asking exec)
    (fun _ _ _ _ _ asking ok => IsTrans.trans _ _ _ asking (processTask_asking sends ok)) (Std.Refl.refl exec) ok

end Tasks

theorem handle_asking (sends : ∀ response, os.send response = .ok ()) (fresh : Fresh exec)
    (ok : handle os event exec = .ok next) : Fresh next ∧ ∃ more, next.effects = exec.effects ++ more ∧
      ∀ editId, next.awaited editId + (if event.answers? = some editId then 1 else 0) =
        exec.awaited editId + (editRequests more).count editId := by
  have unanswered (asking : Asking exec next) (none : event.answers? = none) : Fresh next ∧ ∃ more,
      next.effects = exec.effects ++ more ∧
      ∀ editId, next.awaited editId + (if event.answers? = some editId then 1 else 0) =
        exec.awaited editId + (editRequests more).count editId := by
    obtain ⟨more,effects,counts⟩ := asking.counts fresh
    exact ⟨asking.fresh fresh,more,effects,fun editId => by simp [none,counts]⟩
  have begun (none : event.answers? = none) : Fresh next ∧ ∃ more, next.effects = exec.effects ++ more ∧
      ∀ editId, next.awaited editId + (if event.answers? = some editId then 1 else 0) =
        exec.awaited editId + (editRequests more).count editId := by
    obtain ⟨tasks,start,begins,processed⟩ := handle_begins ok
    refine unanswered ?_ none
    have rest := processTasks_asking sends processed
    cases begins with
    | enqueued pid cmd blockFor tasks machine enqueued =>
      have same : SameEdits exec { exec with machine } := ⟨rfl,rfl,[],(List.append_nil _).symm,rfl⟩
      exact IsTrans.trans _ _ _ same.asking rest
    | completed pid exitCode tasks machine completed =>
      have same : SameEdits exec (report { exec with machine } pid exitCode) := .one rfl rfl rfl rfl
      exact IsTrans.trans _ _ _ same.asking rest
    | edited => cases none
    | idle event next idle => exact IsTrans.trans _ _ _ idle.sameEdits.asking rest
  cases event with
  | editComplete editId data =>
    obtain ⟨pid,path,found,done⟩ := finishEdit_cases (handle_ok.mp ok)
    obtain ⟨tasks,machine,_,processed⟩ := completed_cases done
    have asking := processTasks_asking sends processed
    have left : Fresh { exec with waitingEdits := exec.waitingEdits.erase editId } :=
      fun other waits => fresh other (Finmap.mem_erase.mp waits).2
    obtain ⟨more,effects,counts⟩ := asking.counts left
    refine ⟨asking.fresh left,[.written path data,.sent (.commandDone pid 0)] ++ more,?_,fun other => ?_⟩
    · rw [effects]
      simp [report]
    · have waits : editId ∈ exec.waitingEdits := FiniteMap.mem_of_lookup found
      rw [counts]
      change (if other ∈ exec.waitingEdits.erase editId then 1 else 0) + (editRequests more).count other + _ =
        _ + (editRequests more).count other
      rw [awaited]
      by_cases same : other = editId
      · subst same
        simp [ExecEvent.answers?,waits]
        omega
      · simp [ExecEvent.answers?,same,Ne.symm same]
  | _ => exact begun rfl

end ExecInternal

section Requests
variable {more : List Request}

theorem answeredEdits_line {line : Line} {lo hi : Nat} (sends : ∀ request ∈ more, line.Sends lo hi request.message) :
    answeredEdits more = [] := by
  refine List.filterMap_eq_nil_iff.mpr fun request member => ?_
  have sent := sends request member
  generalize request.message = message at sent
  cases sent <;> rfl

theorem cancelAll_unanswered {trans : Transport Error} {order : List ProcessId}
    {endpoint next : Endpoint StackedRemotes}
    (ok : Shell.cancelAll trans order endpoint = .ok (.ok (),next)) :
    answeredEdits next.sent = answeredEdits endpoint.sent ∧ ∃ more, next.sent = endpoint.sent ++ more := by
  induction order generalizing endpoint with
  | nil =>
    obtain ⟨_,rfl⟩ := pure_ok.mp ok
    exact ⟨rfl,[],(List.append_nil _).symm⟩
  | cons id order ih =>
    obtain ⟨_,_,cancelled,rest⟩ := bind_ok.mp ok
    obtain ⟨parent,_,_,rfl⟩ := Endpoint.closeProcess_ok cancelled
    obtain ⟨same,more,sent⟩ := ih rest
    refine ⟨same.trans ?_,_,sent.trans (List.append_assoc ..)⟩
    exact (answeredEdits_append _ _).trans (List.append_nil _)

end Requests

namespace World
variable {world after : World} {move : Move} {info : RemoteInfo} {trace : List Move}

/-- The responses that the frontend has yet to take. -/
def unreceived (world : World) : List RemoteResponse := world.output.drop world.received

/-- How often the edit is in a request to the frontend, in an answer, and in the event queue. -/
def editShare (world : World) (editId : Nat) : Nat :=
  (askedEdits world.unreceived).count editId + (answeredEdits world.unrouted).count editId +
    world.events.countP (·.answers? = some editId)

theorem routed_answers {order : OrderedMap ProcessId Condition} {message : RemoteRequest} {event : ExecEvent}
    (routed : routeRequest order message = .ok event) : event.answers? = message.answers? := by
  cases message with
  | beginCommand blockFor process command =>
    obtain ⟨_,_,last⟩ := Outcome.bind_ok.mp routed
    obtain rfl := Except.ok.inj last
    rfl
  | beginRemote | endRemote | listDirectory => cases routed
  | _ =>
    obtain rfl := Except.ok.inj routed
    rfl

theorem interrupt_cancels {order : List ProcessId} (ok : world.next (.interrupt order) = .ok after) :
    ∃ frontend, Shell.cancelAll (fun _ => .ok ()) order world.frontend = .ok (.ok (),frontend) ∧
      after = { world with frontend } := by
  obtain ⟨_,guard,rest⟩ := Outcome.bind_ok.mp ok
  obtain ⟨⟨turn,_⟩,turned,last⟩ := Outcome.bind_ok.mp rest
  obtain ⟨frontend,taken,rfl⟩ := turn_ok turned
  obtain rfl := Except.ok.inj last
  exact ⟨frontend,turn_interrupt ((Outcome.assert_ok _ _).mp guard).1 rfl taken,rfl⟩

/-- The connection to the frontend holds. -/
def Delivers (_ : World) : Move → Prop
  | .execute os => ∀ response, os.send response = .ok ()
  | _ => True

structure Editing (world : World) : Prop where
  fresh : ExecInternal.Fresh world.exec
  share : ∀ editId, world.editShare editId = world.exec.awaited editId

namespace Editing

theorem start : Editing (new info) where
  fresh _ waits := absurd waits Finmap.notMem_empty
  share _ := rfl

private theorem kept (editing : Editing world) (exec : after.exec = world.exec)
    (share : ∀ editId, after.editShare editId = world.editShare editId) : Editing after where
  fresh := exec ▸ editing.fresh
  share editId := by rw [share,exec,editing.share]

private theorem sends (editing : Editing world) (ledger : Ledger world) {frontend : Endpoint StackedRemotes}
    {more : List Request} {lines : List Line} (sent : frontend.sent = world.frontend.sent ++ more)
    (none : answeredEdits more = []) : Editing { world with frontend, lines } := by
  refine editing.kept rfl fun editId => ?_
  have waiting : ({ world with frontend, lines } : World).unrouted = world.unrouted ++ more := by
    rw [unrouted,sent,List.drop_append_of_le_length ledger.routed]
    rfl
  rw [editShare,waiting,answeredEdits_append,none,List.append_nil]
  rfl

private theorem pushed (editing : Editing world) {event : ExecEvent} (frontend : after.frontend = world.frontend)
    (routed : after.routed = world.routed) (exec : after.exec = world.exec) (info : after.info = world.info)
    (received : after.received = world.received) (events : after.events = world.events ++ [event])
    (none : event.answers? = none) : Editing after := by
  refine editing.kept exec fun editId => ?_
  rw [editShare,editShare,unreceived,unreceived,unrouted,unrouted,output,output,frontend,routed,info,exec,received,
    events,
    List.countP_append]
  simp [none]

private theorem route (editing : Editing world) {order : OrderedMap ProcessId Condition} {request : Request}
    {event : ExecEvent} (found : world.frontend.sent[world.routed]? = some request)
    (routed : routeRequest order request.message = .ok event) :
    Editing { world with routed := world.routed + 1, events := world.events ++ [event] } := by
  refine editing.kept rfl fun editId => ?_
  rw [editShare,editShare,unrouted_cons found]
  change (askedEdits world.unreceived).count editId +
    (answeredEdits (world.frontend.sent.drop (world.routed + 1))).count editId + (world.events ++ [event]).countP _ = _
  rw [List.countP_append,List.countP_singleton,routed_answers routed]
  cases answers : request.message.answers? with
  | none => simp [answeredEdits,answers]
  | some other =>
    simp [answeredEdits,answers,List.count_cons]
    omega

private theorem receive (editing : Editing world) (ledger : Ledger world) {response : RemoteResponse}
    {frontend : Endpoint StackedRemotes} (found : world.output[world.received]? = some response)
    (receipt : Receipt world.frontend ⟨0,response⟩ frontend) :
    Editing { world with frontend, received := world.received + 1 } := by
  have taken : world.unreceived = response :: world.output.drop (world.received + 1) := by
    obtain ⟨bound,rfl⟩ := List.getElem?_eq_some_iff.mp found
    exact List.drop_eq_getElem_cons bound
  have silent (sent : frontend.sent = world.frontend.sent) (none : response.asks? = none) :
      Editing { world with frontend, received := world.received + 1 } := by
    refine editing.kept rfl fun editId => ?_
    rw [editShare,editShare,taken,unrouted,unrouted,sent]
    change (askedEdits (world.output.drop (world.received + 1))).count editId + _ + _ = _
    simp [askedEdits,none]
  cases receipt with
  | edited remoteId commandId editId name data parent newData shown told job =>
    refine editing.kept rfl fun other => ?_
    rw [editShare,editShare,taken,unrouted]
    change (askedEdits (world.output.drop (world.received + 1))).count other +
      (answeredEdits ((world.frontend.sent ++ [Request.mk parent.val (.finishEdit editId newData)]).drop
        world.routed)).count other + _ = _
    rw [List.drop_append_of_le_length ledger.routed,answeredEdits_append,List.count_append]
    simp only [askedEdits,answeredEdits,List.filterMap_cons,RemoteResponse.asks?,RemoteRequest.answers?,List.count_cons,
      List.filterMap_nil,List.count_nil,unrouted]
    omega
  | _ => exact silent rfl rfl

private theorem executed (editing : Editing world) (relayed : Relayed world) {os : Os} {event : ExecEvent}
    {events : List ExecEvent} {exec : ExecInternal} (sends : ∀ response, os.send response = .ok ())
    (found : world.events = event :: events) (ok : ExecInternal.handle os event world.exec = .ok exec) :
    Editing ({ world with events, exec }.begin (exec.effects.drop world.exec.effects.length)) := by
  obtain ⟨fresh,more,effects,counts⟩ := ExecInternal.handle_asking sends editing.fresh ok
  refine ⟨fresh,fun editId => ?_⟩
  have before := editing.share editId
  have counted := counts editId
  have grown : ({ world with events, exec } : World).output = world.output ++ _ := output_grows rfl effects
  rw [editShare,found,List.countP_cons] at before
  change (askedEdits (({ world with events, exec } : World).output.drop world.received)).count editId +
    (answeredEdits world.unrouted).count editId + events.countP _ = exec.awaited editId
  rw [grown,List.drop_append_of_le_length relayed.received,askedEdits_append,askedEdits_responses,List.count_append]
  simp only [decide_eq_true_eq] at before
  unfold unreceived at before
  omega

theorem moves (editing : Editing world) (relayed : Relayed world) (ledger : Ledger world)
    (delivers : world.Delivers move)
    (ok : world.next move = .ok after) : Editing after := by
  have moved := next_moves ok
  cases moved with
  | prompt getCommand line frontend begins =>
    obtain ⟨more,sent,sends⟩ := begins.sent
    exact editing.sends ledger sent (answeredEdits_line sends)
  | receive terminal response frontend found receives => exact editing.receive ledger found (receive_receipt found ok)
  | interrupt order frontend unbegun same =>
    obtain ⟨other,cancelled,shape⟩ := interrupt_cancels ok
    obtain ⟨none,more,sent⟩ := cancelAll_unanswered cancelled
    rw [sent,answeredEdits_append] at none
    rw [shape]
    exact editing.sends ledger sent (List.append_right_eq_self.mp none)
  | route order request event found routed => exact editing.route found routed
  | execute os event events exec found handled => exact editing.executed relayed delivers found handled
  | write child stream data alive some =>
    obtain ⟨written,unsent,shape⟩ := world.put_shape (outputOf child stream) data
    rw [shape]
    exact editing.kept rfl fun _ => rfl
  | pour writer size listed some enough =>
    obtain ⟨written,unsent,shape⟩ := world.put_shape writer.1 (writer.2.take size)
    rw [shape]
    exact editing.kept rfl fun _ => rfl
  | consume child size pipe alive reads => exact editing.kept rfl fun _ => rfl
  | consumeFile child size => exact editing
  | exit child exitCode alive => exact editing.kept rfl fun _ => rfl
  | close writer listed => exact editing.kept rfl fun _ => rfl
  | report exited waits => exact editing.pushed rfl rfl rfl rfl rfl rfl rfl
  | forward reader size pipe listed reads some enough => exact editing.pushed rfl rfl rfl rfl rfl rfl rfl
  | eof reader pipe listed reads empty closed => exact editing.pushed rfl rfl rfl rfl rfl rfl rfl

end Editing

/-- A child is never reported while its command is being edited. -/
theorem Accounted.unedited (accounted : Accounted world) {pid : ProcessId} {exitCode : Int} {events : List ExecEvent}
    (found : world.events = .completed pid exitCode :: events) : ¬ExecInternal.Edits world.exec pid := by
  intro edits
  have none : ExecInternal.active world.exec.machine pid = 0 := by
    rw [ExecInternal.active,show world.exec.machine.running.lookup pid = some .awaitingEdit from edits]
    rfl
  rw [← accounted.outstanding,World.outstanding,found,List.countP_cons] at none
  simp [ExecEvent.reports] at none

structure Kept (world : World) : Prop where
  coherent : Coherent world
  accounted : Accounted world
  editing : Editing world
  edits : ExecInternal.EditsKept world.exec

theorem run_kept (run : ((system info).restrict Delivers).Run trace world) : Kept world := by
  refine run.invariant (fun _ => Kept) ?_ ?_
  · intro world start
    obtain rfl : world = new info := start
    exact ⟨reachable_coherent ⟨[],.initial rfl⟩,.start,.start,ExecInternal.editsKept_new⟩
  · intro trace world move after run kept taken
    obtain ⟨ok,delivers⟩ := taken
    obtain ⟨coherent,accounted,editing,edits⟩ := kept
    have moves := next_moves ok
    refine ⟨reachable_coherent (System.Run.step run.unrestricted ok).reachable,accounted.moves coherent.traced moves,
      editing.moves coherent.relayed coherent.ledger delivers ok,?_⟩
    cases moves with
    | execute os event events exec found handled =>
      refine ExecInternal.handle_edits delivers coherent.traced.inv edits ?_ handled
      intro pid exitCode same
      exact accounted.unedited (same ▸ found)
    | write child stream data alive some =>
      obtain ⟨written,unsent,shape⟩ := world.put_shape (outputOf child stream) data
      rw [shape]
      exact edits
    | pour writer size listed some enough =>
      obtain ⟨written,unsent,shape⟩ := world.put_shape writer.1 (writer.2.take size)
      rw [shape]
      exact edits
    | _ => exact edits

/-- No edit is lost or answered twice: one that the event loop waits for is in one place, any
other is in none, and a command that is being edited waits for one of them. -/
theorem edits_conserved (run : ((system info).restrict Delivers).Run trace world) :
    (∀ editId, world.editShare editId = if editId ∈ world.exec.waitingEdits then 1 else 0) ∧
    ∀ pid, world.exec.machine.running.lookup pid = some .awaitingEdit →
      ∃! editId, ∃ path, world.exec.waitingEdits.lookup editId = some (pid,path) := by
  have kept := run_kept run
  exact ⟨kept.editing.share,kept.edits.awaited⟩

private def composing : Plan := ⟨[.pipe,.pipe,.pipe,.remote ⟨0⟩ (.run (.edit "notes") ⟨0,0,1,2⟩)],some 0,0,0,
  [none,some .stdout,some .stderr]⟩

private def composed : List Move :=
  [.receive .working,.prompt fun _ => .ok (.ok composing),.route ∅,.execute .working,
    .receive { Terminal.working with readToEnd := fun _ data => .ok (data ++ [10]) }]

private theorem composed_delivers {label : Move} (member : label ∈ composed) (world : World) :
    world.Delivers label := by
  cases label with
  | execute os =>
    obtain rfl : os = .working := by simpa [composed] using member
    exact fun _ => rfl
  | _ => trivial

theorem edits_conserved_composed : ∃ trace world, ((system ⟨"localhost","nak","/"⟩).restrict Delivers).Run trace world ∧
    world.exec.machine.running.lookup ⟨3⟩ = some .awaitingEdit ∧ (answeredEdits world.unrouted).count 0 = 1 ∧
    (∀ editId, world.editShare editId = if editId ∈ world.exec.waitingEdits then 1 else 0) ∧
    ∀ pid, world.exec.machine.running.lookup pid = some .awaitingEdit →
      ∃! editId, ∃ path, world.exec.waitingEdits.lookup editId = some (pid,path) := by
  obtain ⟨world,run,edits,answered⟩ := System.ends_run (new ⟨"localhost","nak","/"⟩) next (fun _ _ => True)
    (fun world => world.exec.machine.running.lookup ⟨3⟩ = some .awaitingEdit ∧
      (answeredEdits world.unrouted).count 0 = 1)
    (show System.ends (new ⟨"localhost","nak","/"⟩) next _ _ composed = true by decide +kernel)
  have delivers := run.permitted fun label member state _ => composed_delivers member state
  exact ⟨_,world,delivers,edits,answered,edits_conserved delivers⟩

end World
end Nak
