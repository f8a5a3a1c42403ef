import Mathlib.Data.Prod.Lex
import Mathlib.Algebra.BigOperators.Group.Finset.Basic
import Mathlib.Algebra.GroupWithZero.Nat
import Nak.WorldProgress

/-! The system left to itself comes back to the prompt. A command that is started may bring up
any amount of work, but it is started once; all other steps use work up. -/
namespace Nak
open Library

def ExecEvent.enqueue? : ExecEvent → Bool
  | .enqueue _ _ _ => true
  | _ => false

/-- A bound on the steps that something on its way leads to, commands that it starts apart. -/
def RemoteResponse.work : RemoteResponse → Nat
  | .editRequest _ _ _ _ => 4
  | _ => 1

def RemoteRequest.work : RemoteRequest → Nat
  | .finishEdit _ _ => 3
  | .pipe ⟨_,.beginRead⟩ => 5
  | _ => 2

def ExecEvent.work : ExecEvent → Nat
  | .completed _ _ => 2
  | .pipeOutput _ _ _ => 2
  | .pipeClosed _ _ => 2
  | .editComplete _ _ => 2
  | .pipeMessage _ .beginRead => 4
  | _ => 1

theorem ExecEvent.work_pos (event : ExecEvent) : 0 < event.work := by
  unfold ExecEvent.work
  split <;> omega

namespace World
variable {world after : World} {move : Move} {info : RemoteInfo} {trace : List Move}

def unstarted (world : World) : Nat :=
  (begunCommands world.unrouted).length + world.events.countP ExecEvent.enqueue? + world.exec.machine.unstarted

def held (world : World) : Nat := ∑ id ∈ Finset.range world.frontend.ids.nextId, (world.unsent ⟨id⟩).length

def writing (writers : List (OutputPipe × Bytes)) : Nat := (writers.map fun writer => 4 * writer.2.length + 1).sum

def work (world : World) : Nat :=
  (world.unreceived.map RemoteResponse.work).sum + (world.unrouted.map fun request => request.message.work).sum +
    (world.events.map ExecEvent.work).sum + 4 * world.children.length + 3 * world.exited.length +
    writing world.writers + 3 * world.readers.length + 3 * world.held

/-- Fewer commands have yet to start, or less work is left. -/
def Lowers (world after : World) : Prop :=
  after.unstarted < world.unstarted ∨ after.unstarted ≤ world.unstarted ∧ after.work < world.work

private theorem held_changed {pipe : GenericPipe} (below : pipe.val < world.frontend.ids.nextId)
    (frontend : after.frontend = world.frontend)
    (others : ∀ other, other ≠ pipe → after.unsent other = world.unsent other) :
    after.held + (world.unsent pipe).length = world.held + (after.unsent pipe).length := by
  obtain ⟨index⟩ := pipe
  have member : index ∈ Finset.range world.frontend.ids.nextId := Finset.mem_range.mpr below
  have same : ∑ id ∈ (Finset.range world.frontend.ids.nextId).erase index, (after.unsent ⟨id⟩).length =
      ∑ id ∈ (Finset.range world.frontend.ids.nextId).erase index, (world.unsent ⟨id⟩).length := by
    refine Finset.sum_congr rfl fun id inside => ?_
    rw [others ⟨id⟩ fun same => Finset.ne_of_mem_erase inside (congrArg GenericPipe.val same)]
  rw [held,held,frontend,← Finset.add_sum_erase _ _ member,← Finset.add_sum_erase _ _ member,same]
  omega

theorem held_put (world : World) (handle : OutputPipe) (data : Bytes) :
    (world.put handle data).held ≤ world.held + data.length := by
  cases wrote : handle.handle.id? with
  | none =>
    rw [show world.put handle data = world by rw [put,wrote]]
    exact Nat.le_add_right _ _
  | some pipe =>
    rw [show world.put handle data = world.addWritten pipe data by rw [put,wrote]]
    have others (other : GenericPipe) (different : other ≠ pipe) :
        (world.addWritten pipe data).unsent other = world.unsent other := Function.update_of_ne different _ _
    by_cases below : pipe.val < world.frontend.ids.nextId
    · have changed := @held_changed world (world.addWritten pipe data) _ below rfl others
      rw [show (world.addWritten pipe data).unsent pipe = world.unsent pipe ++ data from Function.update_self _ _ _,
        List.length_append] at changed
      omega
    · have same : (world.addWritten pipe data).held = world.held := by
        refine Finset.sum_congr rfl fun id inside => ?_
        rw [others ⟨id⟩ fun same => below (same ▸ Finset.mem_range.mp inside)]
      omega

theorem held_forward {pipe : GenericPipe} {size : Nat} (below : pipe.val < world.frontend.ids.nextId)
    (enough : size ≤ (world.unsent pipe).length) : (world.dropUnsent pipe size).held + size = world.held := by
  have changed := @held_changed world (world.dropUnsent pipe size) _ below rfl fun other different =>
    dropUnsent_ne _ _ different
  rw [dropUnsent_self,List.length_drop] at changed
  omega

section Route
variable {order : OrderedMap ProcessId Condition} {message : RemoteRequest} {event : ExecEvent}

theorem routed_work (routed : routeRequest order message = .ok event) : event.work < message.work := by
  cases message with
  | beginCommand blockFor process command =>
    obtain ⟨_,_,last⟩ := Outcome.bind_ok.mp routed
    obtain rfl := Except.ok.inj last
    simp [ExecEvent.work,RemoteRequest.work]
  | beginRemote | endRemote | listDirectory => cases routed
  | pipe envelope =>
    obtain rfl := Except.ok.inj routed
    obtain ⟨id,msg⟩ := envelope
    cases msg <;> simp [ExecEvent.work,RemoteRequest.work]
  | _ =>
    obtain rfl := Except.ok.inj routed
    simp [ExecEvent.work,RemoteRequest.work]

theorem routed_enqueue (routed : routeRequest order message = .ok event) :
    event.enqueue? = message.begins?.isSome := by
  cases message with
  | beginCommand blockFor process command =>
    obtain ⟨_,_,last⟩ := Outcome.bind_ok.mp routed
    obtain rfl := Except.ok.inj last
    rfl
  | beginRemote | endRemote | listDirectory => cases routed
  | _ =>
    obtain rfl := Except.ok.inj routed
    rfl

end Route

theorem lowers_route {order : OrderedMap ProcessId Condition} {request : Request} {event : ExecEvent}
    (found : world.frontend.sent[world.routed]? = some request)
    (routed : routeRequest order request.message = .ok event) :
    world.Lowers { world with routed := world.routed + 1, events := world.events ++ [event] } := by
  have fewer := routed_work routed
  have same := routed_enqueue routed
  have before := unrouted_cons found
  refine Or.inr ⟨le_of_eq ?_,?_⟩
  · rw [unstarted,unstarted,before,List.countP_append,List.countP_singleton,same]
    cases begins : request.message.begins? with
    | none => simp [begunCommands,begins,unrouted]
    | some pid =>
      simp [begunCommands,begins,unrouted]
      omega
  · rw [work,work,before]
    simp only [unrouted,unreceived,output,held,List.map_append,List.map_cons,List.map_nil,List.sum_append,List.sum_cons,
      List.sum_nil]
    omega

theorem lowers_receive (routed : world.routed ≤ world.frontend.sent.length) {response : RemoteResponse}
    {frontend : Endpoint StackedRemotes} (found : world.output[world.received]? = some response)
    (receipt : Receipt world.frontend ⟨0,response⟩ frontend) :
    world.Lowers { world with frontend, received := world.received + 1 } := by
  have before : world.unreceived = response :: world.output.drop (world.received + 1) := by
    obtain ⟨bound,rfl⟩ := List.getElem?_eq_some_iff.mp found
    exact List.drop_eq_getElem_cons bound
  have silent (ids : frontend.ids = world.frontend.ids) (sent : frontend.sent = world.frontend.sent) :
      world.Lowers { world with frontend, received := world.received + 1 } := by
    refine Or.inr ⟨le_of_eq ?_,?_⟩
    · simp only [unstarted,unrouted,sent]
    · have some : 0 < response.work := by
        unfold RemoteResponse.work
        split <;> omega
      rw [work,work,before]
      simp only [unrouted,unreceived,output,held,sent,ids,List.map_cons,List.sum_cons]
      omega
  cases receipt with
  | edited remoteId commandId editId name data parent newData shown told job =>
    refine Or.inr ⟨le_of_eq ?_,?_⟩
    · simp only [unstarted,unrouted,List.drop_append_of_le_length routed,Session.begunCommands_append]
      simp [begunCommands,RemoteRequest.begins?]
    · rw [work,work,before]
      simp only [unrouted,unreceived,output,held,Endpoint.changed,List.drop_append_of_le_length routed,List.map_append,
        List.map_cons,List.map_nil,List.sum_append,List.sum_cons,List.sum_nil,RemoteResponse.work,RemoteRequest.work]
      omega
  | _ => exact silent rfl rfl

theorem lowers_exit {child : Process} (alive : child ∈ world.children) (exitCode : Int) : world.Lowers { world with
    children := world.children.erase child
    exited := world.exited ++ [(child.pid,exitCode)] } := by
  have fewer := List.length_erase_of_mem alive
  have some := List.length_pos_of_mem alive
  refine Or.inr ⟨le_rfl,?_⟩
  simp only [work,unrouted,unreceived,output,held,List.length_append,List.length_singleton]
  omega

theorem lowers_report {exited : ProcessId × Int} (waits : exited ∈ world.exited) : world.Lowers { world with
    exited := world.exited.erase exited
    events := world.events ++ [.completed exited.1 exited.2] } := by
  have fewer := List.length_erase_of_mem waits
  have some := List.length_pos_of_mem waits
  refine Or.inr ⟨le_of_eq ?_,?_⟩
  · simp [unstarted,unrouted,ExecEvent.enqueue?]
  · simp only [work,unrouted,unreceived,output,held,List.map_append,List.map_cons,List.map_nil,List.sum_append,
      List.sum_cons,List.sum_nil,ExecEvent.work]
    omega

theorem writing_erase {writers : List (OutputPipe × Bytes)} {writer : OutputPipe × Bytes} (listed : writer ∈ writers) :
    writing writers = 4 * writer.2.length + 1 + writing (writers.erase writer) := by
  have perm := (List.perm_cons_erase listed).map fun writer : OutputPipe × Bytes => 4 * writer.2.length + 1
  rw [writing,perm.sum_eq,List.map_cons,List.sum_cons]
  rfl

theorem lowers_pour {writer : OutputPipe × Bytes} {size : Nat} (listed : writer ∈ world.writers) (some : 0 < size)
    (enough : size ≤ writer.2.length) : world.Lowers { world.put writer.1 (writer.2.take size) with
      writers := (writer.1,writer.2.drop size) :: world.writers.erase writer } := by
  have fewer := writing_erase listed
  have more := world.held_put writer.1 (writer.2.take size)
  obtain ⟨written,unsent,shape⟩ := world.put_shape writer.1 (writer.2.take size)
  rw [List.length_take] at more
  rw [shape] at more ⊢
  refine Or.inr ⟨le_rfl,?_⟩
  simp only [work,unrouted,unreceived,output,held,writing,List.map_cons,List.sum_cons,List.length_drop] at fewer more ⊢
  omega

theorem lowers_close {writer : OutputPipe × Bytes} (listed : writer ∈ world.writers) :
    world.Lowers { world with writers := world.writers.erase writer } := by
  have fewer := writing_erase listed
  refine Or.inr ⟨le_rfl,?_⟩
  simp only [work,unrouted,unreceived,output,held,writing] at fewer ⊢
  omega

theorem lowers_forward {reader : GenericPipe × InputPipe} {size : Nat} {pipe : GenericPipe}
    (below : pipe.val < world.frontend.ids.nextId) (some : 0 < size) (enough : size ≤ (world.unsent pipe).length) :
    world.Lowers { world.dropUnsent pipe size with
      events := world.events ++ [.pipeOutput reader.1 ((world.unsent pipe).take size) 0] } := by
  have fewer := held_forward below enough
  refine Or.inr ⟨le_of_eq ?_,?_⟩
  · simp [unstarted,unrouted,dropUnsent,ExecEvent.enqueue?]
  · simp only [work,unrouted,unreceived,output,held,dropUnsent,List.map_append,List.map_cons,List.map_nil,
      List.sum_append,
      List.sum_cons,List.sum_nil,ExecEvent.work] at fewer ⊢
    omega

theorem lowers_eof {reader : GenericPipe × InputPipe} (listed : reader ∈ world.readers) : world.Lowers { world with
    readers := world.readers.erase reader
    events := world.events ++ [.pipeClosed reader.1 0] } := by
  have fewer := List.length_erase_of_mem listed
  have some := List.length_pos_of_mem listed
  refine Or.inr ⟨le_of_eq ?_,?_⟩
  · simp [unstarted,unrouted,ExecEvent.enqueue?]
  · simp only [work,unrouted,unreceived,output,held,List.map_append,List.map_cons,List.map_nil,List.sum_append,
      List.sum_cons,List.sum_nil,ExecEvent.work]
    omega

end World

namespace Machine
variable {Id Cmd State : Type} [DecidableEq Id] {machine next : Machine Id Cmd State} {pid : Id}

theorem ready_unstarted (toRun : pid ∈ machine.toRun) (state : State) : unstarted { machine with
    toRun := machine.toRun.erase pid
    running := machine.running.insert pid state } < machine.unstarted := by
  have fewer := Finset.card_erase_lt_of_mem toRun
  simp only [unstarted]
  omega

theorem Enqueued.unstarted {cmd : Cmd} {blockFor : OrderedMap Id Condition} {tasks : List (Task Id Cmd)}
    (enqueued : Enqueued machine pid cmd blockFor tasks next) : next.unstarted ≤ machine.unstarted + 1 ∧
      (tasks = [.start pid cmd] ∨ tasks = [] ∨ next.unstarted < machine.unstarted + 1) := by
  cases enqueued with
  | refused => exact ⟨Nat.le_succ _,Or.inr (Or.inr (Nat.lt_succ_self _))⟩
  | ready =>
    have more := Finset.card_insert_le pid machine.toRun
    refine ⟨?_,Or.inl rfl⟩
    simp only [Machine.unstarted]
    omega
  | blocked next passed some after =>
    obtain ⟨conditions,_,waitingOn⟩ := after.waitingOn
    have more := FiniteMap.len_insert_le machine.waitingOn pid ⟨cmd,conditions⟩
    refine ⟨?_,Or.inr (Or.inl rfl)⟩
    simp only [Machine.unstarted,after.toRun,waitingOn]
    omega

theorem completed_unstarted {status : ExitStatus} {tasks : List (Task Id Cmd)}
    (ok : machine.completed pid status = .ok (tasks,next)) : next.unstarted ≤ machine.unstarted :=
  completedWith_shrinks unstarted_measure _ _ _ _ _ _ ok

end Machine

namespace ExecInternal
variable {os : Os} {exec next start : ExecInternal} {event : ExecEvent} {pid : ProcessId} {cmd : RunCmd}
variable {tasks rest : List (Task ProcessId RunCmd)}

theorem processTask_starts (ok : processTask os (.start pid cmd) exec = .ok (.ok tasks,next)) :
    next.machine.unstarted < exec.machine.unstarted := by
  cases processTask_cases ok with
  | started pid cmd state middle ran quiet toRun => exact Machine.ready_unstarted toRun state
  | done pid cmd exitCode middle tasks machine ran quiet completed => exact Machine.startCompleted_unstarted completed
  | failed pid cmd e middle tasks machine after ran quiet completed closed silent =>
    have same : (report after pid 1).machine = machine := silent.machine
    rw [same]
    exact Machine.startCompleted_unstarted completed

theorem processTasks_starts (ok : processTasks os (.start pid cmd :: rest) exec = .ok (.ok (),next)) :
    next.machine.unstarted < exec.machine.unstarted := by
  have done := processTasks_queue (fun queue after => after.machine.unstarted < exec.machine.unstarted ∨
    (∃ pid cmd rest, queue = .start pid cmd :: rest) ∧ after.machine.unstarted ≤ exec.machine.unstarted) ?_
    (Or.inr ⟨⟨pid,cmd,rest,rfl⟩,le_rfl⟩) ok
  · rcases done with fewer | ⟨⟨_,_,_,none⟩,_⟩
    · exact fewer
    · cases none
  · intro task rest before new after holds dealt
    refine Or.inl ?_
    rcases holds with fewer | ⟨⟨pid,cmd,_,same⟩,most⟩
    · exact (processTask_unstarted dealt).1.trans_lt fewer
    · obtain ⟨rfl,_⟩ := List.cons.inj same
      exact (processTask_starts dealt).trans_le most

theorem processTasks_unstarted (ok : processTasks os tasks exec = .ok (.ok (),next)) :
    next.machine.unstarted ≤ exec.machine.unstarted :=
  processTasks_queue (fun _ after => after.machine.unstarted ≤ exec.machine.unstarted)
    (fun _ _ _ _ _ most dealt => (processTask_unstarted dealt).1.trans most) le_rfl ok

private theorem finished_starts {machine : Machine ProcessId RunCmd ProcessState} {status : ExitStatus}
    (inv : Machine.Inv exec.machine) (completed : exec.machine.completed pid status = .ok (tasks,machine)) :
    tasks = [] ∨ ∃ pid cmd rest, tasks = .start pid cmd :: rest := by
  obtain ⟨_,_,finishes⟩ := inv.completed_cases completed
  cases tasks with
  | nil => exact Or.inl rfl
  | cons task rest =>
    obtain ⟨waiter,waiting,_,rfl,_⟩ := finishes.task_starts inv (List.mem_cons_self ..)
    exact Or.inr ⟨waiter,waiting.cmd,rest,rfl⟩

theorem handle_unstarted (inv : Machine.Inv exec.machine) (ok : handle os event exec = .ok next) :
    next.machine.unstarted < exec.machine.unstarted + (if event.enqueue? then 1 else 0) ∨
      next.machine.unstarted ≤ exec.machine.unstarted + (if event.enqueue? then 1 else 0) ∧
      Opens exec event [] next := by
  obtain ⟨tasks,start,opens,processed⟩ := handle_opens ok
  have fewer := processTasks_unstarted processed
  have most : start.machine.unstarted ≤ exec.machine.unstarted + (if event.enqueue? then 1 else 0) ∧
      ((∃ pid cmd rest, tasks = .start pid cmd :: rest) ∨ tasks = [] ∨
        start.machine.unstarted < exec.machine.unstarted + (if event.enqueue? then 1 else 0)) := by
    cases opens with
    | enqueued pid cmd blockFor tasks machine enqueued =>
      obtain ⟨most,started | other⟩ := (exec.machine.enqueue_cases pid cmd blockFor tasks machine enqueued).2.unstarted
      · exact ⟨most,Or.inl ⟨pid,cmd,[],started⟩⟩
      · exact ⟨most,Or.inr other⟩
    | completed pid exitCode tasks machine completed =>
      refine ⟨(Machine.completed_unstarted completed).trans (Nat.le_add_right _ _),?_⟩
      exact (finished_starts inv completed).symm.imp_right Or.inl
    | edited editId data pid path tasks machine found completed =>
      refine ⟨(Machine.completed_unstarted completed).trans (Nat.le_add_right _ _),?_⟩
      exact (finished_starts inv completed).symm.imp_right Or.inl
    | plain event next more quiet =>
      rw [quiet.machine]
      exact ⟨Nat.le_add_right _ _,Or.inr (Or.inl rfl)⟩
  obtain ⟨most,⟨pid,cmd,rest,rfl⟩ | rfl | less⟩ := most
  · exact Or.inl ((processTasks_starts processed).trans_le most)
  · obtain ⟨_,rfl⟩ := Prod.mk.inj (Except.ok.inj ((processTasks_none start).symm.trans processed))
    exact Or.inr ⟨most,opens⟩
  · exact Or.inl (fewer.trans_lt less)

end ExecInternal

namespace World
variable {world after : World} {move : Move} {info : RemoteInfo} {trace : List Move}

def brought (effects : List Effect) : Nat :=
  ((effects.filterMap Effect.response?).map RemoteResponse.work).sum + 4 * (effects.filterMap Effect.process?).length +
    writing (effects.filterMap Effect.writer?) + 3 * (effects.filterMap Effect.reader?).length

theorem work_executed {event : ExecEvent} {events : List ExecEvent} {exec : ExecInternal} {more : List Effect}
    (bounded : world.received ≤ world.output.length) (found : world.events = event :: events)
    (effects : exec.effects = world.exec.effects ++ more) :
    ({ world with events, exec }.begin more).work + event.work = world.work + brought more := by
  have grows := @output_grows world ({ world with events, exec }.begin more) more rfl effects
  simp only [work,unreceived,grows,found]
  simp only [begin,unrouted,held,writing,brought,List.drop_append_of_le_length bounded,List.map_append,List.sum_append,
    List.length_append,List.map_cons,List.sum_cons]
  omega

/-- An event that starts nothing brings up less work than it is. -/
theorem brought_opens {exec next : ExecInternal} {event : ExecEvent} {more : List Effect}
    (opens : ExecInternal.Opens exec event [] next) (effects : next.effects = exec.effects ++ more) :
    brought more < event.work := by
  generalize none : ([] : List (Task ProcessId RunCmd)) = tasks at opens
  cases opens with
  | enqueued pid cmd blockFor tasks machine =>
    obtain rfl : [] = more := List.append_cancel_left ((List.append_nil _).trans effects)
    exact ExecEvent.work_pos _
  | completed pid exitCode tasks machine =>
    obtain rfl : [.sent (.commandDone pid exitCode)] = more := List.append_cancel_left effects
    exact Nat.lt_succ_self _
  | edited editId data pid path tasks machine =>
    obtain rfl : [.written path data,.sent (.commandDone pid 0)] = more :=
      List.append_cancel_left ((List.append_assoc _ _ _).symm.trans effects)
    exact Nat.lt_succ_self _
  | plain event next caused quiet effects' said read other idle =>
    obtain rfl : caused = more := List.append_cancel_left (effects'.symm.trans effects)
    have processes : caused.filterMap Effect.process? = [] :=
      List.filterMap_eq_nil_iff.mpr fun effect member => (idle effect member).1
    have writers : caused.filterMap Effect.writer? = [] :=
      List.filterMap_eq_nil_iff.mpr fun effect member => (idle effect member).2
    have readers : (caused.filterMap Effect.reader?).length = event.reads?.toList.length := by
      rw [← read,List.length_map]
    rw [brought,said,processes,writers,readers]
    cases event with
    | pipeMessage pipe msg => cases msg <;> simp [writing,ExecEvent.envelope?,ExecEvent.reads?,ExecEvent.work]
    | _ => simp [writing,ExecEvent.envelope?,ExecEvent.reads?,ExecEvent.work,RemoteResponse.work]

theorem lowers_execute (coherent : Coherent world) {os : Os} {event : ExecEvent} {events : List ExecEvent}
    {exec : ExecInternal} (found : world.events = event :: events)
    (ok : ExecInternal.handle os event world.exec = .ok exec) :
    world.Lowers ({ world with events, exec }.begin (exec.effects.drop world.exec.effects.length)) := by
  obtain ⟨more,effects,_⟩ := (ExecInternal.handle_handled coherent.traced.inv coherent.traced.named ok).effects
  rw [show exec.effects.drop world.exec.effects.length = more by rw [effects,List.drop_left]]
  have worked := work_executed coherent.relayed.received found effects
  have before : world.unstarted = (begunCommands world.unrouted).length + events.countP ExecEvent.enqueue? +
      (world.exec.machine.unstarted + if event.enqueue? then 1 else 0) := by
    rw [unstarted,found,List.countP_cons]
    omega
  have after : ({ world with events, exec }.begin more).unstarted = (begunCommands world.unrouted).length +
      events.countP ExecEvent.enqueue? + exec.machine.unstarted := rfl
  rcases ExecInternal.handle_unstarted coherent.traced.inv ok with fewer | ⟨most,opens⟩
  · exact Or.inl (by omega)
  · have less := brought_opens opens effects
    exact Or.inr ⟨by omega,by omega⟩

theorem Steady.lowers {stays : Process → Prop} (steady : Steady world) (proceeds : world.Proceeds stays after) :
    world.Lowers after := by
  obtain ⟨move,own,_,smooth,ok⟩ := proceeds
  have coherent := steady.kept.coherent
  have moved := next_moves ok
  cases moved with
  | prompt | interrupt | write | consume | consumeFile => cases own
  | receive terminal response frontend found receives =>
    exact lowers_receive coherent.ledger.routed found (receive_receipt found ok)
  | route order request event found routed => exact lowers_route found routed
  | execute os event events exec found handled => exact lowers_execute coherent found handled
  | exit child exitCode alive => exact lowers_exit alive exitCode
  | report exited waits => exact lowers_report waits
  | pour writer size listed some enough => exact lowers_pour listed some enough
  | close writer listed => exact lowers_close listed
  | forward reader size pipe listed reads some enough =>
    obtain rfl : pipe = reader.1 := Option.some.inj (reads.symm.trans (steady.serving.readers reader listed))
    exact lowers_forward (coherent.traced.handles _ (coherent.traced.readers reader listed).1) some enough
  | eof reader pipe listed => exact lowers_eof listed

/-- A step of the system by itself, or one of the reads and writes that the children have left. -/
inductive Goes (stays : Process → Prop) : World × Nat → World × Nat → Prop
  | own {first second : World} (left : Nat) (proceeds : first.Proceeds stays second) :
      Goes stays (first,left) (second,left)
  | child {first second : World} (left : Nat) (move : Move) (traffic : move.traffic = true)
      (ok : first.next move = .ok second) : Goes stays (first,left + 1) (second,left)

def rank (place : World × Nat) : Nat ×ₗ Nat ×ₗ Nat := toLex (place.2,toLex (place.1.unstarted,place.1.work))

theorem Lowers.rank (lowers : world.Lowers after) (left : Nat) : World.rank (after,left) < World.rank (world,left) := by
  refine Prod.Lex.toLex_lt_toLex.mpr (Or.inr ⟨rfl,Prod.Lex.toLex_lt_toLex.mpr ?_⟩)
  rcases lowers with fewer | ⟨most,less⟩
  · exact Or.inl fewer
  · rcases most.lt_or_eq with fewer | same
    · exact Or.inl fewer
    · exact Or.inr ⟨same,less⟩

theorem rank_left (world after : World) (left : Nat) : rank (after,left) < rank (world,left + 1) :=
  Prod.Lex.toLex_lt_toLex.mpr (Or.inl (Nat.lt_succ_self left))

theorem traffic_smooth (traffic : move.traffic = true) : world.Smooth move := by
  cases move with
  | write | consume => trivial
  | _ => cases traffic

theorem leads_prompt (stays : Process → Prop) (run : ((system info).restrict Smooth).Run trace world) (left : Nat) :
    Leads (Goes stays) (fun place => place.1.AtPrompt ∨ Hangs stays place.1) (world,left) := by
  by_cases done : world.AtPrompt ∨ Hangs stays world
  · exact .here done
  · refine Leads.lowering rank (fun place => (∃ trace, ((system info).restrict Smooth).Run trace place.1) ∧
      ¬(place.1.AtPrompt ∨ Hangs stays place.1)) ?_ ?_ ⟨⟨trace,run⟩,done⟩
    · rintro ⟨world,left⟩ ⟨⟨trace,run⟩,waits⟩
      obtain ⟨after,proceeds⟩ := (run_steady run).proceeds (fun prompt => waits (Or.inl prompt)) fun hangs =>
        waits (Or.inr hangs)
      exact ⟨_,.own left proceeds⟩
    · rintro _ _ ⟨⟨trace,run⟩,waits⟩ goes
      refine or_iff_not_imp_left.mpr fun done => ?_
      cases goes with
      | own left proceeds =>
        have lower := ((run_steady run).lowers proceeds).rank left
        obtain ⟨move,own,_,smooth,ok⟩ := proceeds
        exact ⟨⟨⟨trace ++ [move],.step run ⟨ok,smooth⟩⟩,done⟩,lower⟩
      | child left move traffic ok =>
        exact ⟨⟨⟨trace ++ [move],.step run ⟨ok,traffic_smooth traffic⟩⟩,done⟩,rank_left _ _ left⟩

/-- Left to itself the system comes to the prompt, whatever it does next, or to where it waits
for nothing but children that never exit. There is a step to make until it is there, and there
are finitely many of them if the children read and write finitely often. -/
theorem settles (run : ((system info).restrict Smooth).Run trace world) (left : Nat) :
    (∀ stays, Leads (Goes stays) (fun place => place.1.AtPrompt ∨ Hangs stays place.1) (world,left)) ∧
      Leads (Goes fun _ => False) (fun place => place.1.AtPrompt) (world,left) := by
  refine ⟨fun stays => leads_prompt stays run left,(leads_prompt _ run left).mono ?_⟩
  intro place done
  refine done.resolve_right fun hangs => ?_
  obtain ⟨child,alive⟩ := List.exists_mem_of_ne_nil _ hangs.children
  exact hangs.still.children child alive

private def slept : List Move :=
  [.receive .working,.prompt fun _ => .ok (.ok Session.sleeping),.route ∅,.route (AList.insert ⟨3⟩ none ∅)] ++
  List.replicate 8 (.route ∅) ++ List.replicate 10 (.execute .working)

private theorem slept_smooth {label : Move} (member : label ∈ slept) (world : World) : world.Smooth label := by
  cases label with
  | prompt getCommand =>
    obtain rfl : getCommand = fun _ => .ok (.ok Session.sleeping) := by simpa [slept] using member
    exact planned_sleeping
  | interrupt order => simp [slept] at member
  | execute os =>
    obtain rfl : os = .working := by simpa [slept] using member
    exact ExecInternal.works_working
  | _ => trivial

theorem settles_slept : ∃ trace world, ((system ⟨"localhost","nak","/"⟩).restrict Smooth).Run trace world ∧
    ¬world.AtPrompt ∧ Hangs (fun child => child.pid = ⟨3⟩) world ∧
    Leads (Goes fun _ => False) (fun place => place.1.AtPrompt) (world,1000) := by
  obtain ⟨world,run,waits,⟨received,routed,events,exited,writers⟩,readers,children,some⟩ :=
    System.ends_run (new ⟨"localhost","nak","/"⟩) next (fun _ _ => True)
    (fun world => ¬world.AtPrompt ∧ (world.output.length ≤ world.received ∧
      world.frontend.sent.length ≤ world.routed ∧ world.events.length = 0 ∧ world.exited = [] ∧ world.writers = []) ∧
      (∀ reader ∈ world.readers, world.WriteOpen reader.1 ∧ world.unsent reader.1 = []) ∧
      (∀ child ∈ world.children, child.pid = ⟨3⟩) ∧ world.children ≠ [])
    (show System.ends (new ⟨"localhost","nak","/"⟩) next _ _ slept = true by decide +kernel)
  have smooth := run.permitted fun label member state _ => slept_smooth member state
  have still : Still (fun child => child.pid = ⟨3⟩) world :=
    ⟨received,routed,List.eq_nil_of_length_eq_zero events,children,exited,writers,readers⟩
  exact ⟨_,world,smooth,waits,⟨still,some⟩,(settles smooth 1000).2⟩

end World
end Nak
