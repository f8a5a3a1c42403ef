import Nak.LineOrder
import Nak.ExecOwnership
import Nak.WorldEdits
import Nak.WorldReceives

/-! What a session asks of its backend reaches the event loop in order. While no process is
cancelled and the system calls succeed, nothing that it is given makes the event loop panic. -/
namespace Nak
open Library Session

namespace RemoteRequest

def command? : RemoteRequest → Option (ProcessId × RunCmd)
  | .beginCommand _ process command =>
    some (process.id,⟨command,⟨process.stdin⟩,⟨process.stdout⟩,⟨process.stderr⟩⟩)
  | _ => none

def direct : RemoteRequest → List GenericPipe
  | .openOutputFile id _ => [⟨id⟩]
  | .pipe ⟨id,.beginRead⟩ => [⟨id⟩]
  | _ => []

variable {message : RemoteRequest} {pid : ProcessId} {cmd : RunCmd} {pipe : GenericPipe}

theorem command_begins (begun : message.command? = some (pid,cmd)) : message.begins? = some pid := by
  cases message with
  | beginCommand blockFor process command =>
    obtain ⟨rfl,_⟩ := Prod.mk.inj (Option.some.inj begun)
    rfl
  | _ => cases begun

theorem command_inputs (begun : message.command? = some (pid,cmd)) (input : cmd.pipes.input pipe) :
    pipe ∈ message.inputs := by
  cases message with
  | beginCommand blockFor process command =>
    obtain ⟨_,rfl⟩ := Prod.mk.inj (Option.some.inj begun)
    obtain rfl := input
    exact List.mem_singleton_self _
  | _ => cases begun

theorem command_outputs (begun : message.command? = some (pid,cmd)) :
    message.outputs = [cmd.pipes.stdout.toGeneric,cmd.pipes.stderr.toGeneric] := by
  cases message with
  | beginCommand blockFor process command =>
    obtain ⟨_,rfl⟩ := Prod.mk.inj (Option.some.inj begun)
    rfl
  | _ => cases begun

theorem direct_inputs (asked : pipe ∈ message.direct) : pipe ∈ message.inputs := by
  unfold direct at asked
  split at asked
  · exact asked
  · exact asked
  · cases asked

theorem direct_command (asked : pipe ∈ message.direct) : message.command? = none := by
  cases message with
  | beginCommand => cases asked
  | _ => rfl

end RemoteRequest

def Commanded (seen : List Request) (pid : ProcessId) (cmd : RunCmd) : Prop :=
  ∃ request ∈ seen, request.message.command? = some (pid,cmd)

def Directed (seen : List Request) (pipe : GenericPipe) : Prop := ∃ request ∈ seen, pipe ∈ request.message.direct

section Requests
variable {seen : List Request} {request : Request} {pid : ProcessId} {cmd : RunCmd} {pipe : GenericPipe}

theorem commanded_snoc : Commanded (seen ++ [request]) pid cmd ↔
    Commanded seen pid cmd ∨ request.message.command? = some (pid,cmd) := by
  simp [Commanded,or_and_right,exists_or]

theorem directed_snoc : Directed (seen ++ [request]) pipe ↔ Directed seen pipe ∨ pipe ∈ request.message.direct := by
  simp [Directed,or_and_right,exists_or]

theorem mem_begun : pid ∈ begunCommands seen ↔ ∃ cmd, Commanded seen pid cmd := by
  rw [mem_begunCommands]
  constructor
  · intro given
    obtain ⟨⟨remoteId,message⟩,member,begins⟩ := given
    cases message with
    | beginCommand blockFor process command =>
      obtain rfl := Option.some.inj begins
      exact ⟨_,_,member,rfl⟩
    | _ => cases begins
  · intro given
    obtain ⟨cmd,request,member,begun⟩ := given
    exact ⟨request,member,RemoteRequest.command_begins begun⟩

theorem owners (guarded : Guarded Proper seen) : ExecInternal.Owners (Commanded seen) (Directed seen) where
  one := by
    intro pid cmd other first second
    obtain ⟨one,listed,begun⟩ := first
    obtain ⟨two,listed',begun'⟩ := second
    have once : Guarded (Unclaimed fun request : Request => request.message.begins?.toList) seen :=
      guarded.mono fun _ _ proper => proper.commands
    obtain rfl := once.claimed listed listed' (Option.mem_toList.mpr (RemoteRequest.command_begins begun))
      (Option.mem_toList.mpr (RemoteRequest.command_begins begun'))
    obtain ⟨_,rfl⟩ := Prod.mk.inj (Option.some.inj (begun.symm.trans begun'))
    rfl
  inputs := by
    intro pid pid' cmd cmd' pipe first second input input'
    obtain ⟨one,listed,begun⟩ := first
    obtain ⟨two,listed',begun'⟩ := second
    have once : Guarded (Unclaimed fun request : Request => request.message.inputs) seen :=
      guarded.mono fun _ _ proper => proper.inputs
    obtain rfl := once.claimed listed listed' (RemoteRequest.command_inputs begun input)
      (RemoteRequest.command_inputs begun' input')
    exact (Prod.mk.inj (Option.some.inj (begun'.symm.trans begun))).1
  outputs := by
    intro pid pid' cmd cmd' pipe first second output output'
    obtain ⟨one,listed,begun⟩ := first
    obtain ⟨two,listed',begun'⟩ := second
    have once : Guarded (Unclaimed fun request : Request => request.message.outputs) seen :=
      guarded.mono fun _ _ proper => proper.outputs
    obtain rfl := once.claimed listed listed'
      (show pipe ∈ _ by rw [RemoteRequest.command_outputs begun]; simpa [WritePipes.output] using output)
      (show pipe ∈ _ by rw [RemoteRequest.command_outputs begun']; simpa [WritePipes.output] using output')
    exact (Prod.mk.inj (Option.some.inj (begun'.symm.trans begun))).1
  direct := by
    intro pid cmd pipe first input second
    obtain ⟨one,listed,begun⟩ := first
    obtain ⟨two,listed',asked⟩ := second
    have once : Guarded (Unclaimed fun request : Request => request.message.inputs) seen :=
      guarded.mono fun _ _ proper => proper.inputs
    obtain rfl := once.claimed listed listed' (RemoteRequest.command_inputs begun input)
      (RemoteRequest.direct_inputs asked)
    rw [RemoteRequest.direct_command asked] at begun
    cases begun
  apart := by
    intro pid cmd given
    obtain ⟨request,listed,begun⟩ := given
    obtain ⟨before,after,rfl⟩ := List.append_of_mem listed
    have distinct := (guarded before request after rfl).apart
    rw [RemoteRequest.command_outputs begun] at distinct
    intro same
    simp [same] at distinct

end Requests

namespace ExecInternal
open Action
variable {os : Os} {exec : ExecInternal} {seen : List Request} {request : Request} {event : ExecEvent}

/-- What the request is routed to is handled, with the request among those that are seen. -/
theorem Owned.serves (owned : Owned (Commanded seen) (Directed seen) [] exec)
    (guarded : Guarded Proper (seen ++ [request]))
    (expected : Shell.Expected request.message) {order : OrderedMap ProcessId Condition}
    (routed : World.routeRequest order request.message = .ok event) (works : Os.Works os)
    (edits : ∀ editId, event.answers? = some editId → ∃ pid path, exec.waitingEdits.lookup editId = some (pid,path) ∧
      pid ∈ exec.machine.running) :
    ∃ next, handle os event exec = .ok next ∧
      Owned (Commanded (seen ++ [request])) (Directed (seen ++ [request])) [] next := by
  have proper := guarded seen request [] rfl
  have holders := owners guarded
  -- A request that begins no command and takes no end leaves both kinds of owners as they were.
  have plain (none : request.message.command? = Option.none) (undirected : request.message.direct = []) :
      Commanded (seen ++ [request]) = Commanded seen ∧ Directed (seen ++ [request]) = Directed seen := by
    constructor
    · ext pid cmd
      simp [commanded_snoc,none]
    · ext pipe
      simp [directed_snoc,undirected]
  obtain ⟨remoteId,message⟩ := request
  cases message with
  | beginCommand blockFor process command =>
    obtain ⟨_,perm,last⟩ := Outcome.bind_ok.mp routed
    obtain rfl := Except.ok.inj last
    have same : Directed (seen ++ [⟨remoteId,.beginCommand blockFor process command⟩]) = Directed seen := by
      ext pipe
      simp [directed_snoc,RemoteRequest.direct]
    rw [same] at holders ⊢
    refine owned.begins ?_ ?_ ?_ holders works
    · intro other cmd
      simp [commanded_snoc,RemoteRequest.command?,eq_comm]
    · intro cmd begun
      obtain ⟨other,member,begun⟩ := begun
      have fresh := proper.commands other member process.id (by simp [RemoteRequest.begins?])
      exact fresh (Option.mem_toList.mpr (RemoteRequest.command_begins begun))
    · intro entry member
      have listed := ((Outcome.assert_ok _ _).mp perm).mem_iff.mp member
      obtain ⟨begun,none⟩ := proper.blocks blockFor process command rfl entry listed
      exact ⟨mem_begun.mp begun,none⟩
  | openOutputFile id path =>
    obtain rfl := Except.ok.inj routed
    have same : Commanded (seen ++ [⟨remoteId,.openOutputFile id path⟩]) = Commanded seen := by
      ext pid cmd
      simp [commanded_snoc,RemoteRequest.command?]
    rw [same]
    have unclaimed (other : Request) (member : other ∈ seen) : ⟨id⟩ ∉ other.message.inputs :=
      proper.inputs other member ⟨id⟩ (List.mem_singleton_self _)
    refine owned.opens ?_ ?_ ?_ works path
    · intro other
      simp [directed_snoc,RemoteRequest.direct,WritePipe.toGeneric]
    · intro asked
      obtain ⟨other,member,asked⟩ := asked
      exact unclaimed other member (RemoteRequest.direct_inputs asked)
    · intro pid cmd begun used
      obtain ⟨other,member,begun⟩ := begun
      rcases used with input | output
      · exact unclaimed other member (RemoteRequest.command_inputs begun input)
      · apply proper.file id path rfl other member
        rw [RemoteRequest.command_outputs begun]
        simpa [WritePipes.output,WritePipe.toGeneric] using output
  | finishEdit editId data =>
    obtain rfl := Except.ok.inj routed
    obtain ⟨commands,directs⟩ := plain rfl rfl
    rw [commands,directs] at holders ⊢
    obtain ⟨pid,path,found,running⟩ := edits editId rfl
    obtain ⟨next,ok,after⟩ := owned.edited holders works found running data
    exact ⟨next,handle_ok.mpr ok,after⟩
  | pipe envelope =>
    obtain rfl := Except.ok.inj routed
    obtain ⟨id,msg⟩ := envelope
    cases msg with
    | beginRead =>
      have same : Commanded (seen ++ [⟨remoteId,.pipe ⟨id,.beginRead⟩⟩]) = Commanded seen := by
        ext pid cmd
        simp [commanded_snoc,RemoteRequest.command?]
      rw [same]
      have unclaimed (other : Request) (member : other ∈ seen) : ⟨id⟩ ∉ other.message.inputs :=
        proper.inputs other member ⟨id⟩ (List.mem_singleton_self _)
      refine owned.reading ?_ ?_ ?_ works
      · intro other
        simp [directed_snoc,RemoteRequest.direct]
      · intro asked
        obtain ⟨other,member,asked⟩ := asked
        exact unclaimed other member (RemoteRequest.direct_inputs asked)
      · intro pid cmd begun input
        obtain ⟨other,member,begun⟩ := begun
        exact unclaimed other member (RemoteRequest.command_inputs begun input)
    | read limit =>
      obtain ⟨commands,directs⟩ := plain rfl rfl
      rw [commands,directs]
      exact ⟨exec,handle_ok.mpr rfl,owned⟩
    | closed => exact expected.elim
    | data => exact expected.elim
  | _ => exact expected.elim

end ExecInternal

def ExecEvent.internal : ExecEvent → Bool
  | .completed _ _ => true
  | .pipeOutput _ _ _ => true
  | .pipeClosed _ _ => true
  | _ => false

namespace World
variable {world after : World} {move : Move} {info : RemoteInfo} {trace : List Move}

def Routed (request : Request) (event : ExecEvent) : Prop := ∃ order, routeRequest order request.message = .ok event

theorem Routed.external {request : Request} {event : ExecEvent} (routed : Routed request event) :
    event.internal = false := by
  obtain ⟨remoteId,message⟩ := request
  obtain ⟨order,routed⟩ := routed
  cases message with
  | beginCommand blockFor process command =>
    obtain ⟨_,_,last⟩ := Outcome.bind_ok.mp routed
    obtain rfl := Except.ok.inj last
    rfl
  | beginRemote | endRemote | listDirectory => cases routed
  | _ =>
    obtain rfl := Except.ok.inj routed
    rfl

/-- The user's commands become plans of `parse_command_simple` and are not interrupted, and no
system call fails that the event loop relies on. -/
def Smooth (_ : World) : Move → Prop
  | .prompt getCommand => Planned getCommand
  | .interrupt _ => False
  | .execute os => ExecInternal.Os.Works os
  | _ => True

/-- The event loop has seen the first requests, and the others are on their way in order. -/
structure Serving (world : World) : Prop where
  ordered : Shell.Ordered world.frontend
  addressed : Shell.Addressed world.frontend
  readers : ∀ reader ∈ world.readers, reader.2.handle.id? = some reader.1
  seen : ∃ seen coming, world.frontend.sent.take world.routed = seen ++ coming ∧
    List.Forall₂ Routed coming (world.events.filter (!·.internal)) ∧
    ExecInternal.Owned (Commanded seen) (Directed seen) [] world.exec

namespace Serving

theorem start : Serving (new info) where
  ordered := ⟨Guarded.nil,by simp [new,Endpoint.new]⟩
  addressed := by simp [Shell.Addressed,new,Endpoint.new]
  readers := by simp [new]
  seen := by
    refine ⟨[],[],rfl,.nil,?_⟩
    have none (pid : ProcessId) (cmd : RunCmd) : Commanded [] pid cmd = False := by simp [Commanded]
    have undirected (pipe : GenericPipe) : Directed [] pipe = False := by simp [Directed]
    have same : Commanded [] = (fun _ _ => False) ∧ Directed [] = fun _ => False := by
      constructor
      · ext pid cmd
        simp [none]
      · ext pipe
        simp [undirected]
    rw [same.1,same.2]
    exact ExecInternal.owned_new

private theorem kept (serving : Serving world) (ledger : Ledger world) {more : List Request}
    (sent : after.frontend.sent = world.frontend.sent ++ more) (ordered : Shell.Ordered after.frontend)
    (addressed : Shell.Addressed after.frontend) (routed : after.routed = world.routed) (exec : after.exec = world.exec)
    (readers : ∀ reader ∈ after.readers, reader ∈ world.readers)
    (events : after.events.filter (!·.internal) = world.events.filter (!·.internal)) : Serving after := by
  obtain ⟨seen,coming,split,queued,owned⟩ := serving.seen
  refine ⟨ordered,addressed,fun reader member => serving.readers reader (readers reader member),seen,coming,?_,
    events ▸ queued,exec ▸ owned⟩
  rw [routed,sent,List.take_append_of_le_length ledger.routed,split]

private theorem still (serving : Serving world) (ledger : Ledger world) (frontend : after.frontend = world.frontend)
    (routed : after.routed = world.routed) (exec : after.exec = world.exec)
    (readers : ∀ reader ∈ after.readers, reader ∈ world.readers)
    (events : after.events.filter (!·.internal) = world.events.filter (!·.internal)) : Serving after :=
  serving.kept ledger (by rw [frontend,List.append_nil]) (frontend ▸ serving.ordered) (frontend ▸ serving.addressed)
    routed exec readers events

private theorem prompt (serving : Serving world) (ledger : Ledger world) (receptive : world.session.Receptive)
    {getCommand : String → Outcome (Except Error Plan)} (ok : world.next (.prompt getCommand) = .ok after) :
    Serving after := by
  obtain ⟨line,frontend,atPrompt,taken,rfl⟩ := prompt_turn ok
  rw [turn_prompt atPrompt] at taken
  obtain ⟨more,sent,_⟩ := (Shell.readLine_begins taken).sent
  exact serving.kept ledger sent (Shell.readLine_ordered serving.ordered taken)
    (Shell.readLine_addressed receptive.tracks serving.addressed taken) rfl rfl (fun _ => id) rfl

private theorem receive (serving : Serving world) (ledger : Ledger world) (receptive : world.session.Receptive)
    {response : RemoteResponse} {frontend : Endpoint StackedRemotes}
    (receipt : Receipt world.frontend ⟨0,response⟩ frontend) :
    Serving { world with frontend, received := world.received + 1 } := by
  have silent (sent : frontend.sent = world.frontend.sent) (ids : frontend.ids = world.frontend.ids) :
      Serving { world with frontend, received := world.received + 1 } :=
    @kept world { world with frontend, received := world.received + 1 } serving ledger [] (by rw [sent,List.append_nil])
      (serving.ordered.same sent (by rw [ids])) (serving.addressed.same sent) rfl rfl (fun _ => id) rfl
  cases receipt with
  | edited remoteId commandId editId name data parent newData shown told job =>
    obtain rfl := receptive.employed commandId parent job
    refine serving.kept ledger rfl (serving.ordered.plain rfl rfl rfl rfl le_rfl) ?_ rfl rfl (fun _ => id) rfl
    refine @Shell.Addressed.more _ _ serving.addressed [.finishEdit editId newData] ?_ rfl
    simp [Shell.Expected]
  | _ => exact silent rfl rfl

private theorem route (serving : Serving world) {order : OrderedMap ProcessId Condition} {request : Request}
    {event : ExecEvent} (found : world.frontend.sent[world.routed]? = some request)
    (routed : routeRequest order request.message = .ok event) :
    Serving { world with routed := world.routed + 1, events := world.events ++ [event] } := by
  obtain ⟨seen,coming,split,queued,owned⟩ := serving.seen
  have external : event.internal = false := Routed.external ⟨order,routed⟩
  refine ⟨serving.ordered,serving.addressed,serving.readers,seen,coming ++ [request],?_,?_,owned⟩
  · rw [List.take_add_one,found,split,List.append_assoc]
    rfl
  · change List.Forall₂ Routed _ ((world.events ++ [event]).filter _)
    rw [List.filter_append]
    refine List.rel_append queued ?_
    simpa [external] using ⟨order,routed⟩

theorem handles (serving : Serving world) (kept : Kept world) {os : Os} (works : ExecInternal.Os.Works os)
    {event : ExecEvent} {events : List ExecEvent} (found : world.events = event :: events) :
    ∃ exec, ExecInternal.handle os event world.exec = .ok exec ∧
      Serving ({ world with events, exec }.begin (exec.effects.drop world.exec.effects.length)) := by
  obtain ⟨seen,coming,split,queued,owned⟩ := serving.seen
  have before : Guarded Proper (seen ++ coming) := split ▸ (List.take_append_drop world.routed world.frontend.sent ▸
    serving.ordered.proper : Guarded Proper (world.frontend.sent.take world.routed ++ _)).left
  have holders := owners before.left
  rw [found] at queued
  have reading {exec : ExecInternal} (ok : ExecInternal.handle os event world.exec = .ok exec) :
      ∀ reader ∈ world.readers ++ (exec.effects.drop world.exec.effects.length).filterMap Effect.reader?,
        reader.2.handle.id? = some reader.1 := by
    intro reader member
    rcases List.mem_append.mp member with old | new
    · exact serving.readers reader old
    · obtain ⟨effect,caused,shape⟩ := List.mem_filterMap.mp new
      cases effect with
      | reader pipe handle =>
        obtain rfl := Option.some.inj shape
        have traced := kept.coherent.traced
        exact owned.readers (ExecInternal.handle_handled traced.inv traced.named ok) ok caused
      | _ => cases shape
  by_cases internal : event.internal = true
  · rw [List.filter_cons_of_neg (by simp [internal])] at queued
    have unseen (done : ∃ exec, ExecInternal.handle os event world.exec = .ok exec ∧
        ExecInternal.Owned (Commanded seen) (Directed seen) [] exec) : ∃ exec,
        ExecInternal.handle os event world.exec = .ok exec ∧
          Serving ({ world with events, exec }.begin (exec.effects.drop world.exec.effects.length)) := by
      obtain ⟨exec,ok,after⟩ := done
      exact ⟨exec,ok,serving.ordered,serving.addressed,reading ok,seen,coming,split,queued,after⟩
    cases event with
    | completed pid exitCode =>
      have active := kept.accounted.outstanding pid
      rw [outstanding,found,List.countP_cons,ExecInternal.active] at active
      have running : pid ∈ world.exec.machine.running := by
        cases state : world.exec.machine.running.lookup pid with
        | some state => exact FiniteMap.mem_of_lookup state
        | none =>
          rw [state] at active
          simp [ExecEvent.reports] at active
      obtain ⟨exec,ok,after⟩ := owned.complete holders works running exitCode
      exact unseen ⟨exec,ExecInternal.handle_ok.mpr ok,after⟩
    | pipeOutput pipe data endOffset =>
      obtain ⟨exec,ok,after⟩ := owned.sends works (.pipe ⟨pipe.toWrite.val,.data data endOffset⟩)
      exact unseen ⟨exec,ExecInternal.handle_ok.mpr ok,after⟩
    | pipeClosed pipe endOffset =>
      obtain ⟨exec,ok,after⟩ := owned.sends works (.pipe ⟨pipe.toWrite.val,.closed endOffset⟩)
      exact unseen ⟨exec,ExecInternal.handle_ok.mpr ok,after⟩
    | _ => cases internal
  · rw [List.filter_cons_of_pos (by simpa using internal)] at queued
    cases queued with
    | @cons request _ coming _ routed later =>
      obtain ⟨order,routed⟩ := routed
      have next : Guarded Proper (seen ++ [request]) := by
        rw [← List.singleton_append,← List.append_assoc] at before
        exact before.left
      have listed : request ∈ world.frontend.sent := by
        apply List.mem_of_mem_take (i := world.routed)
        simp [split]
      have edits (editId : Nat) (answers : event.answers? = some editId) : ∃ pid path,
          world.exec.waitingEdits.lookup editId = some (pid,path) ∧ pid ∈ world.exec.machine.running := by
        have share := kept.editing.share editId
        rw [editShare,found,List.countP_cons] at share
        have waits : editId ∈ world.exec.waitingEdits := by
          by_contra absent
          rw [ExecInternal.awaited,if_neg absent] at share
          simp [answers] at share
        obtain ⟨⟨pid,path⟩,found'⟩ := Finmap.mem_iff.mp waits
        obtain ⟨edits,_⟩ := kept.edits.entries editId _ found'
        exact ⟨pid,path,found',FiniteMap.mem_of_lookup edits⟩
      obtain ⟨exec,ok,after⟩ := owned.serves next (serving.addressed request listed).2 routed works edits
      refine ⟨exec,ok,serving.ordered,serving.addressed,reading ok,seen ++ [request],coming,?_,later,after⟩
      change world.frontend.sent.take world.routed = _
      rw [split,List.append_assoc,List.singleton_append]

theorem moves (serving : Serving world) (kept : Kept world) (receptive : world.session.Receptive)
    (smooth : world.Smooth move) (ok : world.next move = .ok after) : Serving after := by
  have ledger := kept.coherent.ledger
  have moved := next_moves ok
  cases moved with
  | prompt getCommand => exact serving.prompt ledger receptive ok
  | receive terminal response frontend found receives =>
    exact serving.receive ledger receptive (receive_receipt found ok)
  | interrupt order => exact smooth.elim
  | route order request event found routed => exact serving.route found routed
  | execute os event events exec found handled =>
    obtain ⟨last,ok,after⟩ := serving.handles kept smooth found
    obtain rfl := Except.ok.inj (handled.symm.trans ok)
    exact after
  | write child stream data alive some =>
    obtain ⟨written,unsent,shape⟩ := world.put_shape (outputOf child stream) data
    rw [shape]
    exact serving.still ledger rfl rfl rfl (fun _ => id) rfl
  | pour writer size listed some enough =>
    obtain ⟨written,unsent,shape⟩ := world.put_shape writer.1 (writer.2.take size)
    rw [shape]
    exact serving.still ledger rfl rfl rfl (fun _ => id) rfl
  | consume child size pipe alive reads => exact serving.still ledger rfl rfl rfl (fun _ => id) rfl
  | consumeFile child size => exact serving
  | exit child exitCode alive => exact serving.still ledger rfl rfl rfl (fun _ => id) rfl
  | close writer listed => exact serving.still ledger rfl rfl rfl (fun _ => id) rfl
  | report exited waits => exact serving.still ledger rfl rfl rfl (fun _ => id) (by simp [ExecEvent.internal])
  | forward reader size pipe listed reads some enough =>
    exact serving.still ledger rfl rfl rfl (fun _ => id) (by simp [ExecEvent.internal])
  | eof reader pipe listed reads empty closed =>
    exact serving.still ledger rfl rfl rfl (fun _ => List.mem_of_mem_erase) (by simp [ExecEvent.internal])

end Serving

section Runs
variable (run : ((system info).restrict Smooth).Run trace world)
include run

theorem smooth_simple : ((system info).restrict Simple).Run trace world := by
  refine run.permitted fun label _ state smooth => ?_
  cases label with
  | prompt => exact smooth
  | _ => trivial

theorem smooth_delivers : ((system info).restrict Delivers).Run trace world := by
  refine run.permitted fun label _ state smooth => ?_
  cases label with
  | execute os => exact ExecInternal.Os.Works.send smooth
  | _ => trivial

end Runs

theorem run_serving (run : ((system info).restrict Smooth).Run trace world) : Serving world := by
  refine run.invariant (fun _ => Serving) ?_ ?_
  · intro world start
    obtain rfl : world = new info := start
    exact .start
  · intro trace world move after run serving taken
    exact serving.moves (run_kept (smooth_delivers run)) (run_receptive (smooth_simple run)) taken.2 taken.1

theorem Serving.executes (serving : Serving world) (kept : Kept world) (waits : world.events ≠ []) {os : Os}
    (works : ExecInternal.Os.Works os) : ∃ after, world.next (.execute os) = .ok after := by
  cases found : world.events with
  | nil => exact absurd found waits
  | cons event events =>
    obtain ⟨exec,ok,_⟩ := serving.handles kept works found
    refine ⟨{ world with events, exec }.begin (exec.effects.drop world.exec.effects.length),?_⟩
    unfold next
    simp only [found,ok,Outcome.ok_bind]
    rfl

/-- The event loop handles whatever comes next. -/
theorem execute_succeeds (run : ((system info).restrict Smooth).Run trace world) (waits : world.events ≠ [])
    {os : Os} (works : ExecInternal.Os.Works os) : ∃ after, world.next (.execute os) = .ok after :=
  (run_serving run).executes (run_kept (smooth_delivers run)) waits works

private def exiting : List Move :=
  [.receive .working,.prompt fun _ => .ok (.ok Session.sleeping),.route ∅,.route (AList.insert ⟨3⟩ none ∅)] ++
  List.replicate 8 (.route ∅) ++ [.execute .working,.exit ⟨⟨3⟩,.fromPipe 0 ⟨2⟩,.fromPipe 1 ⟨0⟩,.fromPipe 2 ⟨1⟩⟩ 0,
    .report (⟨3⟩,0)]

private theorem exiting_smooth {label : Move} (member : label ∈ exiting) (world : World) : world.Smooth label := by
  cases label with
  | prompt getCommand =>
    obtain rfl : getCommand = fun _ => .ok (.ok Session.sleeping) := by simpa [exiting] using member
    exact planned_sleeping
  | interrupt order => simp [exiting] at member
  | execute os =>
    obtain rfl : os = .working := by simpa [exiting] using member
    exact ExecInternal.works_working
  | _ => trivial

theorem execute_succeeds_exiting : ∃ trace world, ((system ⟨"localhost","nak","/"⟩).restrict Smooth).Run trace world ∧
    (∃ event ∈ world.events, event.reports ⟨3⟩ = true) ∧ ∃ after, world.next (.execute .working) = .ok after := by
  obtain ⟨world,run,reported⟩ := System.ends_run (new ⟨"localhost","nak","/"⟩) next (fun _ _ => True)
    (fun world => ∃ event ∈ world.events, event.reports ⟨3⟩ = true)
    (show System.ends (new ⟨"localhost","nak","/"⟩) next _ _ exiting = true by decide +kernel)
  have smooth := run.permitted fun label member state _ => exiting_smooth member state
  have ⟨event,waits,_⟩ := reported
  exact ⟨_,world,smooth,reported,execute_succeeds smooth (List.ne_nil_of_mem waits) ExecInternal.works_working⟩

end World
end Nak
