import Nak.ExecLedger
import Nak.LineRequests
import Nak.PipeStreams

/-! Where a command and a read are. Each of them is in one place at a time: in a request that
the backend has yet to read, in its event queue, with its event loop or a reader thread, or
in the message that ends it. -/
namespace Nak
open Library

def jobIds (lines : List Line) : List ProcessId := lines.flatMap fun line => line.all.map Job.id

def readPipes (lines : List Line) : List GenericPipe := lines.flatMap Line.readPipes

theorem jobIds_append (lines more : List Line) :
    jobIds (lines ++ more) = jobIds lines ++ jobIds more := List.flatMap_append

theorem readPipes_append (lines more : List Line) : readPipes (lines ++ more) = readPipes lines ++ readPipes more :=
  List.flatMap_append

theorem jobIds_single (line : Line) : jobIds [line] = line.all.map Job.id := List.flatMap_singleton ..

theorem readPipes_single (line : Line) : readPipes [line] = line.readPipes := List.flatMap_singleton ..

def PipeEnvelope.closes? : PipeEnvelope → Option GenericPipe
  | ⟨id,.closed _⟩ => some ⟨id⟩
  | _ => none

def closings (envelopes : List PipeEnvelope) : List GenericPipe := envelopes.filterMap PipeEnvelope.closes?

theorem closings_append (envelopes more : List PipeEnvelope) :
    closings (envelopes ++ more) = closings envelopes ++ closings more := List.filterMap_append ..

theorem closedReads_envelopes (received : List RemoteResponse) :
    closedReads received = closings (received.filterMap RemoteResponse.envelope?) := by
  rw [closings,List.filterMap_filterMap]
  refine List.filterMap_congr fun response _ => ?_
  cases response with
  | pipe envelope =>
    obtain ⟨id,msg⟩ := envelope
    cases msg <;> rfl
  | _ => rfl

theorem begunReads_idle {more : List Request} (idle : ∀ request ∈ more, Shell.Idle request) : begunReads more = [] := by
  refine List.filterMap_eq_nil_iff.mpr fun request member => ?_
  rcases idle request member with given | given
  · obtain ⟨id,same⟩ := given
    rw [same]
    rfl
  · obtain ⟨editId,data,same⟩ := given
    rw [same]
    rfl

theorem Line.draws_read {line : Line} {pipe : GenericPipe} (member : pipe ∈ line.readPipes) : line.Draws pipe.val := by
  rcases List.mem_cons.mp member with rfl | member
  · exact draws_pipe directory_mem (Or.inr (Or.inl rfl))
  · rcases List.mem_cons.mp member with rfl | member
    · exact draws_pipe directory_mem (Or.inr (Or.inr rfl))
    · obtain ⟨entry,listed,rfl⟩ := List.mem_map.mp member
      exact draws_sink listed

namespace World
variable {world after : World} {move : Move} {info : RemoteInfo} {pid : ProcessId} {pipe : GenericPipe}

def unrouted (world : World) : List Request := world.frontend.sent.drop world.routed

/-- How often the command is in a request, in the event queue, unfinished in the event loop,
and reported to the frontend. -/
def commandShare (world : World) (pid : ProcessId) : Nat :=
  (begunCommands world.unrouted).count pid + world.events.countP (·.enqueues pid) + world.exec.machine.owed pid +
    (reportedCommands world.output).count pid

/-- How often the read is in a request, in the event queue, with a thread, and closed. -/
def readShare (world : World) (pipe : GenericPipe) : Nat :=
  (begunReads world.unrouted).count pipe + world.events.countP (·.reads? = some pipe) +
    (world.readers.map Prod.fst).count pipe + (closings world.envelopes).count pipe

theorem commandShare_tally (world : World) (pid : ProcessId) : world.commandShare pid =
    (begunCommands world.unrouted).count pid + world.events.countP (·.enqueues pid) +
      ExecInternal.tally pid world.exec := by
  rw [commandShare,Nat.add_assoc _ _ (List.count ..),ExecInternal.tally,← ExecInternal.reported_responses]
  rfl

def promptInputs (getCommand : String → Outcome (Except Error Plan)) : Inputs :=
  ⟨.working,fun _ => .ok (),.ok .key,getCommand,[]⟩

theorem prompt_turn {getCommand : String → Outcome (Except Error Plan)}
    (ok : world.next (.prompt getCommand) = .ok after) : ∃ line frontend, world.AtPrompt ∧
      Shell.turn (promptInputs getCommand) world.frontend = .ok (.ok (.begun line),frontend) ∧
      after = { world with frontend, lines := world.lines ++ [line] } := by
  obtain ⟨_,at?,rest⟩ := Outcome.bind_ok.mp ok
  obtain ⟨⟨turn,_⟩,turned,last⟩ := Outcome.bind_ok.mp rest
  obtain ⟨frontend,taken,rfl⟩ := turn_ok turned
  cases turn with
  | begun line =>
    obtain rfl := Except.ok.inj last
    exact ⟨line,frontend,(Outcome.assert_ok _ _).mp at?,taken,rfl⟩
  | handled => cases last
  | closed => cases last

theorem unrouted_cons {request : Request} (found : world.frontend.sent[world.routed]? = some request) :
    world.unrouted = request :: world.frontend.sent.drop (world.routed + 1) := by
  obtain ⟨bound,rfl⟩ := List.getElem?_eq_some_iff.mp found
  exact List.drop_eq_getElem_cons bound

section Route
variable {order : OrderedMap ProcessId Condition} {message : RemoteRequest} {event : ExecEvent}

theorem routed_enqueues (routed : routeRequest order message = .ok event) (pid : ProcessId) :
    event.enqueues pid = decide (message.begins? = some pid) := by
  cases message with
  | beginCommand blockFor process command =>
    obtain ⟨_,_,last⟩ := Outcome.bind_ok.mp routed
    obtain rfl := Except.ok.inj last
    simp [ExecEvent.enqueues,RemoteRequest.begins?]
  | beginRemote | endRemote | listDirectory => cases routed
  | _ =>
    obtain rfl := Except.ok.inj routed
    rfl

theorem routed_reads (routed : routeRequest order message = .ok event) : event.reads? = message.reads? := by
  cases message with
  | beginCommand blockFor process command =>
    obtain ⟨_,_,last⟩ := Outcome.bind_ok.mp routed
    obtain rfl := Except.ok.inj last
    rfl
  | beginRemote | endRemote | listDirectory => cases routed
  | pipe envelope =>
    obtain rfl := Except.ok.inj routed
    obtain ⟨id,msg⟩ := envelope
    cases msg <;> rfl
  | _ =>
    obtain rfl := Except.ok.inj routed
    rfl

end Route

structure Ledger (world : World) : Prop where
  routed : world.routed ≤ world.frontend.sent.length
  commands : begunCommands world.frontend.sent = jobIds world.lines
  reads : begunReads world.frontend.sent = readPipes world.lines
  commandsOnce : (jobIds world.lines).Nodup
  readsOnce : (readPipes world.lines).Nodup
  commandShare : ∀ pid, world.commandShare pid = (jobIds world.lines).count pid
  readShare : ∀ pipe, world.readShare pipe = (readPipes world.lines).count pipe
  /-- A thread that was started reads on until it has announced the end of its pipe. -/
  threads : ∀ pipe, ((world.exec.effects.filterMap Effect.reader?).map Prod.fst).count pipe =
    (world.readers.map Prod.fst).count pipe + (closings world.envelopes).count pipe
  speaking : ExecInternal.Speaking [] world.exec

namespace Ledger

theorem start : Ledger (new info) where
  routed := le_rfl
  commands := rfl
  reads := rfl
  commandsOnce := List.nodup_nil
  readsOnce := List.nodup_nil
  commandShare _ := rfl
  readShare _ := rfl
  threads _ := rfl
  speaking := ExecInternal.speaking_new

theorem once (ledger : Ledger world) (pid : ProcessId) : world.commandShare pid ≤ 1 :=
  (ledger.commandShare pid).trans_le (List.nodup_iff_count_le_one.mp ledger.commandsOnce pid)

theorem readOnce (ledger : Ledger world) (pipe : GenericPipe) : world.readShare pipe ≤ 1 :=
  (ledger.readShare pipe).trans_le (List.nodup_iff_count_le_one.mp ledger.readsOnce pipe)

private theorem kept (ledger : Ledger world) (lines : after.lines = world.lines)
    (sent : after.frontend.sent = world.frontend.sent) (routed : after.routed = world.routed)
    (exec : after.exec = world.exec) (commands : ∀ pid, after.commandShare pid = world.commandShare pid)
    (reads : ∀ pipe, after.readShare pipe = world.readShare pipe)
    (threads : ∀ pipe, (after.readers.map Prod.fst).count pipe + (closings after.envelopes).count pipe =
      (world.readers.map Prod.fst).count pipe + (closings world.envelopes).count pipe) : Ledger after where
  routed := by
    rw [routed,sent]
    exact ledger.routed
  commands := by rw [sent,lines,ledger.commands]
  reads := by rw [sent,lines,ledger.reads]
  commandsOnce := lines ▸ ledger.commandsOnce
  readsOnce := lines ▸ ledger.readsOnce
  commandShare pid := by rw [commands,lines,ledger.commandShare]
  readShare pipe := by rw [reads,lines,ledger.readShare]
  threads pipe := by rw [exec,threads,ledger.threads]
  speaking := exec ▸ ledger.speaking

private theorem sends (ledger : Ledger world) {frontend : Endpoint StackedRemotes} {received : Nat}
    {more : List Request} {lines : List Line} (sent : frontend.sent = world.frontend.sent ++ more)
    (commands : begunCommands more = jobIds lines) (reads : begunReads more = readPipes lines)
    (commandsOnce : (jobIds (world.lines ++ lines)).Nodup) (readsOnce : (readPipes (world.lines ++ lines)).Nodup) :
    Ledger { world with frontend, received, lines := world.lines ++ lines } := by
  have waiting : frontend.sent.drop world.routed = world.unrouted ++ more := by
    rw [sent,List.drop_append_of_le_length ledger.routed]
    rfl
  refine ⟨?_,?_,?_,commandsOnce,readsOnce,?_,?_,ledger.threads,ledger.speaking⟩
  · change world.routed ≤ frontend.sent.length
    rw [sent,List.length_append]
    exact ledger.routed.trans (Nat.le_add_right _ _)
  · change begunCommands frontend.sent = _
    rw [sent,Session.begunCommands_append,ledger.commands,commands,jobIds_append]
  · change begunReads frontend.sent = _
    rw [sent,Session.begunReads_append,ledger.reads,reads,readPipes_append]
  · intro pid
    have before := ledger.commandShare pid
    change (begunCommands (frontend.sent.drop world.routed)).count pid + world.events.countP _ +
      world.exec.machine.owed pid + (reportedCommands world.output).count pid =
      (jobIds (world.lines ++ lines)).count pid
    rw [waiting,Session.begunCommands_append,commands,jobIds_append,List.count_append,List.count_append,← before,
      World.commandShare]
    omega
  · intro pipe
    have before := ledger.readShare pipe
    change (begunReads (frontend.sent.drop world.routed)).count pipe + world.events.countP _ +
      (world.readers.map Prod.fst).count pipe + (closings world.envelopes).count pipe =
      (readPipes (world.lines ++ lines)).count pipe
    rw [waiting,Session.begunReads_append,reads,readPipes_append,List.count_append,List.count_append,← before,
      World.readShare]
    omega

private theorem quiet (ledger : Ledger world) {frontend : Endpoint StackedRemotes} {received : Nat}
    (unbegun : Shell.Unbegun world.frontend frontend) : Ledger { world with frontend, received } := by
  obtain ⟨_,more,sent,idle⟩ := unbegun
  have sends := @sends _ ledger frontend received more [] sent (Session.begunCommands_idle idle) (begunReads_idle idle)
  rw [List.append_nil] at sends
  exact sends ledger.commandsOnce ledger.readsOnce

private theorem prompt (ledger : Ledger world) (traced : Traced world) {inputs : Inputs} {line : Line}
    {frontend : Endpoint StackedRemotes}
    (read : Shell.readLine inputs world.frontend = .ok (.ok (.begun line),frontend)) :
    Ledger { world with frontend, lines := world.lines ++ [line] } := by
  have requests := Shell.readLine_requests read
  have begins := Shell.readLine_begins read
  obtain ⟨more,sent,_⟩ := begins.sent
  have commands := requests.commands
  have reads := requests.reads
  rw [sent,Session.begunCommands_append,← jobIds_single] at commands
  rw [sent,Session.begunReads_append,← readPipes_single] at reads
  refine ledger.sends sent (List.append_cancel_left commands) (List.append_cancel_left reads) ?_ ?_
  · rw [jobIds_append,jobIds_single]
    refine ledger.commandsOnce.append requests.distinct ?_
    intro pid old new
    obtain ⟨other,listed,among⟩ := List.mem_flatMap.mp old
    obtain ⟨job,member,rfl⟩ := List.mem_map.mp among
    obtain ⟨twin,member',same⟩ := List.mem_map.mp new
    have drawn := begins.sound.ids twin member'
    rw [same] at drawn
    exact absurd (traced.laid.below listed (Line.draws_job member)) (not_lt.mpr drawn.1)
  · rw [readPipes_append,readPipes_single]
    refine ledger.readsOnce.append requests.apart ?_
    intro pipe old new
    obtain ⟨other,listed,member⟩ := List.mem_flatMap.mp old
    have drawn := begins.sound.draws (Line.draws_read new)
    exact absurd (traced.laid.below listed (Line.draws_read member)) (not_lt.mpr drawn.1)

private theorem pushed (ledger : Ledger world) {event : ExecEvent} (lines : after.lines = world.lines)
    (frontend : after.frontend = world.frontend) (routed : after.routed = world.routed) (exec : after.exec = world.exec)
    (info : after.info = world.info) (events : after.events = world.events ++ [event])
    (silent : ∀ pid, event.enqueues pid = false) (unread : event.reads? = none)
    (readers : (world.readers.map Prod.fst).Perm (closings event.envelope?.toList ++ after.readers.map Prod.fst)) :
    Ledger after := by
  have waiting : after.unrouted = world.unrouted := by rw [unrouted,unrouted,frontend,routed]
  have told : closings after.envelopes = closings world.envelopes ++ closings event.envelope?.toList := by
    rw [envelopes_push exec info events,closings_append]
  refine ledger.kept lines (by rw [frontend]) routed exec ?_ ?_ ?_
  · intro pid
    rw [World.commandShare,World.commandShare,waiting,events,exec,output,output,info,exec,List.countP_append]
    simp [silent]
  · intro pipe
    have moved := readers.count_eq pipe
    rw [List.count_append] at moved
    rw [World.readShare,World.readShare,waiting,events,told,List.countP_append,List.count_append,moved]
    simp only [List.countP_singleton,unread,reduceCtorEq,decide_false,Bool.false_eq_true,if_false]
    omega
  · intro pipe
    rw [told,List.count_append,readers.count_eq pipe,List.count_append]
    omega

private theorem route (ledger : Ledger world) (traced : Traced world) {order : OrderedMap ProcessId Condition}
    {request : Request} {event : ExecEvent} (found : world.frontend.sent[world.routed]? = some request)
    (routed : routeRequest order request.message = .ok event) :
    Ledger { world with routed := world.routed + 1, events := world.events ++ [event] } := by
  have silent := (routed_drawn traced.laid (traced.sent request (List.mem_of_getElem? found)) routed).2
  have waiting := unrouted_cons found
  obtain ⟨bound,_⟩ := List.getElem?_eq_some_iff.mp found
  have same : ({ world with routed := world.routed + 1, events := world.events ++ [event] } : World).envelopes =
      world.envelopes := envelopes_silent rfl rfl rfl silent
  obtain ⟨_,commands,reads,commandsOnce,readsOnce,placed,read,threads,speaking⟩ := ledger
  refine ⟨bound,commands,reads,commandsOnce,readsOnce,?_,?_,same ▸ threads,speaking⟩
  · intro pid
    rw [← placed pid]
    change (begunCommands (world.frontend.sent.drop (world.routed + 1))).count pid +
      (world.events ++ [event]).countP _ +
      world.exec.machine.owed pid + (reportedCommands world.output).count pid = _
    rw [World.commandShare,waiting,List.countP_append,List.countP_singleton,routed_enqueues routed]
    cases begins : request.message.begins? with
    | none => simp [begunCommands,begins]
    | some other =>
      simp [begunCommands,begins,List.count_cons]
      omega
  · intro pipe
    rw [← read pipe]
    rw [World.readShare,World.readShare,same,waiting]
    change (begunReads (world.frontend.sent.drop (world.routed + 1))).count pipe + (world.events ++ [event]).countP _ +
      (world.readers.map Prod.fst).count pipe + _ = _
    rw [List.countP_append,List.countP_singleton,routed_reads routed]
    cases reads : request.message.reads? with
    | none => simp [begunReads,reads]
    | some other =>
      simp [begunReads,reads,List.count_cons]
      omega

private theorem executed (ledger : Ledger world) (traced : Traced world) {os : Os} {event : ExecEvent}
    {events : List ExecEvent} {exec : ExecInternal} (found : world.events = event :: events)
    (ok : ExecInternal.handle os event world.exec = .ok exec) :
    Ledger ({ world with events, exec }.begin (exec.effects.drop world.exec.effects.length)) := by
  have handled := ExecInternal.handle_handled traced.inv traced.named ok
  have started := ExecInternal.handle_reads handled ok
  refine ⟨ledger.routed,ledger.commands,ledger.reads,ledger.commandsOnce,ledger.readsOnce,?_,?_,?_,?_⟩
  · intro pid
    have before := ledger.commandShare pid
    rw [commandShare_tally,found,List.countP_cons] at before
    rw [commandShare_tally]
    change (begunCommands world.unrouted).count pid + events.countP _ + ExecInternal.tally pid exec =
      (jobIds world.lines).count pid
    rw [ExecInternal.handle_tally traced.inv ok]
    omega
  · intro pipe
    have before := ledger.readShare pipe
    rw [World.readShare,found,List.countP_cons] at before
    rw [World.readShare,envelopes_executed found handled]
    change (begunReads world.unrouted).count pipe + events.countP _ +
      ((world.readers ++ _).map Prod.fst).count pipe + _ =
      (readPipes world.lines).count pipe
    rw [List.map_append,List.count_append,started]
    cases reads : event.reads? with
    | none =>
      simp only [reads,reduceCtorEq,decide_false,Bool.false_eq_true,if_false] at before
      exact before
    | some other =>
      rw [Option.toList_some,List.count_singleton]
      simp only [reads,Option.some.injEq,decide_eq_true_eq] at before
      simp only [beq_iff_eq]
      omega
  · intro pipe
    have before := ledger.threads pipe
    rw [envelopes_executed found handled]
    change ((exec.effects.filterMap _).map _).count pipe = ((world.readers ++ _).map Prod.fst).count pipe + _
    rw [handled.appended,List.filterMap_append,List.map_append,List.map_append,List.count_append,List.count_append,
      ← handled.appended,before]
    omega
  · refine ExecInternal.handle_speaking ledger.speaking ?_ ok
    intro pid enqueues
    have most := ledger.once pid
    rw [commandShare_tally,found,List.countP_cons,if_pos enqueues] at most
    omega

theorem moves (ledger : Ledger world) (traced : Traced world) (ok : world.next move = .ok after) : Ledger after := by
  have moved := next_moves ok
  cases moved with
  | prompt getCommand line frontend begins =>
    obtain ⟨line,frontend,atPrompt,taken,shape⟩ := prompt_turn ok
    rw [turn_prompt atPrompt] at taken
    rw [shape]
    exact ledger.prompt traced taken
  | receive terminal response frontend found receives => exact ledger.quiet receives.unbegun
  | interrupt order frontend unbegun same => exact ledger.quiet unbegun
  | route order request event found routed => exact ledger.route traced found routed
  | execute os event events exec found handled => exact ledger.executed traced found handled
  | write child stream data alive some =>
    obtain ⟨written,unsent,shape⟩ := world.put_shape (outputOf child stream) data
    rw [shape]
    exact ledger.kept rfl rfl rfl rfl (fun _ => rfl) (fun _ => rfl) fun _ => rfl
  | pour writer size listed some enough =>
    obtain ⟨written,unsent,shape⟩ := world.put_shape writer.1 (writer.2.take size)
    rw [shape]
    exact ledger.kept rfl rfl rfl rfl (fun _ => rfl) (fun _ => rfl) fun _ => rfl
  | consume child size pipe alive reads => exact ledger.kept rfl rfl rfl rfl (fun _ => rfl) (fun _ => rfl) fun _ => rfl
  | consumeFile child size => exact ledger
  | exit child exitCode alive => exact ledger.kept rfl rfl rfl rfl (fun _ => rfl) (fun _ => rfl) fun _ => rfl
  | close writer listed => exact ledger.kept rfl rfl rfl rfl (fun _ => rfl) (fun _ => rfl) fun _ => rfl
  | report exited waits => exact ledger.pushed rfl rfl rfl rfl rfl rfl (fun _ => rfl) rfl (.refl _)
  | forward reader size pipe listed reads some enough =>
    exact ledger.pushed rfl rfl rfl rfl rfl rfl (fun _ => rfl) rfl (.refl _)
  | eof reader pipe listed reads empty closed =>
    exact ledger.pushed rfl rfl rfl rfl rfl rfl (fun _ => rfl) rfl ((List.perm_cons_erase listed).map Prod.fst)

end Ledger

theorem reachable_ledger (reachable : (system info).Reachable world) : Traced world ∧ Ledger world := by
  refine reachable.invariant (fun world => Traced world ∧ Ledger world) ?_ ?_
  · intro _ same
    obtain rfl := same
    exact ⟨.start,.start⟩
  · intro world move after given taken
    obtain ⟨traced,ledger⟩ := given
    exact ⟨traced.moves (next_moves taken),ledger.moves traced taken⟩

/-- No command is begun twice, and one that was begun is in one place: it waits to be routed
or to be handled, it is unfinished, or it was reported. -/
theorem commands_conserved (reachable : (system info).Reachable world) : (begunCommands world.frontend.sent).Nodup ∧
    ∀ pid, world.commandShare pid = (begunCommands world.frontend.sent).count pid := by
  obtain ⟨_,ledger⟩ := reachable_ledger reachable
  rw [ledger.commands]
  exact ⟨ledger.commandsOnce,ledger.commandShare⟩

private def halfway : List Move :=
  [.receive .working,.prompt fun _ => .ok (.ok Session.sleeping),.route ∅,.route (AList.insert ⟨3⟩ none ∅),.route ∅,
    .execute .working]

theorem commands_conserved_halfway : ∃ world, (system ⟨"localhost","nak","/"⟩).Reachable world ∧
    world.exec.machine.Unfinished ⟨3⟩ ∧ world.events.countP (·.enqueues ⟨7⟩) = 1 ∧
    (begunCommands world.frontend.sent).Nodup ∧
    ∀ pid, world.commandShare pid = (begunCommands world.frontend.sent).count pid := by
  obtain ⟨world,run,unfinished,waits⟩ := System.ends_run (new ⟨"localhost","nak","/"⟩) next (fun _ _ => True)
    (fun world => world.exec.machine.Unfinished ⟨3⟩ ∧ world.events.countP (·.enqueues ⟨7⟩) = 1)
    (show System.ends (new ⟨"localhost","nak","/"⟩) next _ _ halfway = true by decide +kernel)
  exact ⟨world,run.unrestricted.reachable,unfinished,waits,commands_conserved run.unrestricted.reachable⟩

/-- The same of reads, each of which is closed at most once. -/
theorem reads_conserved (reachable : (system info).Reachable world) : (begunReads world.frontend.sent).Nodup ∧
    ∀ pipe, world.readShare pipe = (begunReads world.frontend.sent).count pipe := by
  obtain ⟨_,ledger⟩ := reachable_ledger reachable
  rw [ledger.reads]
  exact ⟨ledger.readsOnce,ledger.readShare⟩

theorem reads_conserved_halfway : ∃ world, (system ⟨"localhost","nak","/"⟩).Reachable world ∧
    world.events.countP (·.reads? = some ⟨4⟩) = 1 ∧ ⟨5⟩ ∈ begunReads world.unrouted ∧
    (begunReads world.frontend.sent).Nodup ∧
    ∀ pipe, world.readShare pipe = (begunReads world.frontend.sent).count pipe := by
  obtain ⟨world,run,waits,unrouted⟩ := System.ends_run (new ⟨"localhost","nak","/"⟩) next (fun _ _ => True)
    (fun world => world.events.countP (·.reads? = some ⟨4⟩) = 1 ∧ ⟨5⟩ ∈ begunReads world.unrouted)
    (show System.ends (new ⟨"localhost","nak","/"⟩) next _ _ halfway = true by decide +kernel)
  exact ⟨world,run.unrestricted.reachable,waits,unrouted,reads_conserved run.unrestricted.reachable⟩

end World
end Nak
