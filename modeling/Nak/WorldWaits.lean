import Nak.WorldServes

/-! What the frontend waits for: what it has begun and has not been told the end of. So while it
waits, some part of the system has a step to make. -/
namespace Nak
open Library Session

namespace World
variable {world after : World} {move : Move} {info : RemoteInfo} {trace : List Move}

/-- The frontend waits for exactly what is still to come. -/
structure Attentive (world : World) : Prop where
  remote : world.frontend.handler.waitingForRemote = none ↔ world.session.received ≠ []
  processes : ∀ pid, pid ∈ world.frontend.handler.waitingFor ↔
    pid ∈ jobIds world.lines ∧ pid ∉ reportedCommands world.session.received
  eofs : ∀ pipe, pipe ∈ world.frontend.handler.waitingForEof ↔
    (∃ line ∈ world.lines, pipe = line.cwd) ∧ pipe ∉ closedReads world.session.received

namespace Attentive

theorem start : Attentive (new info) := by
  constructor <;> simp [new,Endpoint.new,StackedRemotes.new,session,jobIds]

private theorem kept (attentive : Attentive world) (handler : after.frontend.handler = world.frontend.handler)
    (lines : after.lines = world.lines) (received : after.session.received = world.session.received) :
    Attentive after := by
  obtain ⟨remote,processes,eofs⟩ := attentive
  constructor
  · rwa [handler,received]
  · rwa [handler,lines,received]
  · rwa [handler,lines,received]

private theorem unheard (coherent : Coherent world) {line : Line} (once : (jobIds (world.lines ++ [line])).Nodup)
    (readOnce : (readPipes (world.lines ++ [line])).Nodup) :
    (∀ job ∈ line.all, job.id ∉ reportedCommands world.session.received) ∧
      line.cwd ∉ closedReads world.session.received := by
  rw [jobIds_append,jobIds_single] at once
  rw [readPipes_append,readPipes_single] at readOnce
  constructor
  · intro job member reported
    have none : (jobIds world.lines).count job.id = 0 := by
      refine List.count_eq_zero.mpr fun old => ?_
      exact (List.nodup_append.mp once).2.2 _ old _ (List.mem_map_of_mem member) rfl
    have told : 0 < (reportedCommands world.output).count job.id :=
      List.count_pos_iff.mpr ((List.take_sublist _ _).filterMap _ |>.subset reported)
    have share := coherent.ledger.commandShare job.id
    rw [commandShare] at share
    omega
  · intro closed
    have none : (readPipes world.lines).count line.cwd = 0 := by
      refine List.count_eq_zero.mpr fun old => ?_
      exact (List.nodup_append.mp readOnce).2.2 _ old _ (List.mem_cons_self ..) rfl
    have told : 0 < (closings world.envelopes).count line.cwd := by
      rw [closedReads_envelopes] at closed
      obtain ⟨rest,same⟩ := world.handled_prefix
      rw [same,closings_append,List.count_append]
      exact Nat.add_pos_left (List.count_pos_iff.mpr closed) _
    have share := coherent.ledger.readShare line.cwd
    rw [readShare] at share
    omega

private theorem begins (attentive : Attentive world) (coherent : Coherent world) (atPrompt : world.AtPrompt)
    {line : Line} {frontend : Endpoint StackedRemotes} (begins : Shell.Begins line world.frontend frontend)
    (ledger : Ledger { world with frontend, lines := world.lines ++ [line] }) :
    Attentive { world with frontend, lines := world.lines ++ [line] } := by
  obtain ⟨commands,cwd⟩ := unheard coherent ledger.commandsOnce ledger.readsOnce
  constructor
  · change frontend.handler.waitingForRemote = none ↔ _
    rw [begins.waitingForRemote]
    exact attentive.remote
  · intro pid
    have ended : pid ∈ jobIds world.lines → pid ∈ reportedCommands world.session.received := by
      intro old
      by_contra unreported
      have waits := (attentive.processes pid).mpr ⟨old,unreported⟩
      rw [atPrompt.processes] at waits
      exact Finset.notMem_empty _ waits
    change pid ∈ frontend.handler.waitingFor ↔ pid ∈ jobIds (world.lines ++ [line]) ∧
      pid ∉ reportedCommands world.session.received
    have listed : pid ∈ frontend.handler.waitingFor ↔ ∃ job ∈ line.all, job.id = pid := by
      rw [begins.waitingFor]
      simp [Line.all,Shell.ids,or_comm,eq_comm]
    rw [listed,jobIds_append,jobIds_single,List.mem_append,List.mem_map]
    constructor
    · rintro ⟨job,member,rfl⟩
      exact ⟨Or.inr ⟨job,member,rfl⟩,commands job member⟩
    · rintro ⟨old | new,unreported⟩
      · exact absurd (ended old) unreported
      · exact new
  · intro pipe
    have ended : (∃ other ∈ world.lines, pipe = other.cwd) → pipe ∈ closedReads world.session.received := by
      intro old
      by_contra reading
      have waits := (attentive.eofs pipe).mpr ⟨old,reading⟩
      rw [atPrompt.eofs] at waits
      exact Finset.notMem_empty _ waits
    change pipe ∈ frontend.handler.waitingForEof ↔ (∃ other ∈ world.lines ++ [line], pipe = other.cwd) ∧
      pipe ∉ closedReads world.session.received
    rw [begins.waitingForEof,atPrompt.eofs]
    constructor
    · intro waits
      obtain rfl := List.mem_singleton.mp (by simpa using waits)
      exact ⟨⟨line,by simp,rfl⟩,cwd⟩
    · rintro ⟨⟨other,listed,rfl⟩,reading⟩
      rcases List.mem_append.mp listed with old | new
      · exact absurd (ended ⟨other,old,rfl⟩) reading
      · rw [List.mem_singleton.mp new]
        exact Finset.mem_insert_self _ _

private theorem receive (attentive : Attentive world) {response : RemoteResponse} {frontend : Endpoint StackedRemotes}
    (found : world.output[world.received]? = some response) (receipt : Receipt world.frontend ⟨0,response⟩ frontend) :
    Attentive { world with frontend, received := world.received + 1 } := by
  have taken : { world with frontend, received := world.received + 1 }.session.received =
      world.session.received ++ [response] := by
    change world.output.take (world.received + 1) = _
    rw [List.take_add_one,found]
    rfl
  have introduced : (∀ info, response ≠ .remoteReady info) → world.frontend.handler.waitingForRemote = none := by
    intro other
    refine attentive.remote.mpr fun none => ?_
    have first : world.received = 0 := by
      have shorter : (world.output.take world.received).length = 0 := congrArg List.length none
      rw [List.length_take] at shorter
      have waits := (List.getElem?_eq_some_iff.mp found).1
      omega
    rw [first] at found
    exact other world.info (Option.some.inj found).symm
  obtain ⟨_,processes,eofs⟩ := attentive
  refine ⟨?_,fun pid => ?_,fun pipe => ?_⟩
  · rw [taken]
    refine ⟨by simp,fun _ => ?_⟩
    cases receipt with
    | ready => rfl
    | _ => exact introduced nofun
  · rw [taken,reportedCommands_append]
    have silent (same : frontend.handler.waitingFor = world.frontend.handler.waitingFor)
        (none : reportedCommands [response] = []) : pid ∈ frontend.handler.waitingFor ↔ pid ∈ jobIds world.lines ∧
          pid ∉ reportedCommands world.session.received ++ reportedCommands [response] := by
      rw [same,none,List.append_nil]
      exact processes pid
    cases receipt with
    | done remoteId id exitCode =>
      change pid ∈ world.frontend.handler.waitingFor.erase id ↔ _ ∧ pid ∉ _ ++ [id]
      rw [Finset.mem_erase,processes,List.mem_append,not_or,List.mem_singleton]
      exact and_rotate
    | _ => exact silent rfl rfl
  · rw [taken,closedReads_append]
    have silent (same : frontend.handler.waitingForEof = world.frontend.handler.waitingForEof)
        (none : closedReads [response] = []) : pipe ∈ frontend.handler.waitingForEof ↔
          (∃ line ∈ world.lines, pipe = line.cwd) ∧
            pipe ∉ closedReads world.session.received ++ closedReads [response] := by
      rw [same,none,List.append_nil]
      exact eofs pipe
    have ended (id : Nat) (same : frontend.handler.waitingForEof = world.frontend.handler.waitingForEof.erase ⟨id⟩)
        (closed : closedReads [response] = [⟨id⟩]) : pipe ∈ frontend.handler.waitingForEof ↔
          (∃ line ∈ world.lines, pipe = line.cwd) ∧
            pipe ∉ closedReads world.session.received ++ closedReads [response] := by
      rw [same,closed,Finset.mem_erase,eofs,List.mem_append,not_or,List.mem_singleton]
      exact and_rotate
    cases receipt with
    | finished remoteId id endOffset => exact ended id rfl rfl
    | closed remoteId id endOffset => exact ended id rfl rfl
    | _ => exact silent rfl rfl

theorem moves (attentive : Attentive world) (coherent : Coherent world) (ok : world.next move = .ok after) :
    Attentive after := by
  have moved := next_moves ok
  cases moved with
  | prompt getCommand line frontend begins =>
    obtain ⟨_,_,atPrompt,_⟩ := prompt_turn ok
    exact attentive.begins coherent atPrompt begins (coherent.ledger.moves coherent.traced ok)
  | receive terminal response frontend found receives => exact attentive.receive found (receive_receipt found ok)
  | interrupt order frontend unbegun same => exact attentive.kept same rfl rfl
  | execute os event events exec found handled =>
    obtain ⟨more,effects,_⟩ := (ExecInternal.handle_handled coherent.traced.inv coherent.traced.named handled).effects
    refine attentive.kept rfl rfl ?_
    have grows := @output_grows world
      ({ world with events, exec }.begin (exec.effects.drop world.exec.effects.length)) more
      rfl effects
    change List.take world.received _ = List.take world.received _
    rw [grows,List.take_append_of_le_length coherent.relayed.received]
  | write child stream data alive some =>
    obtain ⟨written,unsent,shape⟩ := world.put_shape (outputOf child stream) data
    rw [shape]
    exact attentive.kept rfl rfl rfl
  | pour writer size listed some enough =>
    obtain ⟨written,unsent,shape⟩ := world.put_shape writer.1 (writer.2.take size)
    rw [shape]
    exact attentive.kept rfl rfl rfl
  | _ => exact attentive.kept rfl rfl rfl

end Attentive

theorem run_attentive (run : (system info).Run trace world) : Attentive world := by
  refine run.invariant (fun _ => Attentive) ?_ ?_
  · intro world start
    obtain rfl : world = new info := start
    exact .start
  · intro trace world move after run attentive taken
    exact attentive.moves (reachable_coherent run.reachable) taken

/-- The frontend waits for the commands that it has begun and that were not reported to it, and
for the directories whose pipes were not closed; it is at the prompt when there are none. -/
theorem waits_exactly (run : (system info).Run trace world) :
    (∀ pid, pid ∈ world.frontend.handler.waitingFor ↔ world.session.Outstanding pid) ∧
    (∀ pipe, pipe ∈ world.frontend.handler.waitingForEof ↔
      (∃ line ∈ world.lines, pipe = line.cwd) ∧ world.session.Reading pipe) ∧
    (world.AtPrompt ↔ world.session.received ≠ [] ∧ (∀ pid, ¬world.session.Outstanding pid) ∧
      ∀ line ∈ world.lines, ¬world.session.Reading line.cwd) := by
  obtain ⟨remote,processes,eofs⟩ := run_attentive run
  have ledger := (reachable_coherent run.reachable).ledger
  have outstanding (pid : ProcessId) : pid ∈ world.frontend.handler.waitingFor ↔ world.session.Outstanding pid := by
    rw [processes,← ledger.commands]
    rfl
  have reading (pipe : GenericPipe) : pipe ∈ world.frontend.handler.waitingForEof ↔
      (∃ line ∈ world.lines, pipe = line.cwd) ∧ world.session.Reading pipe := by
    rw [eofs]
    refine and_congr_right fun ⟨line,listed,same⟩ => (and_iff_right ?_).symm
    change pipe ∈ begunReads world.frontend.sent
    rw [ledger.reads,same]
    exact List.mem_flatMap.mpr ⟨line,listed,List.mem_cons_self ..⟩
  refine ⟨outstanding,reading,?_⟩
  constructor
  · rintro ⟨ready,none,ended⟩
    refine ⟨remote.mp ready,fun pid waits => ?_,fun line listed open' => ?_⟩
    · rw [← outstanding,none] at waits
      exact Finset.notMem_empty _ waits
    · have waits := (reading line.cwd).mpr ⟨⟨line,listed,rfl⟩,open'⟩
      rw [ended] at waits
      exact Finset.notMem_empty _ waits
  · rintro ⟨introduced,reported,closed⟩
    refine ⟨remote.mpr introduced,Finset.eq_empty_of_forall_notMem fun pid waits => ?_,
      Finset.eq_empty_of_forall_notMem fun pipe waits => ?_⟩
    · exact reported pid ((outstanding pid).mp waits)
    · obtain ⟨⟨line,listed,rfl⟩,open'⟩ := (reading pipe).mp waits
      exact closed line listed open'

private def hasty : List Move :=
  [.receive .working,.prompt fun _ => .ok (.ok Session.sleeping),.interrupt [⟨3⟩,⟨7⟩]]

theorem waits_exactly_hasty : ∃ world, (system ⟨"localhost","nak","/"⟩).Reachable world ∧
    world.session.Outstanding ⟨3⟩ ∧
    (∀ pid, pid ∈ world.frontend.handler.waitingFor ↔ world.session.Outstanding pid) ∧
    (∀ pipe, pipe ∈ world.frontend.handler.waitingForEof ↔
      (∃ line ∈ world.lines, pipe = line.cwd) ∧ world.session.Reading pipe) ∧
    (world.AtPrompt ↔ world.session.received ≠ [] ∧ (∀ pid, ¬world.session.Outstanding pid) ∧
      ∀ line ∈ world.lines, ¬world.session.Reading line.cwd) := by
  obtain ⟨world,run,outstanding⟩ := System.ends_run (new ⟨"localhost","nak","/"⟩) next (fun _ _ => True)
    (fun world => world.session.Outstanding ⟨3⟩)
    (show System.ends (new ⟨"localhost","nak","/"⟩) next _ _ hasty = true by decide +kernel)
  exact ⟨world,run.unrestricted.reachable,outstanding,waits_exactly run.unrestricted⟩

/-- What a line leaves with the frontend, where no process is cancelled. -/
structure Listed (world : World) : Prop where
  jobs : ∀ pid ∈ world.frontend.handler.waitingFor, pid ∈ world.frontend.jobs
  directories : ∀ line ∈ world.lines, line.directory.command = .getDirectory

theorem Listed.moves (listed : Listed world) (smooth : world.Smooth move) (ok : world.next move = .ok after) :
    Listed after := by
  obtain ⟨jobs,directories⟩ := listed
  have moved := next_moves ok
  cases moved with
  | prompt getCommand line frontend begins =>
    obtain ⟨line',frontend',atPrompt,taken,same⟩ := prompt_turn ok
    obtain rfl : frontend = frontend' := congrArg World.frontend same
    obtain rfl : line = line' := by simpa using congrArg World.lines same
    rw [turn_prompt atPrompt] at taken
    constructor
    · intro pid waits
      have member : pid ∈ insert line.directory.id (Shell.ids line.jobs) := begins.waitingFor ▸ waits
      obtain ⟨job,begun,rfl⟩ : ∃ job ∈ line.all, job.id = pid := by
        simpa [Line.all,Shell.ids,or_comm,eq_comm] using member
      exact Shell.readLine_listed taken job begun
    · intro other listed
      rcases List.mem_append.mp listed with old | new
      · exact directories other old
      · rw [List.mem_singleton.mp new]
        exact Shell.readLine_directory taken
  | receive terminal response frontend found receives =>
    have receipt : Receipt world.frontend ⟨0,response⟩ frontend := receive_receipt found ok
    refine ⟨fun pid waits => ?_,directories⟩
    cases receipt with
    | done => exact jobs pid (Finset.mem_of_mem_erase waits)
    | _ => exact jobs pid waits
  | interrupt => exact smooth.elim
  | write child stream data alive some =>
    obtain ⟨written,unsent,shape⟩ := world.put_shape (outputOf child stream) data
    rw [shape]
    exact ⟨jobs,directories⟩
  | pour writer size listed some enough =>
    obtain ⟨written,unsent,shape⟩ := world.put_shape writer.1 (writer.2.take size)
    rw [shape]
    exact ⟨jobs,directories⟩
  | _ => exact ⟨jobs,directories⟩

/-- The event loop is the executor at work. -/
theorem run_executes (run : (system info).Run trace world) : ExecInternal.system.Reachable world.exec := by
  refine run.invariant (fun _ world => ExecInternal.system.Reachable world.exec) ?_ ?_
  · intro world start
    obtain rfl : world = new info := start
    exact ⟨[],.initial rfl⟩
  · intro trace world move after run before taken
    obtain ⟨trace,before⟩ := before
    have moved := next_moves taken
    cases moved with
    | execute os event events exec found handled => exact ⟨trace ++ [(os,event)],.step before handled⟩
    | write child stream data alive some =>
      obtain ⟨written,unsent,shape⟩ := world.put_shape (outputOf child stream) data
      rw [shape]
      exact ⟨trace,before⟩
    | pour writer size listed some enough =>
      obtain ⟨written,unsent,shape⟩ := world.put_shape writer.1 (writer.2.take size)
      rw [shape]
      exact ⟨trace,before⟩
    | _ => exact ⟨trace,before⟩

/-- The invariants of a smooth run. -/
structure Steady (world : World) : Prop where
  kept : Kept world
  receptive : world.session.Receptive
  serving : Serving world
  attentive : Attentive world
  listed : Listed world
  executes : ExecInternal.system.Reachable world.exec

theorem run_steady (run : ((system info).restrict Smooth).Run trace world) : Steady world := by
  have listed : Listed world := by
    refine run.invariant (fun _ => Listed) ?_ ?_
    · intro world start
      obtain rfl : world = new info := start
      exact ⟨fun pid waits => absurd waits (Finset.notMem_empty pid),fun line listed => absurd listed List.not_mem_nil⟩
    · exact fun trace world move after run listed taken => listed.moves taken.2 taken.1
  exact ⟨run_kept (smooth_delivers run),run_receptive (smooth_simple run),run_serving run,
    run_attentive run.unrestricted,listed,run_executes run.unrestricted⟩

end World
end Nak
