import Nak.WorldSources

/-! The messages on their way to the frontend, and the invariant that leads everything in
the system back to the lines. -/
namespace Nak
open Library

theorem Effect.envelope_of_response (effect : Effect) :
    effect.response?.bind RemoteResponse.envelope? = effect.envelope? := by
  cases effect with
  | sent response => cases response <;> rfl
  | _ => rfl

namespace World
variable {world after : World} {move : Move} {info : RemoteInfo}

def envelopes (world : World) : List PipeEnvelope :=
  world.output.filterMap RemoteResponse.envelope? ++ world.events.filterMap ExecEvent.envelope?

def handled (world : World) : List PipeEnvelope :=
  (world.output.take world.received).filterMap RemoteResponse.envelope?

theorem handled_prefix (world : World) : ∃ rest, world.envelopes = world.handled ++ rest := by
  refine ⟨(world.output.drop world.received).filterMap RemoteResponse.envelope? ++
    world.events.filterMap ExecEvent.envelope?,?_⟩
  rw [envelopes,handled,← List.append_assoc,← List.filterMap_append,List.take_append_drop]

theorem envelopes_push {event : ExecEvent} (exec : after.exec = world.exec) (info : after.info = world.info)
    (events : after.events = world.events ++ [event]) :
    after.envelopes = world.envelopes ++ event.envelope?.toList := by
  rw [envelopes,envelopes,output,output,exec,info,events,List.filterMap_append,List.append_assoc]
  cases shape : event.envelope? <;> simp [shape]

theorem envelopes_silent {event : ExecEvent} (exec : after.exec = world.exec) (info : after.info = world.info)
    (events : after.events = world.events ++ [event]) (silent : event.envelope? = none) :
    after.envelopes = world.envelopes := by
  rw [envelopes_push exec info events,silent,Option.toList_none,List.append_nil]

theorem output_grows {more : List Effect} (info : after.info = world.info)
    (effects : after.exec.effects = world.exec.effects ++ more) :
    after.output = world.output ++ more.filterMap Effect.response? := by
  rw [output,output,info,effects,List.filterMap_append,List.cons_append]

theorem responses_envelopes (effects : List Effect) :
    (effects.filterMap Effect.response?).filterMap RemoteResponse.envelope? = effects.filterMap Effect.envelope? := by
  rw [List.filterMap_filterMap]
  congr 1
  ext1 effect
  exact effect.envelope_of_response

/-- Handling an event moves its message from the queue to the frontend. -/
theorem envelopes_executed {event : ExecEvent} {events : List ExecEvent} {exec : ExecInternal}
    (found : world.events = event :: events) (handled : ExecInternal.Handled world.exec event exec) :
    ({ world with events, exec }.begin (exec.effects.drop world.exec.effects.length)).envelopes = world.envelopes := by
  have grown : ({ world with events, exec } : World).output = world.output ++ _ := output_grows rfl handled.appended
  change ({ world with events, exec } : World).output.filterMap RemoteResponse.envelope? ++
    events.filterMap ExecEvent.envelope? = _
  rw [envelopes,grown,List.filterMap_append,responses_envelopes,handled.announced,found,List.append_assoc]
  congr 1
  cases shape : event.envelope? <;> simp [shape]

theorem put_shape (world : World) (handle : OutputPipe) (data : Bytes) :
    ∃ written unsent, world.put handle data = { world with written, unsent } := by
  unfold put
  split
  · exact ⟨_,_,rfl⟩
  · exact ⟨world.written,world.unsent,rfl⟩

/-- The descriptors of a child are on the pipes of its command. -/
def Fits (child : Process) (cmd : RunCmd) : Prop :=
  child.stdin.handle.Of cmd.pipes.stdin.toGeneric ∧ child.stdout.handle.Of cmd.pipes.stdout.toGeneric ∧
    child.stderr.handle.Of cmd.pipes.stderr.toGeneric

theorem Fits.outputOf {child : Process} {cmd : RunCmd} (fits : Fits child cmd) {stream : Stream} {pipe : GenericPipe}
    (writes : (outputOf child stream).handle.id? = some pipe) : cmd.pipes.output pipe := by
  cases stream with
  | stdout => exact Or.inl (fits.2.1 pipe writes)
  | stderr => exact Or.inr (fits.2.2 pipe writes)

structure Traced (world : World) : Prop where
  laid : Laid world.lines world.frontend.ids.nextId
  sent : ∀ request ∈ world.frontend.sent, Posed world.lines world.frontend.ids.nextId request
  events : ∀ event ∈ world.events, Drawn world.lines world.frontend.ids.nextId event
  envelopes : ∀ envelope ∈ world.envelopes, envelope.id < world.frontend.ids.nextId
  inv : Machine.Inv world.exec.machine
  named : ExecInternal.Named world.exec.openHandles
  known : ∀ pid, world.exec.machine.Known pid → pid.val < world.frontend.ids.nextId
  waiting : ∀ pid waiting, world.exec.machine.waitingOn.lookup pid = some waiting → Begun world.lines pid waiting.cmd
  handles : ∀ pipe ∈ world.exec.openHandles, pipe.val < world.frontend.ids.nextId
  children : ∀ child ∈ world.children, ∃ cmd, Begun world.lines child.pid cmd ∧ Fits child cmd
  readers : ∀ reader ∈ world.readers, reader.1 ∈ world.exec.openHandles ∧ reader.2.handle.Of reader.1

namespace Traced

theorem start : Traced (new info) where
  laid := .nil
  sent := by simp [new,Endpoint.new]
  events := by simp [new]
  envelopes := by simp [World.envelopes,output,new,ExecInternal.new,RemoteResponse.envelope?]
  inv := Machine.inv_new
  named := by simp [ExecInternal.Named,new,ExecInternal.new]
  known := by
    intro pid either
    rcases either with finished | toRun | running | waiting
    · exact absurd finished Finmap.notMem_empty
    · exact absurd toRun (Finset.notMem_empty pid)
    · exact absurd running Finmap.notMem_empty
    · exact absurd waiting Finmap.notMem_empty
  waiting := by simp [new,ExecInternal.new,Machine.new]
  handles pipe member := absurd member Finmap.notMem_empty
  children := by simp [new]
  readers := by simp [new]

private theorem turned (traced : Traced world) {frontend : Endpoint StackedRemotes} {more : List Line}
    {sent : List Request} (laid : Laid (world.lines ++ more) frontend.ids.nextId)
    (later : world.frontend.ids.nextId ≤ frontend.ids.nextId) (appended : frontend.sent = world.frontend.sent ++ sent)
    (posed : ∀ request ∈ sent, Posed (world.lines ++ more) frontend.ids.nextId request)
    (same : after = { world with frontend, received := after.received, lines := world.lines ++ more }) :
    Traced after := by
  rw [same]
  constructor
  · exact laid
  · intro request member
    rw [appended] at member
    rcases List.mem_append.mp member with old | new
    · exact (traced.sent request old).mono later
    · exact posed request new
  · exact fun event member => (traced.events event member).mono later
  · exact fun envelope member => (traced.envelopes envelope member).trans_le later
  · exact traced.inv
  · exact traced.named
  · exact fun pid known => (traced.known pid known).trans_le later
  · exact fun pid waiting found => (traced.waiting pid waiting found).more
  · exact fun pipe member => (traced.handles pipe member).trans_le later
  · intro child member
    obtain ⟨cmd,begun,fits⟩ := traced.children child member
    exact ⟨cmd,begun.more,fits⟩
  · exact traced.readers

private theorem begins (traced : Traced world) {line : Line} {frontend : Endpoint StackedRemotes}
    (begins : Shell.Begins line world.frontend frontend) :
    Traced { world with frontend, lines := world.lines ++ [line] } := by
  have first := begins.sound.ids line.directory Line.directory_mem
  obtain ⟨more,sent,all⟩ := begins.sent
  refine traced.turned (traced.laid.snoc begins.sound) (first.1.trans first.2.le) sent ?_ rfl
  intro request member
  exact Or.inr ⟨line,List.mem_append_right _ (List.mem_singleton.mpr rfl),_,_,le_rfl,all request member⟩

private theorem unbegun (traced : Traced world) {frontend : Endpoint StackedRemotes} {received : Nat}
    (unbegun : Shell.Unbegun world.frontend frontend) : Traced { world with frontend, received } := by
  obtain ⟨more,sent,idle⟩ := unbegun.sent
  have laid : Laid (world.lines ++ []) frontend.ids.nextId := by
    rw [List.append_nil,unbegun.ids]
    exact traced.laid
  refine traced.turned laid (congrArg Ids.nextId unbegun.ids).ge sent ?_ ?_
  · exact fun request member => Or.inl (idle request member)
  · rw [List.append_nil]

private theorem queued (traced : Traced world) {event : ExecEvent}
    (drawn : Drawn world.lines world.frontend.ids.nextId event) :
    ∀ other ∈ world.events ++ [event], Drawn world.lines world.frontend.ids.nextId other := by
  intro other member
  rcases List.mem_append.mp member with old | new
  · exact traced.events other old
  · exact List.mem_singleton.mp new ▸ drawn

private theorem announced (traced : Traced world) {event : ExecEvent}
    (drawn : Drawn world.lines world.frontend.ids.nextId event) (exec : after.exec = world.exec)
    (info : after.info = world.info) (events : after.events = world.events ++ [event]) :
    ∀ envelope ∈ after.envelopes, envelope.id < world.frontend.ids.nextId := by
  intro envelope member
  rw [envelopes_push exec info events] at member
  rcases List.mem_append.mp member with old | new
  · exact traced.envelopes envelope old
  · exact drawn.envelope_below (Option.mem_toList.mp new)

theorem head (traced : Traced world) {event : ExecEvent} {events : List ExecEvent}
    (found : world.events = event :: events) : Drawn world.lines world.frontend.ids.nextId event :=
  traced.events event (found ▸ List.mem_cons_self ..)

theorem requested (traced : Traced world) {event : ExecEvent} {pid : ProcessId} {cmd : RunCmd}
    (drawn : Drawn world.lines world.frontend.ids.nextId event)
    (requested : ExecInternal.Requested world.exec event pid cmd) : Begun world.lines pid cmd := by
  rcases requested with ⟨blockFor,rfl⟩ | ⟨waiting,found,rfl⟩
  · cases drawn with
    | enqueue line job _ listed member _ => exact ⟨line,listed,job,member,rfl,rfl⟩
  · exact traced.waiting pid waiting found

private theorem executed (traced : Traced world) {event : ExecEvent} {events : List ExecEvent} {exec : ExecInternal}
    (found : world.events = event :: events) (handled : ExecInternal.Handled world.exec event exec) :
    Traced ({ world with events, exec }.begin (exec.effects.drop world.exec.effects.length)) := by
  have drawn := traced.head found
  constructor
  · exact traced.laid
  · exact traced.sent
  · intro other member
    exact traced.events other (found ▸ List.mem_cons_of_mem _ member)
  · exact fun envelope member => traced.envelopes envelope (envelopes_executed found handled ▸ member)
  · exact handled.inv
  · exact handled.named
  · intro pid known
    rcases handled.known pid known with old | ⟨cmd,blockFor,rfl⟩
    · exact traced.known pid old
    · exact traced.laid.begun_below (traced.requested drawn (Or.inl ⟨blockFor,rfl⟩))
  · exact fun pid waiting found => traced.requested drawn (handled.waiting pid waiting found)
  · intro pipe member
    rcases handled.opened pipe member with old | about | ⟨pid,cmd,requested,used⟩
    · exact traced.handles pipe old
    · exact drawn.about_below about
    · exact traced.laid.used_below (traced.requested drawn requested) used
  · intro child member
    rcases List.mem_append.mp member with old | begun
    · exact traced.children child old
    · obtain ⟨effect,caused,shape⟩ := List.mem_filterMap.mp begun
      cases handled.caused effect caused with
      | spawned pid cmd child path args stdin stdout stderr requested of =>
        obtain rfl := Option.some.inj shape
        exact ⟨cmd,traced.requested drawn requested,of⟩
      | closing pid cmd effect requested unfinished closing => cases closing <;> cases shape
      | _ => cases shape
  · intro reader member
    rcases List.mem_append.mp member with old | begun
    · obtain ⟨present,of⟩ := traced.readers reader old
      exact ⟨handled.kept _ present,of⟩
    · obtain ⟨effect,caused,shape⟩ := List.mem_filterMap.mp begun
      cases handled.caused effect caused with
      | reader pipe handle asked of =>
        obtain rfl := Option.some.inj shape
        exact ⟨handled.readers pipe asked,of⟩
      | closing pid cmd effect requested unfinished closing => cases closing <;> cases shape
      | _ => cases shape

theorem moves (traced : Traced world) (moves : Moves world move after) : Traced after := by
  cases moves with
  | prompt getCommand line frontend begins => exact traced.begins begins
  | receive terminal response frontend found receives => exact traced.unbegun receives.unbegun
  | interrupt order frontend unbegun same => exact traced.unbegun unbegun
  | route order request event found routed =>
    have drawn := (routed_drawn traced.laid (traced.sent request (List.mem_of_getElem? found)) routed).1
    exact { traced with events := traced.queued drawn, envelopes := traced.announced drawn rfl rfl rfl }
  | execute os event events exec found handled =>
    exact traced.executed found (ExecInternal.handle_handled traced.inv traced.named handled)
  | write child stream data alive some =>
    obtain ⟨written,unsent,shape⟩ := world.put_shape (outputOf child stream) data
    rw [shape]
    exact { traced with }
  | consume child size pipe alive reads => exact { traced with }
  | consumeFile child size => exact traced
  | exit child exitCode alive =>
    exact { traced with children := fun child member => traced.children child (List.mem_of_mem_erase member) }
  | report exited waits =>
    have drawn : Drawn world.lines world.frontend.ids.nextId _ := .completed exited.1 exited.2
    exact { traced with events := traced.queued drawn, envelopes := traced.announced drawn rfl rfl rfl }
  | pour writer size listed some enough =>
    obtain ⟨written,unsent,shape⟩ := world.put_shape writer.1 (writer.2.take size)
    rw [shape]
    exact { traced with }
  | close writer listed => exact { traced with }
  | forward reader size pipe listed reads some enough =>
    have below := traced.handles reader.1 (traced.readers reader listed).1
    have drawn : Drawn world.lines world.frontend.ids.nextId _ :=
      .pipeOutput reader.1 ((world.unsent pipe).take size) 0 below
    exact { traced with events := traced.queued drawn, envelopes := traced.announced drawn rfl rfl rfl }
  | eof reader pipe listed reads empty closed =>
    have below := traced.handles reader.1 (traced.readers reader listed).1
    have drawn : Drawn world.lines world.frontend.ids.nextId _ := .pipeClosed reader.1 0 below
    exact { traced with
      events := traced.queued drawn
      envelopes := traced.announced drawn rfl rfl rfl
      readers := fun reader member => traced.readers reader (List.mem_of_mem_erase member) }

end Traced
end World
end Nak
