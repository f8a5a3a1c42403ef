import Nak.WorldTraces

/-! What becomes of the bytes. Of a pipe that no process reads, everything written is in a
message or still in the pipe, and what the frontend was told of it has been shown. -/
namespace Nak
open Library

theorem carried_data {pipe source : GenericPipe} {data : Bytes} {endOffset : Nat} :
    carried pipe [⟨source.val,.data data endOffset⟩] = if source = pipe then data else [] := by
  have values : source.val = pipe.val ↔ source = pipe := by
    cases source
    cases pipe
    simp
  simp [carried,PipeEnvelope.dataFor,values]

namespace World
variable {world after : World} {move : Move} {info : RemoteInfo} {pipe : GenericPipe}

def putInto (pipe : GenericPipe) (handle : OutputPipe) (data : Bytes) : Bytes :=
  if handle.handle.id? = some pipe then data else []

theorem put_data (world : World) (pipe : GenericPipe) (handle : OutputPipe) (data : Bytes) :
    (world.put handle data).written pipe = world.written pipe ++ putInto pipe handle data ∧
    (world.put handle data).unsent pipe = world.unsent pipe ++ putInto pipe handle data := by
  unfold put putInto
  cases handle.handle.id? with
  | none => simp
  | some other =>
    by_cases same : pipe = other
    · subst same
      simp [addWritten]
    · have different : some other ≠ some pipe := fun equal => same (Option.some.inj equal).symm
      simp [addWritten,same,different]

theorem dropUnsent_ne (world : World) {other : GenericPipe} (size : Nat) (different : pipe ≠ other) :
    (world.dropUnsent other size).unsent pipe = world.unsent pipe := Function.update_of_ne different _ _

theorem dropUnsent_self (world : World) (size : Nat) :
    (world.dropUnsent pipe size).unsent pipe = (world.unsent pipe).drop size := Function.update_self _ _ _

def Unread (lines : List Line) (pipe : GenericPipe) : Prop := ∀ line ∈ lines, ∀ job ∈ line.all, ¬job.pipes.input pipe

theorem Unread.begun {lines : List Line} (unread : Unread lines pipe) {pid : ProcessId} {cmd : RunCmd}
    (begun : Begun lines pid cmd) : ¬cmd.pipes.input pipe := by
  obtain ⟨line,listed,job,member,_,rfl⟩ := begun
  exact unread line listed job member

def Conserved (world : World) : Prop :=
  ∀ pipe, Unread world.lines pipe → world.written pipe = carried pipe world.envelopes ++ world.unsent pipe

namespace Conserved

theorem start : Conserved (new info) := fun _ _ => rfl

private theorem kept (conserved : Conserved world) (written : after.written = world.written)
    (unsent : after.unsent = world.unsent) (lines : ∃ more, after.lines = world.lines ++ more)
    (same : ∀ pipe, carried pipe after.envelopes = carried pipe world.envelopes) : Conserved after := by
  obtain ⟨more,lines⟩ := lines
  intro pipe unread
  rw [written,unsent,same]
  exact conserved pipe fun line listed => unread line (lines ▸ List.mem_append_left _ listed)

private theorem announced (conserved : Conserved world) {event : ExecEvent} (info : after.info = world.info)
    (exec : after.exec = world.exec) (events : after.events = world.events ++ [event])
    (silent : ∀ pipe, carried pipe event.envelope?.toList = []) (written : after.written = world.written)
    (unsent : after.unsent = world.unsent) (lines : after.lines = world.lines) : Conserved after := by
  refine conserved.kept written unsent ⟨[],by rw [lines,List.append_nil]⟩ ?_
  intro pipe
  rw [envelopes_push exec info events,carried_append,silent,List.append_nil]

private theorem put (conserved : Conserved world) (handle : OutputPipe) (data : Bytes) :
    Conserved (world.put handle data) := by
  intro pipe unread
  obtain ⟨written,unsent⟩ := world.put_data pipe handle data
  obtain ⟨_,_,shape⟩ := world.put_shape handle data
  rw [written,unsent]
  rw [shape] at unread ⊢
  change _ = carried pipe world.envelopes ++ _
  rw [conserved pipe unread,List.append_assoc]

theorem moves (conserved : Conserved world) (traced : Traced world) (moves : Moves world move after) :
    Conserved after := by
  cases moves with
  | prompt getCommand line frontend begins => exact conserved.kept rfl rfl ⟨[line],rfl⟩ fun _ => rfl
  | receive terminal response frontend found receives =>
    exact conserved.kept rfl rfl ⟨[],(List.append_nil _).symm⟩ fun _ => rfl
  | interrupt order frontend unbegun same =>
    exact conserved.kept rfl rfl ⟨[],(List.append_nil _).symm⟩ fun _ => rfl
  | route order request event found routed =>
    have silent := (routed_drawn traced.laid (traced.sent request (List.mem_of_getElem? found)) routed).2
    exact conserved.announced rfl rfl rfl (fun pipe => by rw [silent]; rfl) rfl rfl rfl
  | execute os event events exec found handled =>
    have handled := ExecInternal.handle_handled traced.inv traced.named handled
    exact conserved.kept rfl rfl ⟨[],(List.append_nil _).symm⟩ fun pipe => by rw [envelopes_executed found handled]
  | write child stream data alive some => exact conserved.put _ _
  | consume child size pipe alive reads =>
    intro other unread
    obtain ⟨cmd,begun,fits⟩ := traced.children child alive
    have different : other ≠ pipe := by
      intro same
      obtain rfl := same
      exact unread.begun begun (fits.1 other reads)
    rw [dropUnsent_ne _ _ different]
    exact conserved other unread
  | consumeFile child size => exact conserved
  | exit child exitCode alive => exact conserved.kept rfl rfl ⟨[],(List.append_nil _).symm⟩ fun _ => rfl
  | report exited waits => exact conserved.announced rfl rfl rfl (fun _ => rfl) rfl rfl rfl
  | pour writer size listed some enough =>
    exact (conserved.put writer.1 (writer.2.take size)).kept rfl rfl ⟨[],(List.append_nil _).symm⟩ fun _ => rfl
  | close writer listed => exact conserved.kept rfl rfl ⟨[],(List.append_nil _).symm⟩ fun _ => rfl
  | forward reader size pipe listed reads some enough =>
    intro other unread
    obtain rfl := (traced.readers reader listed).2 pipe reads
    have pushed : ({ world.dropUnsent reader.1 size with events := world.events ++ [.pipeOutput reader.1
        ((world.unsent reader.1).take size) 0] } : World).envelopes = world.envelopes ++ _ := envelopes_push rfl rfl rfl
    rw [pushed,carried_append]
    change world.written other = carried other world.envelopes ++ carried other [⟨reader.1.val,.data _ _⟩] ++
      (world.dropUnsent reader.1 size).unsent other
    rw [carried_data]
    by_cases same : reader.1 = other
    · subst same
      rw [if_pos rfl,dropUnsent_self,List.append_assoc,List.take_append_drop]
      exact conserved reader.1 unread
    · rw [if_neg same,List.append_nil,dropUnsent_ne _ _ (Ne.symm same)]
      exact conserved other unread
  | eof reader pipe listed reads empty closed => exact conserved.announced rfl rfl rfl (fun _ => rfl) rfl rfl rfl

end Conserved

structure Relayed (world : World) : Prop where
  received : world.received ≤ world.output.length
  gathered : ∀ pipe, (∀ line ∈ world.lines, pipe ≠ line.cwd) →
    world.frontend.handler.gatheringOutput.lookup pipe = none
  shown : ∀ pipe, (∀ line ∈ world.lines, pipe ≠ line.cwd) →
    shownFrom pipe world.frontend.handler.shown = carried pipe world.handled
  eof : ∀ line ∈ world.lines, line.cwd ∈ world.frontend.handler.waitingForEof ∨
    ∃ envelope ∈ world.handled, envelope.Closes line.cwd

theorem handled_grows (world : World) (bounded : world.received ≤ world.output.length) {more : List RemoteResponse}
    (output : after.output = world.output ++ more) (received : after.received = world.received) :
    after.handled = world.handled := by
  rw [handled,handled,output,received,List.take_append_of_le_length bounded]

theorem handled_receive {response : RemoteResponse} (found : world.output[world.received]? = some response)
    (output : after.output = world.output) (received : after.received = world.received + 1) :
    after.handled = world.handled ++ response.envelope?.toList := by
  rw [handled,handled,output,received,List.take_add_one,found,List.filterMap_append]
  cases shape : response.envelope? <;> simp [shape]

namespace Relayed

theorem start : Relayed (new info) where
  received := Nat.zero_le _
  gathered _ _ := Finmap.lookup_empty _
  shown _ _ := rfl
  eof := by simp [new]

private theorem kept (relayed : Relayed world) (lines : after.lines = world.lines)
    (handler : after.frontend.handler = world.frontend.handler) (received : after.received = world.received)
    (output : ∃ more, after.output = world.output ++ more) : Relayed after := by
  obtain ⟨more,output⟩ := output
  have handled := handled_grows world relayed.received output received
  constructor
  · rw [received,output,List.length_append]
    exact relayed.received.trans (Nat.le_add_right _ _)
  · rw [lines,handler]
    exact relayed.gathered
  · rw [lines,handler,handled]
    exact relayed.shown
  · rw [lines,handler,handled]
    exact relayed.eof

private theorem begins (relayed : Relayed world) {line : Line} {frontend : Endpoint StackedRemotes}
    (begins : Shell.Begins line world.frontend frontend) :
    Relayed { world with frontend, lines := world.lines ++ [line] } where
  received := relayed.received
  gathered := by
    intro pipe other
    have before := relayed.gathered pipe fun line listed => other line (List.mem_append_left _ listed)
    have last := other line (List.mem_append_right _ (List.mem_singleton.mpr rfl))
    change frontend.handler.gatheringOutput.lookup pipe = none
    rw [begins.gatheringOutput,if_neg last]
    exact before
  shown := by
    intro pipe other
    change shownFrom pipe frontend.handler.shown = _
    rw [begins.shown]
    exact relayed.shown pipe fun line listed => other line (List.mem_append_left _ listed)
  eof := by
    intro other member
    change other.cwd ∈ frontend.handler.waitingForEof ∨ _
    rw [begins.waitingForEof]
    rcases List.mem_append.mp member with old | new
    · exact (relayed.eof other old).imp_left Finset.mem_insert_of_mem
    · exact Or.inl (List.mem_singleton.mp new ▸ Finset.mem_insert_self _ _)

private theorem receives (relayed : Relayed world) {response : RemoteResponse} {frontend : Endpoint StackedRemotes}
    (found : world.output[world.received]? = some response)
    (receives : Shell.Receives response world.frontend frontend) :
    Relayed { world with frontend, received := world.received + 1 } := by
  have handled : ({ world with frontend, received := world.received + 1 } : World).handled =
      world.handled ++ response.envelope?.toList := handled_receive found rfl rfl
  constructor
  · exact (List.getElem?_eq_some_iff.mp found).1
  · exact fun pipe other => receives.gathered pipe (relayed.gathered pipe other)
  · intro pipe other
    rw [handled,carried_append]
    change shownFrom pipe frontend.handler.shown = _
    rw [receives.shown pipe (relayed.gathered pipe other),relayed.shown pipe other]
  · intro line listed
    rw [handled]
    rcases relayed.eof line listed with waits | ⟨envelope,member,closes⟩
    · rcases receives.eof line.cwd waits with still | ⟨envelope,rfl,closes⟩
      · exact Or.inl still
      · exact Or.inr ⟨envelope,List.mem_append_right _ (List.mem_singleton.mpr rfl),closes⟩
    · exact Or.inr ⟨envelope,List.mem_append_left _ member,closes⟩

theorem moves (relayed : Relayed world) (traced : Traced world) (moves : Moves world move after) :
    Relayed after := by
  have unchanged : ∃ more, world.output = world.output ++ more := ⟨[],(List.append_nil _).symm⟩
  cases moves with
  | prompt getCommand line frontend begins => exact relayed.begins begins
  | receive terminal response frontend found receives => exact relayed.receives found receives
  | interrupt order frontend unbegun same => exact relayed.kept rfl same rfl unchanged
  | execute os event events exec found handled =>
    have handled := ExecInternal.handle_handled traced.inv traced.named handled
    exact relayed.kept rfl rfl rfl ⟨_,output_grows rfl handled.appended⟩
  | write child stream data alive some =>
    obtain ⟨written,unsent,shape⟩ := world.put_shape (outputOf child stream) data
    rw [shape]
    exact relayed.kept rfl rfl rfl unchanged
  | pour writer size listed some enough =>
    obtain ⟨written,unsent,shape⟩ := world.put_shape writer.1 (writer.2.take size)
    rw [shape]
    exact relayed.kept rfl rfl rfl unchanged
  | _ => exact relayed.kept rfl rfl rfl unchanged

end Relayed
end World
end Nak
