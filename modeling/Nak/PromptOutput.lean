import Nak.WorldAccount
import Nak.PlanBuilder
import Nak.WorldStreams

/-! Whether all output is shown when the loop of the shell reads the next command. It waits
for the end of the directory's answer and not for the pipes that are shown, so everything
rests on what these still hold when that end is read. -/
namespace Nak
open Library

def Sink.Shows : Sink → Prop
  | .stdout => True
  | .stderr => True
  | _ => False

instance : DecidablePred Sink.Shows := fun sink =>
  match sink with
  | .stdout => isTrue trivial
  | .stderr => isTrue trivial
  | .devNull => isFalse id
  | .gather _ => isFalse id
  | .pager _ => isFalse id

namespace World
variable {world after : World} {move : Move} {info : RemoteInfo} {line : Line} {entry : GenericPipe × Sink}

/-- What was written to the pipes of the sinks has been shown. -/
def OutputShown (world : World) : Prop :=
  ∀ line ∈ world.lines, ∀ entry ∈ line.sinks, entry.2.Shows →
    shownFrom entry.1 world.frontend.handler.shown = world.written entry.1

instance (world : World) : Decidable world.OutputShown :=
  inferInstanceAs (Decidable (∀ line ∈ world.lines, ∀ entry ∈ line.sinks, entry.2.Shows → _ = _))

/-- No one has yet to read the pipe, or a thread to write to it. -/
def Drained (world : World) (pipe : GenericPipe) : Prop :=
  world.unsent pipe = [] ∧ ∀ writer ∈ world.writers, writer.1.handle.id? = some pipe → writer.2 = []

instance (world : World) (pipe : GenericPipe) : Decidable (world.Drained pipe) :=
  inferInstanceAs (Decidable (_ = _ ∧ ∀ writer ∈ world.writers, _ = _ → _ = _))

/-- The end of a directory's answer is read when the shown pipes of its line are drained. -/
def Timely (world : World) : Move → Prop
  | .eof reader => ∀ line ∈ world.lines, line.cwd = reader.1 → ∀ entry ∈ line.sinks, entry.2.Shows →
      world.Drained entry.1
  | _ => True

instance (world : World) (move : Move) : Decidable (world.Timely move) :=
  match move with
  | .eof reader => inferInstanceAs (Decidable (∀ line ∈ world.lines, line.cwd = reader.1 → ∀ entry ∈ line.sinks,
      entry.2.Shows → world.Drained entry.1))
  | .prompt _ | .receive _ | .interrupt _ | .route _ | .execute _ | .write _ _ _ | .consume _ _ | .exit _ _ | .report _
  | .pour _ _ | .close _ | .forward _ _ => isTrue trivial

/-- Nothing that is shown comes after the end of the directory's answer. -/
def Sealed (world : World) : Prop :=
  ∀ line ∈ world.lines, ∀ early closing late, world.envelopes = early ++ closing :: late →
    closing.Closes line.cwd → (∀ job ∈ line.jobs, job.id ∈ world.exec.machine.finished) ∧
      ∀ entry ∈ line.sinks, entry.2.Shows → world.Drained entry.1 ∧ carried entry.1 late = []

theorem split_push {α : Type} {before early late : List α} {new mark : α}
    (split : before ++ [new] = early ++ mark :: late) :
    (late = [] ∧ mark = new) ∨ ∃ rest, late = rest ++ [new] ∧ before = early ++ mark :: rest := by
  rcases List.eq_nil_or_concat late with rfl | ⟨rest,last,rfl⟩
  · exact Or.inl ⟨rfl,(List.singleton_inj.mp (List.append_inj' split rfl).2).symm⟩
  · rw [List.concat_eq_append,← List.cons_append,← List.append_assoc] at split
    obtain ⟨same,last'⟩ := List.append_inj' split rfl
    obtain rfl := List.singleton_inj.mp last'
    exact Or.inr ⟨rest,List.concat_eq_append,same⟩

theorem Drained.less {pipe : GenericPipe} (drained : world.Drained pipe)
    (unsent : after.unsent pipe = world.unsent pipe)
    (writers : ∀ writer ∈ after.writers, writer.1.handle.id? = some pipe → writer ∈ world.writers) :
    after.Drained pipe :=
  ⟨unsent.trans drained.1,fun writer member on => drained.2 writer (writers writer member on) on⟩

theorem Drained.drop {pipe other : GenericPipe} {size : Nat} (drained : world.Drained pipe) :
    (world.dropUnsent other size).Drained pipe := by
  refine ⟨?_,drained.2⟩
  by_cases same : pipe = other
  · rw [← same,dropUnsent_self,drained.1,List.drop_nil]
  · rw [dropUnsent_ne _ _ same,drained.1]

theorem Drained.put {pipe : GenericPipe} {handle : OutputPipe} {data : Bytes} (drained : world.Drained pipe)
    (apart : handle.handle.id? ≠ some pipe) : (world.put handle data).Drained pipe := by
  obtain ⟨_,unsent⟩ := world.put_data pipe handle data
  refine drained.less (unsent.trans ?_) ?_
  · rw [putInto,if_neg apart,List.append_nil]
  · obtain ⟨_,_,shape⟩ := world.put_shape handle data
    rw [shape]
    exact fun _ member _ => member

theorem Traced.writer_finished (traced : Traced world) (listed : line ∈ world.lines) (sink : entry ∈ line.sinks)
    (finished : ∀ job ∈ line.jobs, job.id ∈ world.exec.machine.finished) {pid : ProcessId} {cmd : RunCmd}
    (begun : Begun world.lines pid cmd) (output : cmd.pipes.output entry.1) : pid ∈ world.exec.machine.finished := by
  obtain ⟨job,member,rfl⟩ := traced.laid.sink_writer listed sink begun output
  exact finished job member

namespace Sealed

theorem start : Sealed (new info) := by
  intro line listed
  cases listed

private theorem kept (closed : Sealed world) (lines : after.lines = world.lines)
    (envelopes : after.envelopes = world.envelopes)
    (finished : ∀ pid ∈ world.exec.machine.finished, pid ∈ after.exec.machine.finished)
    (drained : ∀ line ∈ world.lines, (∀ job ∈ line.jobs, job.id ∈ world.exec.machine.finished) →
      ∀ entry ∈ line.sinks, world.Drained entry.1 → after.Drained entry.1) : Sealed after := by
  intro line listed early closing late split closes
  rw [lines] at listed
  obtain ⟨done,sinks⟩ := closed line listed early closing late (envelopes ▸ split) closes
  refine ⟨fun job member => finished _ (done job member),?_⟩
  intro entry sink shows
  obtain ⟨empty,silent⟩ := sinks entry sink shows
  exact ⟨drained line listed done entry sink empty,silent⟩

private theorem pushed (closed : Sealed world) {event : ExecEvent} {envelope : PipeEnvelope}
    (asked : event.envelope? = some envelope) (lines : after.lines = world.lines) (exec : after.exec = world.exec)
    (info : after.info = world.info) (events : after.events = world.events ++ [event])
    (drained : ∀ pipe, world.Drained pipe → after.Drained pipe)
    (silent : ∀ pipe, world.Drained pipe → carried pipe [envelope] = [])
    (last : ∀ line ∈ world.lines, envelope.Closes line.cwd →
      (∀ job ∈ line.jobs, job.id ∈ world.exec.machine.finished) ∧
        ∀ entry ∈ line.sinks, entry.2.Shows → world.Drained entry.1) : Sealed after := by
  intro line listed early closing late split closes
  rw [lines] at listed
  rw [envelopes_push exec info events,asked,Option.toList_some] at split
  rw [exec]
  rcases split_push split with ⟨rfl,rfl⟩ | ⟨rest,rfl,before⟩
  · obtain ⟨done,sinks⟩ := last line listed closes
    exact ⟨done,fun entry sink shows => ⟨drained _ (sinks entry sink shows),rfl⟩⟩
  · obtain ⟨done,sinks⟩ := closed line listed early closing rest before closes
    refine ⟨done,?_⟩
    intro entry sink shows
    obtain ⟨empty,quiet⟩ := sinks entry sink shows
    exact ⟨drained _ empty,by rw [carried_append,quiet,silent _ empty,List.append_nil]⟩

private theorem begins (closed : Sealed world) (traced : Traced world) {frontend : Endpoint StackedRemotes}
    (begins : Shell.Begins line world.frontend frontend) :
    Sealed { world with frontend, lines := world.lines ++ [line] } := by
  intro other member early closing late split closes
  rcases List.mem_append.mp member with old | new
  · exact closed other old early closing late split closes
  · obtain rfl := List.mem_singleton.mp new
    have listed : closing ∈ world.envelopes := by
      change closing ∈ ({ world with frontend, lines := world.lines ++ [other] } : World).envelopes
      rw [split]
      exact List.mem_append_right _ (List.mem_cons_self ..)
    have drawn := begins.sound.draws Line.draws_cwd
    exact absurd (closes.1 ▸ traced.envelopes closing listed) (not_lt.mpr drawn.1)

private theorem executed (closed : Sealed world) (traced : Traced world) {event : ExecEvent} {events : List ExecEvent}
    {exec : ExecInternal} (found : world.events = event :: events)
    (handled : ExecInternal.Handled world.exec event exec) :
    Sealed ({ world with events, exec }.begin (exec.effects.drop world.exec.effects.length)) := by
  have drawn := traced.head found
  refine closed.kept rfl (envelopes_executed found handled) handled.finished ?_
  intro line listed done entry sink drained
  refine drained.less rfl ?_
  intro writer member on
  rcases List.mem_append.mp member with old | begun
  · exact old
  · obtain ⟨effect,caused,shape⟩ := List.mem_filterMap.mp begun
    cases handled.caused effect caused with
    | closing pid cmd effect requested unfinished closing =>
      cases closing with
      | writer pipe handle data output of =>
        obtain rfl := Option.some.inj shape
        have writes : cmd.pipes.output entry.1 := (of entry.1 on).symm ▸ output
        exact absurd (traced.writer_finished listed sink done (traced.requested drawn requested) writes) unfinished
      | _ => cases shape
    | _ => cases shape

private theorem put (closed : Sealed world) {handle : OutputPipe} {data : Bytes}
    (apart : ∀ line ∈ world.lines, (∀ job ∈ line.jobs, job.id ∈ world.exec.machine.finished) →
      ∀ entry ∈ line.sinks, world.Drained entry.1 → handle.handle.id? ≠ some entry.1) :
    Sealed (world.put handle data) := by
  obtain ⟨_,_,shape⟩ := world.put_shape handle data
  refine closed.kept ?_ ?_ ?_ ?_
  · rw [shape]
  · rw [shape]
    rfl
  · rw [shape]
    exact fun _ => id
  · intro line listed done entry sink drained
    exact drained.put (apart line listed done entry sink drained)

/-- A thread that still has data for a pipe is what draining excludes. -/
private theorem poured (closed : Sealed world) {writer : OutputPipe × Bytes} {size : Nat}
    (listed : writer ∈ world.writers) (positive : 0 < size) (enough : size ≤ writer.2.length) :
    Sealed { world.put writer.1 (writer.2.take size) with
      writers := (writer.1,writer.2.drop size) :: world.writers.erase writer } := by
  have apart (pipe : GenericPipe) (done : writer.1.handle.id? = some pipe → writer.2 = []) :
      writer.1.handle.id? ≠ some pipe := by
    intro on
    rw [done on] at enough
    exact absurd enough (not_le.mpr positive)
  have written : Sealed (world.put writer.1 (writer.2.take size)) :=
    closed.put fun _ _ _ entry _ drained => apart entry.1 (drained.2 writer listed)
  refine written.kept rfl rfl (fun _ => id) ?_
  intro line _ done entry sink drained
  refine drained.less rfl ?_
  obtain ⟨_,_,shape⟩ := world.put_shape writer.1 (writer.2.take size)
  have still : (world.put writer.1 (writer.2.take size)).writers = world.writers := by rw [shape]
  intro other member on
  rw [still]
  rcases List.mem_cons.mp member with same | old
  · rw [same] at on
    exact absurd on (apart entry.1 (drained.2 writer (still ▸ listed)))
  · exact List.mem_of_mem_erase old

private theorem writes_elsewhere (traced : Traced world) (accounted : Accounted world) (listed : line ∈ world.lines)
    (done : ∀ job ∈ line.jobs, job.id ∈ world.exec.machine.finished) (sink : entry ∈ line.sinks) {child : Process}
    (alive : child ∈ world.children) (stream : Stream) : (outputOf child stream).handle.id? ≠ some entry.1 := by
  intro on
  obtain ⟨cmd,begun,fits⟩ := traced.children child alive
  exact accounted.childless traced (traced.writer_finished listed sink done begun (fits.outputOf on)) alive

/-- The write ends of the directory's answer are closed only when the directory has written. -/
private theorem closed_finished (traced : Traced world) (accounted : Accounted world) (listed : line ∈ world.lines)
    {reader : GenericPipe × InputPipe} (reads : reader ∈ world.readers) (source : line.cwd = reader.1)
    (closed : ¬world.WriteOpen reader.1) : ∀ job ∈ line.jobs, job.id ∈ world.exec.machine.finished := by
  obtain ⟨⟨read,write⟩,found⟩ := Finmap.mem_iff.mp (traced.readers reader reads).1
  have ended : write = none := by
    by_contra open'
    exact closed (Or.inl (by rw [found]; exact open'))
  exact accounted.taken line listed ⟨read,by rw [source,found,ended]⟩

theorem moves (closed : Sealed world) (traced : Traced world) (accounted : Accounted world)
    (timely : world.Timely move) (moves : Moves world move after) : Sealed after := by
  have same (line : Line) (_ : line ∈ world.lines) (_ : ∀ job ∈ line.jobs, job.id ∈ world.exec.machine.finished)
      (entry : GenericPipe × Sink) (_ : entry ∈ line.sinks) (drained : world.Drained entry.1) :
      world.Drained entry.1 := drained
  cases moves with
  | prompt getCommand line frontend begins => exact closed.begins traced begins
  | receive terminal response frontend found receives => exact closed.kept rfl rfl (fun _ => id) same
  | interrupt order frontend unbegun unchanged => exact closed.kept rfl rfl (fun _ => id) same
  | route order request event found routed =>
    have silent := (routed_drawn traced.laid (traced.sent request (List.mem_of_getElem? found)) routed).2
    exact closed.kept rfl (envelopes_silent rfl rfl rfl silent) (fun _ => id) same
  | execute os event events exec found handled =>
    exact closed.executed traced found (ExecInternal.handle_handled traced.inv traced.named handled)
  | write child stream data alive some =>
    exact closed.put fun line listed done entry sink _ =>
      writes_elsewhere traced accounted listed done sink alive stream
  | consume child size pipe alive reads =>
    exact closed.kept rfl rfl (fun _ => id) fun _ _ _ _ _ drained => drained.drop
  | consumeFile child size => exact closed
  | exit child exitCode alive => exact closed.kept rfl rfl (fun _ => id) same
  | report exited waits => exact closed.kept rfl (envelopes_silent rfl rfl rfl rfl) (fun _ => id) same
  | pour writer size listed some enough => exact closed.poured listed some enough
  | close writer listed =>
    refine closed.kept rfl rfl (fun _ => id) fun line _ done entry sink drained => drained.less rfl ?_
    exact fun other member _ => List.mem_of_mem_erase member
  | forward reader size pipe listed reads some enough =>
    refine closed.pushed rfl rfl rfl rfl rfl (fun pipe drained => drained.drop) ?_ ?_
    · intro other drained
      obtain rfl := (traced.readers reader listed).2 pipe reads
      rw [carried_data]
      split
      · rename_i same
        subst same
        rw [drained.1] at enough
        exact absurd enough (not_le.mpr some)
      · rfl
    · intro line _ given
      obtain ⟨_,endOffset,data⟩ := given
      cases data
  | eof reader pipe listed reads empty closed' =>
    refine closed.pushed rfl rfl rfl rfl rfl (fun pipe drained => drained) (fun _ _ => rfl) ?_
    intro line member given
    obtain ⟨value,_⟩ := given
    obtain rfl := (traced.readers reader listed).2 pipe reads
    have source : line.cwd = reader.1 := by
      obtain ⟨⟨number⟩,_⟩ := reader
      exact congrArg GenericPipe.mk value.symm
    exact ⟨closed_finished traced accounted member listed source closed',timely line member source⟩

end Sealed

/-- When the end of a directory's answer is read only with the shown pipes drained, all output
has been shown whenever the loop is at the prompt. -/
theorem prompt_output_shown {trace : List Move} (run : ((system info).restrict Timely).Run trace world)
    (atPrompt : world.AtPrompt) : world.OutputShown := by
  have all : Traced world ∧ Accounted world ∧ Conserved world ∧ Relayed world ∧ Sealed world := by
    refine run.invariant (fun _ world => Traced world ∧ Accounted world ∧ Conserved world ∧ Relayed world ∧
      Sealed world)
      ?_ ?_
    · intro _ same
      obtain rfl := same
      exact ⟨.start,.start,.start,.start,.start⟩
    · intro _ world move after _ given given'
      obtain ⟨traced,accounted,conserved,relayed,closed⟩ := given
      obtain ⟨taken,timely⟩ := given'
      have moves := next_moves taken
      exact ⟨traced.moves moves,accounted.moves traced moves,conserved.moves traced moves,relayed.moves traced moves,
        closed.moves traced accounted timely moves⟩
  obtain ⟨traced,accounted,conserved,relayed,closed⟩ := all
  intro line listed entry sink shows
  have answered : ∃ envelope ∈ world.handled, envelope.Closes line.cwd := by
    refine (relayed.eof line listed).resolve_left ?_
    rw [atPrompt.eofs]
    exact Finset.notMem_empty _
  obtain ⟨closing,taken,closes⟩ := answered
  obtain ⟨early,late,shape⟩ := List.append_of_mem taken
  obtain ⟨rest,whole⟩ := world.handled_prefix
  rw [shape,List.append_assoc,List.cons_append] at whole
  obtain ⟨_,sinks⟩ := closed line listed early closing (late ++ rest) whole closes
  obtain ⟨⟨empty,_⟩,silent⟩ := sinks entry sink shows
  have unread : Unread world.lines entry.1 := fun other listed' job member =>
    traced.laid.sink_reader listed sink ⟨other,listed',job,member,rfl,rfl⟩
  rw [carried_append,List.append_eq_nil_iff] at silent
  have told : carried entry.1 world.handled = carried entry.1 world.envelopes := by
    rw [shape,whole,← List.cons_append,← List.append_assoc,carried_append _ (early ++ closing :: late),silent.2,
      List.append_nil]
  rw [relayed.shown entry.1 fun other listed' => traced.laid.sink_cwd listed sink listed',told,
    conserved entry.1 unread,empty,List.append_nil]

private def printing : Plan := ⟨[.pipe,.pipe,.pipe,.remote ⟨0⟩ (.run (.unknown "echo" ["A"]) ⟨0,2,0,1⟩)],some 2,0,0,
  [some .stdout,some .stderr]⟩

example : planCommandSimple ⟨[⟨0⟩]⟩ ⟨[]⟩ (.cmd ⟨none,[.normal "echo",.normal "A"]⟩) = .ok (.ok printing) := rfl

private def printer : Process := ⟨⟨3⟩,.fromPipe 0 ⟨2⟩,.fromPipe 1 ⟨0⟩,.fromPipe 2 ⟨1⟩⟩

private def answer : OutputPipe := .fromPipe 3 ⟨4⟩

private def cwdReader : GenericPipe × InputPipe := (⟨4⟩,.fromPipe 3 ⟨4⟩)

private def sinkReader : GenericPipe × InputPipe := (⟨0⟩,.fromPipe 1 ⟨0⟩)

private def answered : List Move :=
  [.receive .working,.prompt fun _ => .ok (.ok printing),.route ∅,.route (AList.insert ⟨3⟩ none ∅)] ++
  List.replicate 8 (.route ∅) ++
  [.execute .working,.write printer .stdout [65],.exit printer 0,.report (⟨3⟩,0)] ++
  List.replicate 10 (.execute .working) ++
  [.pour (answer,bytes "/\n") 2,.close (answer,[]),.forward cwdReader 2]

private def overtaken : List Move :=
  answered ++ [.eof cwdReader] ++ List.replicate 2 (.execute .working) ++ List.replicate 4 (.receive .working)

private def inOrder : List Move :=
  answered ++ [.forward sinkReader 1,.eof cwdReader] ++ List.replicate 3 (.execute .working) ++
    List.replicate 5 (.receive .working)

private def localhost : RemoteInfo := ⟨"localhost","nak","/"⟩

theorem prompt_output_shown_echo : ∃ trace world, ((system localhost).restrict Timely).Run trace world ∧
    world.AtPrompt ∧ world.written ⟨0⟩ = [65] ∧ world.OutputShown := by
  obtain ⟨world,run,atPrompt,written⟩ := System.ends_run (new localhost) next Timely
    (fun world => world.AtPrompt ∧ world.written ⟨0⟩ = [65])
    (show System.ends (new localhost) next _ _ inOrder = true by decide +kernel)
  exact ⟨inOrder,world,run,atPrompt,written,prompt_output_shown run atPrompt⟩

/-- The loop reads the next command with all jobs finished and a byte unseen. -/
theorem prompt_output_overtaken : ∃ trace world, (system localhost).Run trace world ∧ world.AtPrompt ∧
    (∀ line ∈ world.lines, ∀ job ∈ line.jobs, job.id ∈ world.exec.machine.finished) ∧ ¬world.OutputShown := by
  obtain ⟨world,run,shape⟩ := System.ends_run (new localhost) next (fun _ _ => True) (fun world => world.AtPrompt ∧
    (∀ line ∈ world.lines, ∀ job ∈ line.jobs, job.id ∈ world.exec.machine.finished) ∧ ¬world.OutputShown)
    (show System.ends (new localhost) next _ _ overtaken = true by decide +kernel)
  exact ⟨overtaken,world,run.unrestricted,shape⟩

end World
end Nak
