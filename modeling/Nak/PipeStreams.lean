import Nak.ExecShares
import Nak.LineFrames
import Nak.Library.Log
import Nak.WorldStreams

/-! The data of one pipe on its way to the frontend. Who reads a pipe is settled once, so all
that is written to a pipe that the frontend reads is in a message or still in the pipe, and
the end of the pipe is read when no one can write to it any more. -/
namespace Nak
open Library

theorem carried_unheard {pipe : GenericPipe} {envelopes : List PipeEnvelope}
    (unheard : ∀ envelope ∈ envelopes, envelope.id ≠ pipe.val) : carried pipe envelopes = [] := by
  apply List.flatMap_eq_nil_iff.mpr
  intro envelope member
  unfold PipeEnvelope.dataFor
  split
  · exact if_neg (unheard envelope member)
  · rfl

theorem carried_snoc {pipe : GenericPipe} {envelopes : List PipeEnvelope} {envelope : PipeEnvelope}
    (apart : envelope.id ≠ pipe.val) : carried pipe (envelopes ++ [envelope]) = carried pipe envelopes := by
  rw [carried_append,@carried_unheard _ [envelope] (by simpa using apart),List.append_nil]

namespace World
variable {world after : World} {move : Move} {info : RemoteInfo} {pipe : GenericPipe}

/-- What the frontend has handled of the pipe fits what was written to it. -/
structure Intact (world : World) (pipe : GenericPipe) : Prop where
  inOrder : carried pipe world.handled <+: world.written pipe
  closed : ∀ early closing late, world.handled = early ++ closing :: late → closing.Closes pipe →
    carried pipe early = world.written pipe ∧ ∀ envelope ∈ late, envelope.id ≠ pipe.val
  gathering : ∀ output, world.frontend.handler.gatheringOutput.lookup pipe = some output →
    output = carried pipe world.handled
  finished : ∀ output, world.frontend.handler.finishedOutput.lookup pipe = some output → output = world.written pipe

/-- The frontend has asked for the data of the pipe, and a thread was started for it. -/
def ReadBegun (world : World) (pipe : GenericPipe) : Prop := ∃ handle, .reader pipe handle ∈ world.exec.effects

/-- The end of the pipe was read: there is nothing in it, and no one reads it or writes to it. -/
structure Ended (world : World) (pipe : GenericPipe) : Prop where
  empty : world.unsent pipe = []
  taken : ExecInternal.Taken world.exec.openHandles pipe
  children : ∀ child ∈ world.children, ∀ stream, (outputOf child stream).handle.id? ≠ some pipe
  writers : ∀ writer ∈ world.writers, writer.1.handle.id? ≠ some pipe
  readers : ∀ reader ∈ world.readers, reader.1 ≠ pipe

/-- The message is about a pipe whose end has not been announced before. -/
def Going (before : List PipeEnvelope) (envelope : PipeEnvelope) : Prop :=
  ∀ closing ∈ before, ¬closing.Closes ⟨envelope.id⟩

structure Streaming (world : World) : Prop where
  shares : ∀ pipe, world.exec.readShare pipe ≤ 1
  single : ∀ pipe, world.readers.countP (·.1 = pipe) ≤ ExecInternal.reads pipe world.exec.effects
  children : ∀ child ∈ world.children, ∃ effect ∈ world.exec.effects, effect.process? = some child
  readers : ∀ reader ∈ world.readers, world.ReadBegun reader.1
  told : ∀ envelope ∈ world.envelopes, world.ReadBegun ⟨envelope.id⟩
  conserved : ∀ pipe, ExecInternal.reads pipe world.exec.effects = 0 ∨ world.ReadBegun pipe →
    world.written pipe = carried pipe world.envelopes ++ world.unsent pipe
  going : Guarded Going world.envelopes
  ended : ∀ closing ∈ world.envelopes, ∀ pipe, closing.Closes pipe → world.Ended pipe

theorem ReadBegun.reads (begun : world.ReadBegun pipe) : 0 < ExecInternal.reads pipe world.exec.effects := by
  obtain ⟨handle,member⟩ := begun
  exact List.countP_pos_iff.mpr ⟨_,member,by simp [Effect.holdsRead]⟩

theorem Ended.less (ended : world.Ended pipe) (unsent : after.unsent pipe = [])
    (taken : ExecInternal.Taken world.exec.openHandles pipe → ExecInternal.Taken after.exec.openHandles pipe)
    (children : ∀ child ∈ after.children, child ∈ world.children)
    (writers : ∀ writer ∈ after.writers, ∃ old ∈ world.writers, old.1 = writer.1)
    (readers : ∀ reader ∈ after.readers, reader ∈ world.readers) : after.Ended pipe where
  empty := unsent
  taken := taken ended.taken
  children child member := ended.children child (children child member)
  writers writer member := by
    obtain ⟨old,listed,same⟩ := writers writer member
    exact same ▸ ended.writers old listed
  readers reader member := ended.readers reader (readers reader member)

theorem envelopes_new : (new info).envelopes = [] := rfl

namespace Streaming

theorem start : Streaming (new info) where
  shares _ := le_rfl
  single _ := le_rfl
  children := by simp [new]
  readers := by simp [new]
  told := by simp [envelopes_new]
  conserved _ _ := rfl
  going := by
    rw [envelopes_new]
    exact .nil
  ended := by simp [envelopes_new]

private theorem kept (streaming : Streaming world) (exec : after.exec = world.exec)
    (envelopes : after.envelopes = world.envelopes) (written : after.written = world.written)
    (unsent : after.unsent = world.unsent) (readers : after.readers = world.readers)
    (children : ∀ child ∈ after.children, child ∈ world.children)
    (writers : ∀ writer ∈ after.writers, ∃ old ∈ world.writers, old.1 = writer.1) : Streaming after where
  shares := exec ▸ streaming.shares
  single := by
    rw [readers,exec]
    exact streaming.single
  children := by
    intro child member
    rw [exec]
    exact streaming.children child (children child member)
  readers := by
    rw [readers]
    unfold ReadBegun
    rw [exec]
    exact streaming.readers
  told := by
    rw [envelopes]
    unfold ReadBegun
    rw [exec]
    exact streaming.told
  conserved := by
    unfold ReadBegun
    rw [exec,envelopes,written,unsent]
    exact streaming.conserved
  going := envelopes ▸ streaming.going
  ended := by
    intro closing member pipe closes
    have ended := streaming.ended closing (envelopes ▸ member) pipe closes
    refine ended.less (unsent ▸ ended.empty) (fun taken => exec ▸ taken) children writers ?_
    exact fun reader listed => readers ▸ listed

private theorem noted (streaming : Streaming world) {event : ExecEvent} (silent : event.envelope? = none)
    (exec : after.exec = world.exec) (info : after.info = world.info) (events : after.events = world.events ++ [event])
    (written : after.written = world.written) (unsent : after.unsent = world.unsent)
    (readers : after.readers = world.readers) (children : after.children = world.children)
    (writers : after.writers = world.writers) : Streaming after := by
  refine streaming.kept exec (envelopes_silent exec info events silent) written unsent readers ?_ ?_
  · exact fun child member => children ▸ member
  · exact fun writer member => ⟨writer,writers ▸ member,rfl⟩

private theorem put (streaming : Streaming world) {handle : OutputPipe} {data : Bytes}
    (open' : ∀ pipe, world.Ended pipe → handle.handle.id? ≠ some pipe) : Streaming (world.put handle data) := by
  obtain ⟨written,unsent,shape⟩ := world.put_shape handle data
  have contents (pipe : GenericPipe) := world.put_data pipe handle data
  rw [shape] at contents ⊢
  refine { streaming with conserved := ?_, ended := ?_ }
  · intro pipe either
    obtain ⟨more,more'⟩ := contents pipe
    have before := streaming.conserved pipe either
    change written pipe = _ at more
    change unsent pipe = _ at more'
    change written pipe = carried pipe world.envelopes ++ unsent pipe
    rw [more,more',before,List.append_assoc]
  · intro closing member pipe closes
    have ended := streaming.ended closing member pipe closes
    refine { ended with empty := ?_ }
    rw [(contents pipe).2,putInto,if_neg (open' pipe ended),ended.empty]
    rfl

private theorem reader_alone (streaming : Streaming world) {child : Process} (alive : child ∈ world.children)
    (reads : child.stdin.handle.id? = some pipe) :
    ExecInternal.reads pipe world.exec.effects ≠ 0 ∧ ¬world.ReadBegun pipe := by
  obtain ⟨effect,spawned,shape⟩ := streaming.children child alive
  have holds : effect.holdsRead pipe := by
    cases effect with
    | spawned pid number path args stdin stdout stderr =>
      obtain rfl := Option.some.inj shape
      simpa [Effect.holdsRead] using reads
    | _ => cases shape
  have some : 0 < ExecInternal.reads pipe world.exec.effects := List.countP_pos_iff.mpr ⟨effect,spawned,holds⟩
  refine ⟨some.ne',?_⟩
  intro begun
  obtain ⟨handle,member⟩ := begun
  have most := (Nat.le_add_left _ _).trans (streaming.shares pipe)
  have same := ExecInternal.holder_unique most spawned holds member (by simp [Effect.holdsRead])
  rw [same] at shape
  cases shape

/-- A process that reads from a pipe has its end, so that no one else is told of the data. -/
private theorem consume (streaming : Streaming world) {child : Process} (size : Nat) (alive : child ∈ world.children)
    (reads : child.stdin.handle.id? = some pipe) : Streaming (world.dropUnsent pipe size) := by
  obtain ⟨some,unasked⟩ := streaming.reader_alone alive reads
  refine { streaming with conserved := ?_, ended := ?_ }
  · intro other either
    have different : other ≠ pipe := by
      intro same
      obtain rfl := same
      exact either.elim some unasked
    rw [dropUnsent_ne _ _ different]
    exact streaming.conserved other either
  · intro closing member other closes
    have ended := streaming.ended closing member other closes
    refine { ended with empty := ?_ }
    by_cases same : other = pipe
    · rw [same,dropUnsent_self,← same,ended.empty,List.drop_nil]
    · rw [dropUnsent_ne _ _ same,ended.empty]

private theorem going_on (streaming : Streaming world) {reader : GenericPipe × InputPipe}
    (listed : reader ∈ world.readers) {envelope : PipeEnvelope} (about : envelope.id = reader.1.val) :
    Guarded Going (world.envelopes ++ [envelope]) := by
  apply streaming.going.snoc
  intro closing member closes
  have ended := streaming.ended closing member _ closes
  refine ended.readers reader listed ?_
  obtain ⟨⟨number⟩,_⟩ := reader
  exact congrArg GenericPipe.mk about.symm

private theorem told_more (streaming : Streaming world) {reader : GenericPipe × InputPipe}
    (listed : reader ∈ world.readers) {envelope : PipeEnvelope} (about : envelope.id = reader.1.val) :
    ∀ other ∈ world.envelopes ++ [envelope], world.ReadBegun ⟨other.id⟩ := by
  intro other member
  rcases List.mem_append.mp member with old | new
  · exact streaming.told other old
  · rw [List.mem_singleton.mp new,about]
    exact streaming.readers reader listed

private theorem forward (streaming : Streaming world) {reader : GenericPipe × InputPipe} {size : Nat}
    (listed : reader ∈ world.readers) : Streaming { world.dropUnsent reader.1 size with
      events := world.events ++ [.pipeOutput reader.1 ((world.unsent reader.1).take size) 0] } := by
  have pushed : ({ world.dropUnsent reader.1 size with events := world.events ++ [.pipeOutput reader.1
      ((world.unsent reader.1).take size) 0] } : World).envelopes = world.envelopes ++ _ := envelopes_push rfl rfl rfl
  refine { streaming with told := ?_, conserved := ?_, going := ?_, ended := ?_ }
  · rw [pushed]
    exact streaming.told_more listed rfl
  · intro pipe either
    rw [pushed,carried_append]
    change world.written pipe = carried pipe world.envelopes ++ carried pipe [⟨reader.1.val,.data _ _⟩] ++
      (world.dropUnsent reader.1 size).unsent pipe
    rw [carried_data,streaming.conserved pipe either]
    by_cases same : reader.1 = pipe
    · subst same
      rw [if_pos rfl,dropUnsent_self,List.append_assoc,List.take_append_drop]
    · rw [if_neg same,List.append_nil,dropUnsent_ne _ _ (Ne.symm same)]
  · rw [pushed]
    exact streaming.going_on listed rfl
  · intro closing member pipe closes
    rw [pushed] at member
    rcases List.mem_append.mp member with old | new
    · have ended := streaming.ended closing old pipe closes
      refine { ended with empty := ?_ }
      change (world.dropUnsent reader.1 size).unsent pipe = []
      rw [dropUnsent_ne _ _ (ended.readers reader listed).symm,ended.empty]
    · obtain ⟨_,_,data⟩ := closes
      rw [List.mem_singleton.mp new] at data
      cases data

private theorem eof (streaming : Streaming world) (traced : Traced world) {reader : GenericPipe × InputPipe}
    (listed : reader ∈ world.readers) (empty : world.unsent reader.1 = []) (closed : ¬world.WriteOpen reader.1) :
    Streaming { world with
      readers := world.readers.erase reader
      events := world.events ++ [.pipeClosed reader.1 0] } := by
  have pushed : ({ world with
      readers := world.readers.erase reader
      events := world.events ++ [.pipeClosed reader.1 0] } : World).envelopes = world.envelopes ++ _ :=
    envelopes_push rfl rfl rfl
  have fewer (pipe : GenericPipe) := (List.perm_cons_erase listed).countP_eq (·.1 = pipe)
  refine { streaming with single := ?_, readers := ?_, told := ?_, conserved := ?_, going := ?_, ended := ?_ }
  · intro pipe
    have before := streaming.single pipe
    rw [fewer pipe,List.countP_cons] at before
    dsimp only
    omega
  · exact fun other member => streaming.readers other (List.mem_of_mem_erase member)
  · rw [pushed]
    exact streaming.told_more listed rfl
  · intro pipe either
    rw [pushed,carried_append]
    exact (streaming.conserved pipe either).trans (by simp [carried,ExecEvent.envelope?,PipeEnvelope.dataFor])
  · rw [pushed]
    exact streaming.going_on listed rfl
  · intro closing member pipe closes
    rw [pushed] at member
    rcases List.mem_append.mp member with old | new
    · have ended := streaming.ended closing old pipe closes
      exact { ended with readers := fun other member => ended.readers other (List.mem_of_mem_erase member) }
    · have same : reader.1 = pipe := by
        obtain ⟨about,_⟩ := closes
        rw [List.mem_singleton.mp new] at about
        obtain ⟨⟨number⟩,_⟩ := reader
        exact congrArg GenericPipe.mk about
      subst same
      obtain ⟨present,_⟩ := traced.readers reader listed
      obtain ⟨⟨read,write⟩,found⟩ := Finmap.mem_iff.mp present
      have handed : write = none := by
        by_contra kept
        exact closed (Or.inl (by rw [found]; exact kept))
      refine ⟨empty,⟨read,handed ▸ found⟩,?_,?_,?_⟩
      · intro child alive stream on
        refine closed (Or.inr (Or.inl ⟨child,alive,?_⟩))
        cases stream with
        | stdout => exact Or.inl on
        | stderr => exact Or.inr on
      · exact fun writer member on => closed (Or.inr (Or.inr ⟨writer,member,on⟩))
      · intro other member on
        have most := (Nat.le_add_left _ _).trans (streaming.shares reader.1)
        have before := streaming.single reader.1
        have again : 0 < (world.readers.erase reader).countP (·.1 = reader.1) :=
          List.countP_pos_iff.mpr ⟨other,member,decide_eq_true on⟩
        rw [fewer reader.1,List.countP_cons,if_pos (decide_eq_true rfl)] at before
        omega

section Executed
variable {os : Os} {event : ExecEvent} {events : List ExecEvent} {exec : ExecInternal}

/-- Once the end of a pipe is read, no event hands out another end of it. -/
private theorem ended_idle (streaming : Streaming world) (traced : Traced world)
    (taken : ExecInternal.handle os event world.exec = .ok exec) {more : List Effect}
    (appended : exec.effects = world.exec.effects ++ more) (ended : world.Ended pipe) (begun : world.ReadBegun pipe) :
    ExecInternal.reads pipe more = 0 ∧ ExecInternal.writes pipe more = 0 := by
  have thrifty := ExecInternal.handle_thrifty taken
  have read := thrifty.read traced.named pipe
  have write := thrifty.write traced.named pipe
  have most := streaming.shares pipe
  have some := begun.reads
  have none := ExecInternal.taken_left ended.taken
  simp only [ExecInternal.readShare,ExecInternal.writeShare,appended,ExecInternal.reads_append,
    ExecInternal.writes_append] at read write most
  omega

private theorem executed_ended (streaming : Streaming world) (traced : Traced world)
    (taken : ExecInternal.handle os event world.exec = .ok exec)
    (handled : ExecInternal.Handled world.exec event exec) (ended : world.Ended pipe) (begun : world.ReadBegun pipe) :
    ({ world with events, exec }.begin (exec.effects.drop world.exec.effects.length)).Ended pipe := by
  obtain ⟨unread,unwritten⟩ := streaming.ended_idle traced taken handled.appended ended begun
  obtain ⟨given,given'⟩ := Nat.add_eq_zero_iff.mp unwritten
  rw [List.countP_eq_zero] at given given'
  refine ⟨ended.empty,ExecInternal.handle_taken taken _ ended.taken,?_,?_,?_⟩
  · intro child member stream on
    rcases List.mem_append.mp member with old | new
    · exact ended.children child old stream on
    · obtain ⟨effect,caused,shape⟩ := List.mem_filterMap.mp new
      cases effect with
      | spawned pid number path args stdin stdout stderr =>
        obtain rfl := Option.some.inj shape
        cases stream with
        | stdout => exact given _ caused (decide_eq_true on)
        | stderr => exact given' _ caused (decide_eq_true on)
      | _ => cases shape
  · intro writer member on
    rcases List.mem_append.mp member with old | new
    · exact ended.writers writer old on
    · obtain ⟨effect,caused,shape⟩ := List.mem_filterMap.mp new
      cases effect with
      | writer other handle data =>
        obtain rfl := Option.some.inj shape
        exact given _ caused (decide_eq_true on)
      | _ => cases shape
  · intro reader member on
    rcases List.mem_append.mp member with old | new
    · exact ended.readers reader old on
    · obtain ⟨effect,caused,shape⟩ := List.mem_filterMap.mp new
      cases effect with
      | reader other handle =>
        obtain rfl := Option.some.inj shape
        exact List.countP_eq_zero.mp unread _ caused (decide_eq_true on)
      | _ => cases shape

private theorem executed (streaming : Streaming world) (traced : Traced world)
    (found : world.events = event :: events) (taken : ExecInternal.handle os event world.exec = .ok exec) :
    Streaming ({ world with events, exec }.begin (exec.effects.drop world.exec.effects.length)) := by
  have handled := ExecInternal.handle_handled traced.inv traced.named taken
  have same := envelopes_executed found handled
  have appended := handled.appended
  have shares (pipe : GenericPipe) : exec.readShare pipe ≤ 1 :=
    ((ExecInternal.handle_thrifty taken).read traced.named pipe).trans (streaming.shares pipe)
  have still (pipe : GenericPipe) (begun : world.ReadBegun pipe) :
      ({ world with events, exec }.begin (exec.effects.drop world.exec.effects.length)).ReadBegun pipe := by
    obtain ⟨handle,member⟩ := begun
    refine ⟨handle,?_⟩
    change _ ∈ exec.effects
    rw [appended]
    exact List.mem_append_left _ member
  constructor
  · exact shares
  · intro pipe
    have before := streaming.single pipe
    have fewer : ((exec.effects.drop world.exec.effects.length).filterMap Effect.reader?).countP (·.1 = pipe) ≤
        ExecInternal.reads pipe (exec.effects.drop world.exec.effects.length) := by
      rw [List.countP_filterMap]
      apply List.countP_mono_left
      intro effect _ reads
      cases effect with
      | reader other handle => exact reads
      | _ => cases reads
    change (world.readers ++ _).countP _ ≤ ExecInternal.reads pipe exec.effects
    rw [List.countP_append,appended,ExecInternal.reads_append]
    rw [← appended]
    omega
  · intro child member
    rcases List.mem_append.mp member with old | new
    · obtain ⟨effect,listed,shape⟩ := streaming.children child old
      exact ⟨effect,appended ▸ List.mem_append_left _ listed,shape⟩
    · obtain ⟨effect,caused,shape⟩ := List.mem_filterMap.mp new
      exact ⟨effect,List.mem_of_mem_drop caused,shape⟩
  · intro reader member
    rcases List.mem_append.mp member with old | new
    · exact still _ (streaming.readers reader old)
    · obtain ⟨effect,caused,shape⟩ := List.mem_filterMap.mp new
      cases effect with
      | reader other handle =>
        obtain rfl := Option.some.inj shape
        exact ⟨handle,List.mem_of_mem_drop caused⟩
      | _ => cases shape
  · rw [same]
    exact fun envelope member => still _ (streaming.told envelope member)
  · intro pipe either
    rw [same]
    refine streaming.conserved pipe ?_
    have most := (Nat.le_add_left _ _).trans (shares pipe)
    change ExecInternal.reads pipe exec.effects = 0 ∨ ∃ handle, .reader pipe handle ∈ exec.effects at either
    rw [appended,ExecInternal.reads_append] at most
    rw [appended,ExecInternal.reads_append] at either
    rcases either with none | ⟨handle,member⟩
    · exact Or.inl (Nat.add_eq_zero_iff.mp none).1
    · rcases List.mem_append.mp member with old | new
      · exact Or.inr ⟨handle,old⟩
      · have some : 0 < ExecInternal.reads pipe (exec.effects.drop world.exec.effects.length) :=
          List.countP_pos_iff.mpr ⟨_,new,by simp [Effect.holdsRead]⟩
        exact Or.inl (by omega)
  · rw [same]
    exact streaming.going
  · rw [same]
    intro closing member pipe closes
    have begun := streaming.told closing member
    rw [closes.1] at begun
    exact streaming.executed_ended traced taken handled (streaming.ended closing member pipe closes) begun

end Executed

theorem moves (streaming : Streaming world) (traced : Traced world) (moves : Moves world move after) :
    Streaming after := by
  cases moves with
  | prompt getCommand line frontend begins =>
    exact streaming.kept rfl rfl rfl rfl rfl (fun _ => id) fun writer member => ⟨writer,member,rfl⟩
  | receive terminal response frontend found receives =>
    exact streaming.kept rfl rfl rfl rfl rfl (fun _ => id) fun writer member => ⟨writer,member,rfl⟩
  | interrupt order frontend unbegun same =>
    exact streaming.kept rfl rfl rfl rfl rfl (fun _ => id) fun writer member => ⟨writer,member,rfl⟩
  | route order request event found routed =>
    have silent := (routed_drawn traced.laid (traced.sent request (List.mem_of_getElem? found)) routed).2
    exact streaming.noted silent rfl rfl rfl rfl rfl rfl rfl rfl
  | execute os event events exec found handled => exact streaming.executed traced found handled
  | write child stream data alive some => exact streaming.put fun pipe ended => ended.children child alive stream
  | consume child size pipe alive reads => exact streaming.consume size alive reads
  | consumeFile child size => exact streaming
  | exit child exitCode alive =>
    exact streaming.kept rfl rfl rfl rfl rfl (fun _ => List.mem_of_mem_erase) fun writer member => ⟨writer,member,rfl⟩
  | report exited waits => exact streaming.noted rfl rfl rfl rfl rfl rfl rfl rfl rfl
  | pour writer size listed some enough =>
    have poured : Streaming (world.put writer.1 (writer.2.take size)) :=
      streaming.put fun pipe ended => ended.writers writer listed
    obtain ⟨_,_,shape⟩ := world.put_shape writer.1 (writer.2.take size)
    have still : (world.put writer.1 (writer.2.take size)).writers = world.writers := by rw [shape]
    refine poured.kept rfl rfl rfl rfl rfl (fun _ => id) ?_
    intro other member
    rw [still]
    rcases List.mem_cons.mp member with rfl | old
    · exact ⟨writer,listed,rfl⟩
    · exact ⟨other,List.mem_of_mem_erase old,rfl⟩
  | close writer listed =>
    refine streaming.kept rfl rfl rfl rfl rfl (fun _ => id) ?_
    exact fun other member => ⟨other,List.mem_of_mem_erase member,rfl⟩
  | forward reader size pipe listed reads some enough =>
    obtain rfl := (traced.readers reader listed).2 pipe reads
    exact streaming.forward listed
  | eof reader pipe listed reads empty closed =>
    obtain rfl := (traced.readers reader listed).2 pipe reads
    exact streaming.eof traced listed empty closed

end Streaming

/-- What is gathered is all that was told so far of a pipe that goes on, and what is finished
all that was ever told. -/
structure Gathers (world : World) : Prop where
  gathering : ∀ pipe output, world.frontend.handler.gatheringOutput.lookup pipe = some output →
    output = carried pipe world.handled ∧ ∀ envelope ∈ world.handled, ¬envelope.Closes pipe
  finished : ∀ pipe output, world.frontend.handler.finishedOutput.lookup pipe = some output →
    output = carried pipe world.handled ∧ ∃ envelope ∈ world.handled, envelope.Closes pipe

theorem prompt_spares {getCommand : String → Outcome (Except Error Plan)}
    (ok : world.next (.prompt getCommand) = .ok after) : Shell.Spares world.frontend after.frontend := by
  obtain ⟨_,at?,rest⟩ := Outcome.bind_ok.mp ok
  obtain ⟨⟨turn,_⟩,turned,last⟩ := Outcome.bind_ok.mp rest
  obtain ⟨frontend,taken,rfl⟩ := turn_ok turned
  rw [turn_prompt ((Outcome.assert_ok _ _).mp at?)] at taken
  have spares := Shell.readLine_spares taken
  cases turn with
  | begun line =>
    obtain rfl := Except.ok.inj last
    exact spares
  | handled => cases last
  | closed => cases last

theorem receive_receipt {terminal : Terminal} {response : RemoteResponse}
    (found : world.output[world.received]? = some response) (ok : world.next (.receive terminal) = .ok after) :
    Receipt world.frontend ⟨0,response⟩ after.frontend := by
  obtain ⟨_,waits,rest⟩ := Outcome.bind_ok.mp ok
  obtain ⟨other,found',rest⟩ := Outcome.bind_ok.mp rest
  obtain ⟨⟨turn,_⟩,turned,last⟩ := Outcome.bind_ok.mp rest
  obtain ⟨frontend,taken,rfl⟩ := turn_ok turned
  obtain rfl := Except.ok.inj last
  obtain rfl := Option.some.inj (((Outcome.unwrap_ok _ _).mp found').symm.trans found)
  have received := turn_receive ((Outcome.assert_ok _ _).mp waits) rfl taken
  obtain ⟨_,_,handled,last⟩ := Library.Action.bind_ok.mp received
  obtain ⟨_,rfl⟩ := Library.Action.pure_ok.mp last
  exact Nak.receive_receipt handled

namespace Gathers

theorem start : Gathers (new info) where
  gathering := by
    intro pipe output found
    cases found
  finished := by
    intro pipe output found
    cases found

private theorem kept (gathers : Gathers world)
    (gathering : after.frontend.handler.gatheringOutput = world.frontend.handler.gatheringOutput)
    (finished : after.frontend.handler.finishedOutput = world.frontend.handler.finishedOutput)
    (handled : after.handled = world.handled) : Gathers after where
  gathering := by
    rw [gathering,handled]
    exact gathers.gathering
  finished := by
    rw [finished,handled]
    exact gathers.finished

private theorem heard (gathers : Gathers world) {envelope : PipeEnvelope}
    (handled : after.handled = world.handled ++ [envelope])
    (others : ∀ pipe, envelope.id ≠ pipe.val → after.frontend.handler.gatheringOutput.lookup pipe =
        world.frontend.handler.gatheringOutput.lookup pipe ∧
      after.frontend.handler.finishedOutput.lookup pipe = world.frontend.handler.finishedOutput.lookup pipe)
    (gathering : ∀ output, after.frontend.handler.gatheringOutput.lookup ⟨envelope.id⟩ = some output →
      output = carried ⟨envelope.id⟩ after.handled ∧ ∀ other ∈ after.handled, ¬other.Closes ⟨envelope.id⟩)
    (finished : ∀ output, after.frontend.handler.finishedOutput.lookup ⟨envelope.id⟩ = some output →
      output = carried ⟨envelope.id⟩ after.handled ∧ ∃ other ∈ after.handled, other.Closes ⟨envelope.id⟩) :
    Gathers after where
  gathering := by
    intro pipe output found
    by_cases about : envelope.id = pipe.val
    · obtain ⟨number⟩ := pipe
      obtain rfl : envelope.id = number := about
      exact gathering output found
    · obtain ⟨same,going⟩ := gathers.gathering pipe output ((others pipe about).1 ▸ found)
      rw [handled,carried_snoc about]
      refine ⟨same,?_⟩
      intro other member
      rcases List.mem_append.mp member with old | new
      · exact going other old
      · exact fun closes => about (List.mem_singleton.mp new ▸ closes.1)
  finished := by
    intro pipe output found
    by_cases about : envelope.id = pipe.val
    · obtain ⟨number⟩ := pipe
      obtain rfl : envelope.id = number := about
      exact finished output found
    · obtain ⟨same,closing,member,closes⟩ := gathers.finished pipe output ((others pipe about).2 ▸ found)
      rw [handled,carried_snoc about]
      exact ⟨same,closing,List.mem_append_left _ member,closes⟩

/-- The pipe a new line gathers has an id that no message can have mentioned. -/
private theorem begins (gathers : Gathers world) (traced : Traced world) {line : Line}
    {frontend : Endpoint StackedRemotes} (begins : Shell.Begins line world.frontend frontend)
    (spares : Shell.Spares world.frontend frontend) :
    Gathers { world with frontend, lines := world.lines ++ [line] } where
  gathering := by
    intro pipe output found
    change frontend.handler.gatheringOutput.lookup pipe = some output at found
    rw [begins.gatheringOutput] at found
    split at found
    · rename_i same
      subst same
      obtain rfl := Option.some.inj found
      have drawn := begins.sound.draws Line.draws_cwd
      have unheard : ∀ envelope ∈ world.handled, envelope.id ≠ line.cwd.val := by
        intro envelope member about
        obtain ⟨rest,whole⟩ := world.handled_prefix
        have below := traced.envelopes envelope (whole ▸ List.mem_append_left _ member)
        exact absurd (about ▸ below) (not_lt.mpr drawn.1)
      exact ⟨(carried_unheard unheard).symm,fun envelope member closes => unheard envelope member closes.1⟩
    · exact gathers.gathering pipe output found
  finished pipe output found := gathers.finished pipe output (spares pipe output found)

private theorem receives (gathers : Gathers world) (going : Guarded Going world.envelopes) {response : RemoteResponse}
    {frontend : Endpoint StackedRemotes} (found : world.output[world.received]? = some response)
    (receipt : Receipt world.frontend ⟨0,response⟩ frontend) :
    Gathers { world with frontend, received := world.received + 1 } := by
  have handled : ({ world with frontend, received := world.received + 1 } : World).handled =
      world.handled ++ response.envelope?.toList := handled_receive found rfl rfl
  obtain ⟨rest,whole⟩ := handled_prefix { world with frontend, received := world.received + 1 }
  change world.envelopes = _ at whole
  rw [whole,handled] at going
  have open' := going.left
  have apart {id : Nat} {other : GenericPipe} (different : id ≠ other.val) : other ≠ ⟨id⟩ := by
    intro same
    exact different (congrArg GenericPipe.val same).symm
  cases receipt with
  | ready => exact gathers.kept rfl rfl (handled.trans (List.append_nil _))
  | done => exact gathers.kept rfl rfl (handled.trans (List.append_nil _))
  | edited => exact gathers.kept rfl rfl (handled.trans (List.append_nil _))
  | gathered remoteId id data endOffset out known present =>
    obtain ⟨same,goes⟩ := gathers.gathering ⟨id⟩ out present
    refine gathers.heard handled ?_ ?_ ?_
    · exact fun other different => ⟨Finmap.lookup_insert_of_ne _ (apart different),rfl⟩
    · intro output found
      obtain rfl := Option.some.inj ((Finmap.lookup_insert _).symm.trans found)
      rw [handled]
      refine ⟨?_,?_⟩
      · rw [carried_append,same]
        exact congrArg _ ((@carried_data ⟨id⟩ ⟨id⟩ data endOffset).trans (if_pos rfl)).symm
      · intro other member closes
        rcases List.mem_append.mp member with old | new
        · exact goes other old closes
        · obtain ⟨_,_,shape⟩ := closes
          rw [List.mem_singleton.mp new] at shape
          cases shape
    · intro output found
      obtain ⟨_,closing,member,closes⟩ := gathers.finished ⟨id⟩ output found
      exact absurd closes (goes closing member)
  | shown remoteId id data endOffset stream known absent =>
    refine gathers.heard handled (fun _ _ => ⟨rfl,rfl⟩) ?_ ?_
    · intro output found
      cases absent.symm.trans found
    · intro output found
      obtain ⟨_,closing,member,closes⟩ := gathers.finished ⟨id⟩ output found
      exact absurd closes (open' world.handled _ [] rfl closing member)
  | finished remoteId id endOffset out known present =>
    obtain ⟨same,_⟩ := gathers.gathering ⟨id⟩ out present
    refine gathers.heard handled ?_ ?_ ?_
    · exact fun other different => ⟨Finmap.lookup_erase_ne (apart different),
        Finmap.lookup_insert_of_ne _ (apart different)⟩
    · intro output found
      cases (Finmap.lookup_erase _ _).symm.trans found
    · intro output found
      obtain rfl := Option.some.inj ((Finmap.lookup_insert _).symm.trans found)
      rw [handled]
      refine ⟨?_,_,List.mem_append_right _ (List.mem_singleton.mpr rfl),rfl,endOffset,rfl⟩
      rw [carried_append,same]
      exact (List.append_nil _).symm
  | closed remoteId id endOffset known absent =>
    refine gathers.heard handled (fun _ _ => ⟨rfl,rfl⟩) ?_ ?_
    · intro output found
      cases absent.symm.trans found
    · intro output found
      obtain ⟨_,closing,member,closes⟩ := gathers.finished ⟨id⟩ output found
      exact absurd closes (open' world.handled _ [] rfl closing member)

theorem moves (gathers : Gathers world) (traced : Traced world) (relayed : Relayed world) (streaming : Streaming world)
    (ok : world.next move = .ok after) : Gathers after := by
  have moved := next_moves ok
  have kept (frontend : after.frontend = world.frontend) (received : after.received = world.received)
      (more : List RemoteResponse) (output : after.output = world.output ++ more) : Gathers after :=
    gathers.kept (by rw [frontend]) (by rw [frontend]) (handled_grows world relayed.received output received)
  cases moved with
  | prompt getCommand line frontend begins => exact gathers.begins traced begins (prompt_spares ok)
  | receive terminal response frontend found receives =>
    exact gathers.receives streaming.going found (receive_receipt found ok)
  | interrupt order frontend unbegun same =>
    exact gathers.kept (congrArg StackedRemotes.gatheringOutput same) (congrArg StackedRemotes.finishedOutput same) rfl
  | execute os event events exec found handled =>
    have handled := ExecInternal.handle_handled traced.inv traced.named handled
    exact kept rfl rfl _ (output_grows rfl handled.appended)
  | write child stream data alive some =>
    obtain ⟨written,unsent,shape⟩ := world.put_shape (outputOf child stream) data
    rw [shape] at kept ⊢
    exact kept rfl rfl [] (List.append_nil _).symm
  | pour writer size listed some enough =>
    obtain ⟨written,unsent,shape⟩ := world.put_shape writer.1 (writer.2.take size)
    rw [shape] at kept ⊢
    exact kept rfl rfl [] (List.append_nil _).symm
  | _ => exact kept rfl rfl [] (List.append_nil _).symm

end Gathers

theorem carried_closed {closing : PipeEnvelope} {late : List PipeEnvelope} (closes : closing.Closes pipe)
    (mute : ∀ envelope ∈ late, envelope.id ≠ pipe.val) : carried pipe (closing :: late) = [] := by
  obtain ⟨_,endOffset,shape⟩ := closes
  change closing.dataFor pipe ++ carried pipe late = []
  rw [carried_unheard mute,List.append_nil,PipeEnvelope.dataFor,shape]

namespace Streaming

theorem prefixed (streaming : Streaming world) (pipe : GenericPipe) :
    carried pipe world.handled <+: world.written pipe := by
  obtain ⟨rest,whole⟩ := world.handled_prefix
  by_cases begun : world.ReadBegun pipe
  · rw [streaming.conserved pipe (Or.inr begun),whole,carried_append,List.append_assoc]
    exact List.prefix_append _ _
  · have unheard : ∀ envelope ∈ world.handled, envelope.id ≠ pipe.val := by
      intro envelope member about
      have told := streaming.told envelope (whole ▸ List.mem_append_left _ member)
      rw [about] at told
      exact begun told
    rw [carried_unheard unheard]
    exact List.nil_prefix

theorem complete (streaming : Streaming world) {early late : List PipeEnvelope} {closing : PipeEnvelope}
    (split : world.handled = early ++ closing :: late) (closes : closing.Closes pipe) :
    carried pipe early = world.written pipe ∧ ∀ envelope ∈ late, envelope.id ≠ pipe.val := by
  obtain ⟨rest,whole⟩ := world.handled_prefix
  rw [split,List.append_assoc,List.cons_append] at whole
  have mute : ∀ envelope ∈ late ++ rest, envelope.id ≠ pipe.val := by
    intro envelope member about
    obtain ⟨before,after,shape⟩ := List.append_of_mem member
    have going := streaming.going (early ++ closing :: before) envelope after (by rw [whole,shape]; simp)
    refine going closing (by simp) ?_
    rw [about]
    exact closes
  have listed : closing ∈ world.envelopes := whole ▸ List.mem_append_right _ (List.mem_cons_self ..)
  have begun := streaming.told closing listed
  rw [closes.1] at begun
  refine ⟨?_,fun envelope member => mute envelope (List.mem_append_left _ member)⟩
  rw [streaming.conserved pipe (Or.inr begun),whole,carried_append,carried_closed closes mute,
    (streaming.ended closing listed pipe closes).empty,List.append_nil,List.append_nil]

end Streaming

/-- In every session, whatever the order of its moves, the frontend handles the bytes of a
pipe in order and once each, and all of them before the end of the pipe. -/
theorem pipes_intact (reachable : (system info).Reachable world) (pipe : GenericPipe) : world.Intact pipe := by
  have all : Traced world ∧ Relayed world ∧ Streaming world ∧ Gathers world := by
    refine reachable.invariant (fun world => Traced world ∧ Relayed world ∧ Streaming world ∧ Gathers world) ?_ ?_
    · intro _ same
      obtain rfl := same
      exact ⟨.start,.start,.start,.start⟩
    · intro world move after given taken
      obtain ⟨traced,relayed,streaming,gathers⟩ := given
      have moves := next_moves taken
      exact ⟨traced.moves moves,relayed.moves traced moves,streaming.moves traced moves,
        gathers.moves traced relayed streaming taken⟩
  obtain ⟨_,_,streaming,gathers⟩ := all
  refine ⟨streaming.prefixed pipe,fun _ _ _ => streaming.complete,?_,?_⟩
  · exact fun output found => (gathers.gathering pipe output found).1
  · intro output found
    obtain ⟨rfl,closing,member,closes⟩ := gathers.finished pipe output found
    obtain ⟨early,late,split⟩ := List.append_of_mem member
    obtain ⟨complete,mute⟩ := streaming.complete split closes
    rw [split,carried_append,carried_closed closes mute,List.append_nil,complete]

private def nothing : Plan := ⟨[],none,0,0,[]⟩

private def directoryReader : GenericPipe × InputPipe := (⟨0⟩,.fromPipe 0 ⟨0⟩)

private def pieces : List Move :=
  [.receive .working,.prompt fun _ => .ok (.ok nothing)] ++ List.replicate 3 (.route ∅) ++
  List.replicate 3 (.execute .working) ++ [.pour (.fromPipe 0 ⟨0⟩,bytes "/\n") 1,.forward directoryReader 1,
    .pour (.fromPipe 0 ⟨0⟩,[10]) 1,.close (.fromPipe 0 ⟨0⟩,[]),.forward directoryReader 1,.eof directoryReader] ++
  List.replicate 3 (.execute .working) ++ List.replicate 4 (.receive .working)

theorem pipes_intact_pieces : ∃ world, (system ⟨"localhost","nak","/"⟩).Reachable world ∧
    world.frontend.handler.finishedOutput.lookup ⟨0⟩ = some (bytes "/\n") ∧ world.handled.length = 3 ∧
    world.Intact ⟨0⟩ := by
  obtain ⟨world,run,finished,handled⟩ := System.ends_run (new ⟨"localhost","nak","/"⟩) next (fun _ _ => True)
    (fun world => world.frontend.handler.finishedOutput.lookup ⟨0⟩ = some (bytes "/\n") ∧ world.handled.length = 3)
    (show System.ends (new ⟨"localhost","nak","/"⟩) next _ _ pieces = true by decide +kernel)
  exact ⟨world,run.unrestricted.reachable,finished,handled,pipes_intact run.unrestricted.reachable ⟨0⟩⟩

end World
end Nak
