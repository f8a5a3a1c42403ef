import Nak.MachineProgress
import Nak.WorldWaits

/-! While the frontend waits, the system has a step to make by itself. What the frontend waits
for is somewhere, and wherever it is some part of the system can take it on, unless it is with
a child that stays. -/
namespace Nak
open Library Session

def Move.traffic : Move → Bool
  | .write _ _ _ => true
  | .consume _ _ => true
  | _ => false

/-- Neither the user makes the move nor a child, unless it is its last one. -/
def Move.own : Move → Bool
  | .prompt _ => false
  | .interrupt _ => false
  | .write _ _ _ => false
  | .consume _ _ => false
  | _ => true

theorem Machine.unfinished_ready {Id Cmd State : Type} [DecidableEq Id] {machine : Machine Id Cmd State}
    (reachable : system.Reachable machine) {pid : Id} (unfinished : machine.Unfinished pid) :
    ∃ other, machine.ReadyOrRunning other := by
  have inv := reachable_inv reachable
  obtain ⟨rank,ranked⟩ := reachable_ranked reachable
  rcases unfinished with toRun | running | waits
  · exact ⟨pid,Or.inl toRun⟩
  · exact ⟨pid,Or.inr running⟩
  · have leads : Leads machine.WaitsFor machine.ReadyOrRunning pid := by
      refine ranked.leads (fun pid => inv.waits_for_some) (fun pid other waits => ?_) pid waits
      rcases inv.waits_for_unfinished waits with toRun | running | waiting
      · exact Or.inr (Or.inl toRun)
      · exact Or.inr (Or.inr running)
      · exact Or.inl waiting
    obtain ⟨other,_,ready⟩ := leads.reaches
    exact ⟨other,ready⟩

theorem Posed.begun {lines : List Line} {hi : Nat} {request : Request} {pid : ProcessId} {cmd : RunCmd}
    (posed : Posed lines hi request) (begun : request.message.command? = some (pid,cmd)) : Begun lines pid cmd := by
  rcases posed with (⟨id,same⟩ | ⟨editId,data,same⟩) | ⟨line,listed,lo,hi',bound,sends⟩
  · rw [same] at begun
    cases begun
  · rw [same] at begun
    cases begun
  · generalize request.message = message at sends begun
    cases sends with
    | job blockFor job member blocks =>
      obtain ⟨rfl,rfl⟩ := Prod.mk.inj (Option.some.inj begun)
      exact ⟨line,listed,job,member,rfl,rfl⟩
    | _ => cases begun

namespace World
variable {world after : World} {move : Move} {info : RemoteInfo} {trace : List Move} {stays : Process → Prop}

/-- A step of the system by itself, where some children never exit. -/
def Proceeds (stays : Process → Prop) (world after : World) : Prop :=
  ∃ move : Move, move.own = true ∧ (∀ child exitCode, move = .exit child exitCode → ¬stays child) ∧
    world.Smooth move ∧ world.next move = .ok after

theorem expected_routes {message : RemoteRequest} (expected : Shell.Expected message) :
    ∃ order event, routeRequest order message = .ok event := by
  cases message with
  | beginCommand blockFor process command =>
    have routed : routeRequest blockFor (.beginCommand blockFor process command) = .ok
        (.enqueue process.id ⟨command,⟨process.stdin⟩,⟨process.stdout⟩,⟨process.stderr⟩⟩ blockFor) :=
      Outcome.bind_ok.mpr ⟨(),(Outcome.assert_ok _ _).mpr (.refl _),rfl⟩
    exact ⟨blockFor,_,routed⟩
  | openOutputFile => exact ⟨∅,_,rfl⟩
  | finishEdit => exact ⟨∅,_,rfl⟩
  | pipe => exact ⟨∅,_,rfl⟩
  | _ => exact expected.elim

namespace Steady
variable (steady : Steady world)
include steady

theorem receives (waits : ¬world.AtPrompt) (unread : world.received < world.output.length) :
    ∃ after, world.Proceeds stays after := by
  have coherent := steady.kept.coherent
  have found := List.getElem?_eq_getElem unread
  have jobs (pid : ProcessId) (editId : Nat) (name : String) (data : Bytes)
      (edit : world.output[world.received] = .editRequest pid editId name data) : pid ∈ world.frontend.jobs := by
    have answers := World.answers coherent.ledger coherent.streaming found
    rw [edit] at answers
    exact steady.listed.jobs pid (steady.receptive.counted pid answers)
  obtain ⟨after,ok⟩ := coherent.receives steady.receptive waits found jobs (Terminal.works_working _)
  exact ⟨after,.receive _,rfl,nofun,trivial,ok⟩

theorem routes (unrouted : world.routed < world.frontend.sent.length) : ∃ after, world.Proceeds stays after := by
  obtain ⟨root,expected⟩ := steady.serving.addressed _ (List.getElem_mem unrouted)
  obtain ⟨order,event,routed⟩ := expected_routes expected
  refine ⟨{ world with routed := world.routed + 1, events := world.events ++ [event] },.route order,rfl,nofun,
    trivial,?_⟩
  refine Outcome.bind_ok.mpr ⟨_,(Outcome.unwrap_ok _ _).mpr (List.getElem?_eq_getElem unrouted),?_⟩
  refine Outcome.bind_ok.mpr ⟨(),(Outcome.assert_ok _ _).mpr root,?_⟩
  exact Outcome.bind_ok.mpr ⟨event,routed,rfl⟩

theorem handles (waits : world.events ≠ []) : ∃ after, world.Proceeds stays after := by
  obtain ⟨after,ok⟩ := steady.serving.executes steady.kept waits ExecInternal.works_working
  exact ⟨after,.execute .working,rfl,nofun,ExecInternal.works_working,ok⟩

theorem forwards {reader : GenericPipe × InputPipe} (listed : reader ∈ world.readers)
    (busy : ¬(world.WriteOpen reader.1 ∧ world.unsent reader.1 = [])) : ∃ after, world.Proceeds stays after := by
  have reads := steady.serving.readers reader listed
  by_cases empty : world.unsent reader.1 = []
  · have closed : ¬world.WriteOpen reader.1 := fun opened => busy ⟨opened,empty⟩
    refine ⟨{ world with readers := world.readers.erase reader, events := world.events ++ [.pipeClosed reader.1 0] },
      .eof reader,rfl,nofun,trivial,?_⟩
    refine Outcome.bind_ok.mpr ⟨_,(Outcome.unwrap_ok _ _).mpr reads,?_⟩
    exact Outcome.bind_ok.mpr ⟨(),(Outcome.assert_ok _ _).mpr ⟨listed,empty,closed⟩,rfl⟩
  · have some := List.length_pos_iff.mpr empty
    refine ⟨{ world.dropUnsent reader.1 1 with
      events := world.events ++ [.pipeOutput reader.1 ((world.unsent reader.1).take 1) 0] },.forward reader 1,rfl,
        nofun,trivial,?_⟩
    refine Outcome.bind_ok.mpr ⟨_,(Outcome.unwrap_ok _ _).mpr reads,?_⟩
    exact Outcome.bind_ok.mpr ⟨(),(Outcome.assert_ok _ _).mpr ⟨listed,by omega,by omega,some⟩,rfl⟩

end Steady

theorem exits {child : Process} (alive : child ∈ world.children) (leaves : ¬stays child) :
    ∃ after, world.Proceeds stays after :=
  ⟨_,.exit child 0,rfl,fun _ _ same => (Move.exit.inj same).1 ▸ leaves,trivial,
    Outcome.bind_ok.mpr ⟨(),(Outcome.assert_ok _ _).mpr alive,rfl⟩⟩

theorem reports {exited : ProcessId × Int} (waits : exited ∈ world.exited) : ∃ after, world.Proceeds stays after :=
  ⟨_,.report exited,rfl,nofun,trivial,Outcome.bind_ok.mpr ⟨(),(Outcome.assert_ok _ _).mpr waits,rfl⟩⟩

theorem pours {writer : OutputPipe × Bytes} (listed : writer ∈ world.writers) :
    ∃ after, world.Proceeds stays after := by
  by_cases empty : writer.2 = []
  · exact ⟨_,.close writer,rfl,nofun,trivial,Outcome.bind_ok.mpr ⟨(),(Outcome.assert_ok _ _).mpr ⟨listed,empty⟩,rfl⟩⟩
  · have some := List.length_pos_iff.mpr empty
    exact ⟨_,.pour writer 1,rfl,nofun,trivial,
      Outcome.bind_ok.mpr ⟨(),(Outcome.assert_ok _ _).mpr ⟨listed,by omega,some⟩,rfl⟩⟩

/-- Nothing is on its way, and only children that stay are left. -/
structure Still (stays : Process → Prop) (world : World) : Prop where
  received : world.output.length ≤ world.received
  routed : world.frontend.sent.length ≤ world.routed
  events : world.events = []
  children : ∀ child ∈ world.children, stays child
  exited : world.exited = []
  writers : world.writers = []
  readers : ∀ reader ∈ world.readers, world.WriteOpen reader.1 ∧ world.unsent reader.1 = []

theorem Steady.still (steady : Steady world) (waits : ¬world.AtPrompt) (stuck : ¬∃ after, world.Proceeds stays after) :
    Still stays world where
  received := not_lt.mp fun unread => stuck (steady.receives waits unread)
  routed := not_lt.mp fun unrouted => stuck (steady.routes unrouted)
  events := by_contra fun some => stuck (steady.handles some)
  children _ alive := by_contra fun leaves => stuck (exits alive leaves)
  exited := List.eq_nil_iff_forall_not_mem.mpr fun _ waits => stuck (reports waits)
  writers := List.eq_nil_iff_forall_not_mem.mpr fun _ listed => stuck (pours listed)
  readers _ listed := by_contra fun busy => stuck (steady.forwards listed busy)

theorem Steady.stuck (steady : Steady world) (still : Still stays world) : ¬∃ after, world.Proceeds stays after := by
  rintro ⟨after,move,own,leaves,_,ok⟩
  have moved := next_moves ok
  cases moved with
  | prompt | interrupt | write | consume | consumeFile => cases own
  | receive terminal response frontend found =>
    exact absurd (List.getElem?_eq_some_iff.mp found).1 (Nat.not_lt.mpr still.received)
  | route order request event found =>
    exact absurd (List.getElem?_eq_some_iff.mp found).1 (Nat.not_lt.mpr still.routed)
  | execute os event events exec found =>
    rw [still.events] at found
    cases found
  | exit child exitCode alive => exact leaves child exitCode rfl (still.children child alive)
  | report exited waits =>
    rw [still.exited] at waits
    cases waits
  | pour writer size listed =>
    rw [still.writers] at listed
    cases listed
  | close writer listed =>
    rw [still.writers] at listed
    cases listed
  | forward reader size pipe listed reads some enough =>
    obtain rfl : pipe = reader.1 := Option.some.inj (reads.symm.trans (steady.serving.readers reader listed))
    rw [(still.readers reader listed).2] at enough
    exact absurd some (Nat.not_lt.mpr enough)
  | eof reader pipe listed reads empty closed =>
    obtain rfl : pipe = reader.1 := Option.some.inj (reads.symm.trans (steady.serving.readers reader listed))
    exact closed (still.readers reader listed).1

namespace Still
variable (still : Still stays world) (steady : Steady world)
include still

theorem unrouted : world.unrouted = [] := List.drop_eq_nil_of_le still.routed

theorem received_all : world.session.received = world.output := List.take_of_length_le still.received

variable (none : world.children = [])
include steady none

theorem idle (pid : ProcessId) : ¬world.exec.machine.Unfinished pid := by
  intro unfinished
  have drained := ExecInternal.reachable_drained steady.executes
  obtain ⟨other,toRun | running⟩ := Machine.unfinished_ready drained.1 unfinished
  · rw [drained.2] at toRun
    exact Finset.notMem_empty _ toRun
  · obtain ⟨state,found⟩ := Finmap.mem_iff.mp running
    cases state with
    | running handle =>
      have account := steady.kept.accounted.outstanding other
      rw [ExecInternal.active,found,outstanding,none,still.exited,still.events] at account
      exact absurd account (by simp [ExecInternal.childrenOf])
    | awaitingEdit =>
      obtain ⟨editId,⟨path,waits⟩,_⟩ := steady.kept.edits.awaited other found
      have share := steady.kept.editing.share editId
      rw [editShare,still.unrouted,still.events,unreceived,List.drop_eq_nil_of_le still.received,ExecInternal.awaited,
        if_pos (FiniteMap.mem_of_lookup waits)] at share
      exact absurd share (by simp [askedEdits,answeredEdits])

theorem reported {pid : ProcessId} (begun : pid ∈ jobIds world.lines) : pid ∈ reportedCommands world.output := by
  have share := steady.kept.coherent.ledger.commandShare pid
  rw [commandShare,still.unrouted,still.events,Machine.owed,if_neg (still.idle steady none pid)] at share
  have some : 0 < (jobIds world.lines).count pid := List.count_pos_iff.mpr begun
  refine List.count_pos_iff.mp ?_
  simp only [begunCommands,List.filterMap_nil,List.count_nil,List.countP_nil] at share
  omega

theorem cwd_taken {line : Line} (listed : line ∈ world.lines) : ExecInternal.Taken world.exec.openHandles line.cwd := by
  have coherent := steady.kept.coherent
  obtain ⟨seen,coming,split,queued,owned⟩ := steady.serving.seen
  rw [still.events] at queued
  obtain rfl : coming = [] := List.forall₂_nil_right_iff.mp queued
  rw [List.take_of_length_le still.routed,List.append_nil] at split
  have member : line.directory.id ∈ jobIds world.lines :=
    List.mem_flatMap.mpr ⟨line,listed,List.mem_map_of_mem Line.directory_mem⟩
  have begun : line.directory.id ∈ begunCommands seen := by
    rw [← split,coherent.ledger.commands]
    exact member
  obtain ⟨cmd,commanded⟩ := mem_begun.mp begun
  obtain ⟨request,asked,same⟩ := id commanded
  obtain ⟨other,listed',job,inside,drawn,rfl⟩ :=
    Posed.begun (coherent.traced.sent request (by rw [split]; exact asked)) same
  obtain ⟨rfl,rfl⟩ := coherent.traced.laid.directory listed listed' inside drawn
  have ran : world.exec.machine.HasRun other.directory.id := by
    rcases (owned.known _).mpr ⟨_,commanded⟩ with finished | unfinished
    · exact Or.inr finished
    · exact absurd unfinished (still.idle steady none _)
  rcases owned.handed _ _ commanded ran with ⟨path,edit⟩ | hands
  · exact absurd (edit.symm.trans (steady.listed.directories other listed)) nofun
  · exact hands _ (Or.inl rfl)

theorem closed {line : Line} (listed : line ∈ world.lines) : line.cwd ∈ closedReads world.output := by
  by_contra reading
  have share := steady.kept.coherent.ledger.readShare line.cwd
  have absent : (closings world.envelopes).count line.cwd = 0 := by
    rw [envelopes,still.events,List.filterMap_nil,List.append_nil,← closedReads_envelopes]
    exact List.count_eq_zero.mpr reading
  have some : 0 < (readPipes world.lines).count line.cwd :=
    List.count_pos_iff.mpr (List.mem_flatMap.mpr ⟨line,listed,List.mem_cons_self ..⟩)
  rw [readShare,still.unrouted,still.events,absent] at share
  have reads : 0 < (world.readers.map Prod.fst).count line.cwd := by
    simp only [begunReads,List.filterMap_nil,List.count_nil,List.countP_nil] at share
    omega
  obtain ⟨reader,started,same⟩ := List.mem_map.mp (List.count_pos_iff.mp reads)
  have opened := (still.readers reader started).1
  obtain ⟨end',taken⟩ := still.cwd_taken steady none listed
  rw [same,WriteOpen,taken,none,still.writers] at opened
  exact absurd opened (by simp)

/-- Nothing stands still but the prompt. -/
theorem prompt : world.AtPrompt where
  remote := by
    rw [steady.attentive.remote,still.received_all]
    exact List.cons_ne_nil _ _
  processes := by
    refine Finset.eq_empty_of_forall_notMem fun pid waits => ?_
    obtain ⟨begun,unreported⟩ := (steady.attentive.processes pid).mp waits
    rw [still.received_all] at unreported
    exact unreported (still.reported steady none begun)
  eofs := by
    refine Finset.eq_empty_of_forall_notMem fun pipe waits => ?_
    obtain ⟨⟨line,listed,rfl⟩,reading⟩ := (steady.attentive.eofs pipe).mp waits
    rw [still.received_all] at reading
    exact reading (still.closed steady none listed)

end Still

/-- Nothing but children that stay could go on. -/
structure Hangs (stays : Process → Prop) (world : World) : Prop where
  still : Still stays world
  children : world.children ≠ []

/-- While the frontend waits there is a step to make, unless children that stay are all it waits for. -/
theorem Steady.proceeds (steady : Steady world) (waits : ¬world.AtPrompt) (hangs : ¬Hangs stays world) :
    ∃ after, world.Proceeds stays after := by
  by_contra stuck
  have still := steady.still waits stuck
  by_cases none : world.children = []
  · exact waits (still.prompt steady none)
  · exact hangs ⟨still,none⟩

end World
end Nak
