import Nak.Waiters
import Nak.ExecEdits

/-! The event loop with its queue and its waiter threads. Every running command has one
source of its completion: the thread that waits for its child, the report that thread has
left in the queue, or the edit that the frontend has yet to answer. -/
namespace Nak
open Library

def ExecEvent.reports (pid : ProcessId) : ExecEvent → Bool
  | .completed other _ => other = pid
  | _ => false

namespace ExecInternal
variable {exec : ExecInternal} {event : ExecEvent} {pid : ProcessId}

theorem active_le_one (machine : Machine ProcessId RunCmd ProcessState) (pid : ProcessId) : active machine pid ≤ 1 := by
  unfold active
  cases machine.running.lookup pid with
  | none => exact Nat.zero_le 1
  | some state => cases state <;> simp [childrenOf]

theorem active_finished {machine : Machine ProcessId RunCmd ProcessState} (inv : Machine.Inv machine)
    (finished : pid ∈ machine.finished) : active machine pid = 0 := by
  have absent : pid ∉ machine.running := fun running => inv.finished_apart pid finished (Or.inr (Or.inl running))
  rw [active,Finmap.lookup_eq_none.mpr absent]
  rfl

theorem Completes.active_le (completes : Completes exec event pid) (inv : Machine.Inv exec.machine)
    (edited : Edited exec) : active exec.machine pid ≤ if event.reports pid then 1 else 0 := by
  cases event with
  | completed other exitCode =>
    have same : other = pid := completes
    simpa [ExecEvent.reports,same] using active_le_one exec.machine pid
  | editComplete editId data =>
    obtain ⟨path,found⟩ := completes
    rcases edited editId (pid,path) found with finished | running
    · exact (active_finished inv finished).le
    · rw [active,running]
      exact Nat.zero_le _
  | _ => exact completes.elim

theorem reports_completes (incomplete : ¬Completes exec event pid) : event.reports pid = false := by
  cases event with
  | completed other exitCode =>
    have different : other ≠ pid := incomplete
    simp [ExecEvent.reports,different]
  | _ => rfl

theorem spawned_append (pid : ProcessId) (effects more : List Effect) :
    spawned pid (effects ++ more) = spawned pid effects + spawned pid more := List.countP_append

theorem active_eq_one (machine : Machine ProcessId RunCmd ProcessState) (pid : ProcessId) :
    active machine pid = 1 ↔ ∃ child, machine.running.lookup pid = some (.running child) := by
  unfold active
  cases machine.running.lookup pid with
  | none => simp
  | some state => cases state <;> simp [childrenOf]

/-- What is outstanding for a pid stays what is active of it. -/
theorem Handled.balance {next : ExecInternal} {before after : Nat} (handled : Handled exec event next)
    (inv : Machine.Inv exec.machine) (edited : Edited exec) (balanced : before = active exec.machine pid)
    (least : (if event.reports pid then 1 else 0) ≤ before)
    (counted : after + (if event.reports pid then 1 else 0) =
      before + spawned pid (next.effects.drop exec.effects.length)) : after = active next.machine pid := by
  have whole := congrArg (spawned pid) handled.appended
  rw [spawned_append] at whole
  by_cases completes : Completes exec event pid
  · have children := handled.completed pid completes
    have most := completes.active_le inv edited
    omega
  · have children := handled.uncompleted pid completes
    rw [reports_completes completes,if_neg Bool.false_ne_true] at counted
    omega

end ExecInternal

/-- `waiters` holds the pid of every thread that waits for a child and has not sent yet. -/
structure EventLoop where
  exec : ExecInternal
  events : List ExecEvent
  waiters : List ProcessId

/-- A thread queues an event, a waiter thread sends its report, or an event is handled. -/
inductive Tick where
  | push (event : ExecEvent)
  | exit (pid : ProcessId) (exitCode : Int)
  | handle (os : Os)

namespace EventLoop

def new : EventLoop := ⟨ExecInternal.new,[],[]⟩

/-- Only the waiter threads send `Completed`. -/
def next (loop : EventLoop) : Tick → Outcome EventLoop
  | .push (.completed _ _) => .error .explicit
  | .push event => pure { loop with events := loop.events ++ [event] }
  | .exit pid exitCode => do
    Outcome.assert (pid ∈ loop.waiters)
    pure { loop with
      events := loop.events ++ [.completed pid exitCode]
      waiters := loop.waiters.erase pid }
  | .handle os =>
    match loop.events with
    | [] => .error .explicit
    | event :: events => do
      let exec ← ExecInternal.handle os event loop.exec
      pure { loop with
        exec, events
        waiters := loop.waiters ++ (exec.effects.drop loop.exec.effects.length).filterMap Effect.child? }

def system : System EventLoop Tick := .ofPartial new next

def Sends (_ : EventLoop) : Tick → Prop
  | .handle os => ∀ response, os.send response = .ok ()
  | _ => True

/-- The completions of the pid that are still to come: a thread has yet to send it, or it is
in the queue. -/
def outstanding (loop : EventLoop) (pid : ProcessId) : Nat :=
  loop.waiters.countP (· = pid) + loop.events.countP (·.reports pid)

/-- Where the completion of every running command comes from. -/
structure OneSource (loop : EventLoop) : Prop where
  running : ∀ pid, (∃ child, loop.exec.machine.running.lookup pid = some (.running child)) ↔ loop.outstanding pid = 1
  editing : ∀ pid, loop.exec.machine.running.lookup pid = some .awaitingEdit ↔
    ∃! editId, ∃ path, loop.exec.waitingEdits.lookup editId = some (pid,path)
  waited : ∀ pid ∈ loop.waiters, pid ∈ loop.exec.machine.running
  reported : ∀ pid exitCode, .completed pid exitCode ∈ loop.events → pid ∈ loop.exec.machine.running
  edited : ∀ editId pid path, loop.exec.waitingEdits.lookup editId = some (pid,path) →
    pid ∈ loop.exec.machine.running ∧ ∃ data, .sent (.editRequest pid editId path data) ∈ loop.exec.effects
  distinct : (ExecInternal.editRequests loop.exec.effects).Nodup

variable {loop after : EventLoop} {pid : ProcessId}

theorem push_ok {event : ExecEvent} (ok : loop.next (.push event) = .ok after) :
    (∀ pid, event.reports pid = false) ∧ after = { loop with events := loop.events ++ [event] } := by
  cases event with
  | completed => cases ok
  | _ => exact ⟨fun _ => rfl,(Except.ok.inj ok).symm⟩

theorem exit_ok {exitCode : Int} (ok : loop.next (.exit pid exitCode) = .ok after) :
    pid ∈ loop.waiters ∧ after = { loop with
      events := loop.events ++ [.completed pid exitCode]
      waiters := loop.waiters.erase pid } := by
  obtain ⟨_,waits,ok⟩ := Outcome.bind_ok.mp ok
  exact ⟨(Outcome.assert_ok _ _).mp waits,(Except.ok.inj ok).symm⟩

theorem handle_ok {os : Os} (ok : loop.next (.handle os) = .ok after) :
    ∃ event events exec, loop.events = event :: events ∧ ExecInternal.handle os event loop.exec = .ok exec ∧
      after = { loop with
        exec, events
        waiters := loop.waiters ++ (exec.effects.drop loop.exec.effects.length).filterMap Effect.child? } := by
  unfold next at ok
  cases shape : loop.events with
  | nil =>
    simp only [shape] at ok
    cases ok
  | cons event events =>
    simp only [shape] at ok
    obtain ⟨exec,handled,last⟩ := Outcome.bind_ok.mp ok
    exact ⟨event,events,exec,rfl,handled,(Except.ok.inj last).symm⟩

theorem outstanding_exit {exitCode : Int} (waits : pid ∈ loop.waiters) (other : ProcessId) :
    ({ loop with
      events := loop.events ++ [.completed pid exitCode]
      waiters := loop.waiters.erase pid } : EventLoop).outstanding other = loop.outstanding other := by
  have split := (List.perm_cons_erase waits).countP_eq (· = other)
  rw [List.countP_cons] at split
  simp only [outstanding,List.countP_append,List.countP_singleton,ExecEvent.reports]
  omega

theorem outstanding_handled {event : ExecEvent} {events : List ExecEvent} {exec : ExecInternal} {more : List Effect}
    (found : loop.events = event :: events) :
    ({ loop with exec, events, waiters := loop.waiters ++ more.filterMap Effect.child? } : EventLoop).outstanding pid +
      (if event.reports pid then 1 else 0) = loop.outstanding pid + ExecInternal.spawned pid more := by
  have children : (more.filterMap Effect.child?).countP (· = pid) = ExecInternal.spawned pid more := by
    rw [List.countP_filterMap,ExecInternal.spawned]
    congr 1
    ext1 effect
    cases effect <;> rfl
  simp only [outstanding,found,List.countP_append,List.countP_cons,children]
  omega

structure Balanced (loop : EventLoop) : Prop where
  reachable : ExecInternal.system.Reachable loop.exec
  outstanding : ∀ pid, loop.outstanding pid = ExecInternal.active loop.exec.machine pid
  edits : ExecInternal.EditsKept loop.exec

namespace Balanced

theorem start : Balanced new where
  reachable := ⟨[],.initial rfl⟩
  outstanding _ := rfl
  edits := ExecInternal.editsKept_new

theorem edited (balanced : Balanced loop) : ExecInternal.Edited loop.exec :=
  fun editId entry found => Or.inr (balanced.edits.entries editId entry found).1

theorem child (balanced : Balanced loop) {event : ExecEvent} (queued : event ∈ loop.events)
    (reports : event.reports pid = true) : ∃ child, loop.exec.machine.running.lookup pid = some (.running child) := by
  apply (ExecInternal.active_eq_one _ _).mp
  have some : 0 < loop.events.countP (·.reports pid) := List.countP_pos_iff.mpr ⟨event,queued,reports⟩
  have most := ExecInternal.active_le_one loop.exec.machine pid
  have whole := balanced.outstanding pid
  rw [EventLoop.outstanding] at whole
  omega

private theorem handled (balanced : Balanced loop) {os : Os} {event : ExecEvent} {events : List ExecEvent}
    {exec : ExecInternal} (sends : ∀ response, os.send response = .ok ()) (found : loop.events = event :: events)
    (ok : ExecInternal.handle os event loop.exec = .ok exec) : Balanced { loop with
      exec, events
      waiters := loop.waiters ++ (exec.effects.drop loop.exec.effects.length).filterMap Effect.child? } where
  reachable := by
    obtain ⟨trace,run⟩ := balanced.reachable
    exact ⟨trace ++ [(os,event)],.step run ok⟩
  outstanding pid := by
    have inv := ExecInternal.reachable_machine balanced.reachable
    have handled := ExecInternal.handle_handled inv (ExecInternal.reachable_named balanced.reachable) ok
    refine handled.balance inv balanced.edited (balanced.outstanding pid) ?_ (outstanding_handled found)
    rw [EventLoop.outstanding,found,List.countP_cons]
    omega
  edits := by
    refine ExecInternal.handle_edits sends (ExecInternal.reachable_machine balanced.reachable) balanced.edits ?_ ok
    intro pid exitCode same edits
    have reports : event.reports pid = true := by simp [same,ExecEvent.reports]
    obtain ⟨child,runs⟩ := balanced.child (found ▸ List.mem_cons_self ..) reports
    rw [ExecInternal.Edits,runs] at edits
    cases edits

theorem step (balanced : Balanced loop) {tick : Tick} (sends : loop.Sends tick) (ok : loop.next tick = .ok after) :
    Balanced after := by
  cases tick with
  | push event =>
    obtain ⟨other,rfl⟩ := push_ok ok
    refine ⟨balanced.reachable,fun pid => ?_,balanced.edits⟩
    rw [← balanced.outstanding pid,EventLoop.outstanding,EventLoop.outstanding,List.countP_append]
    simp [other]
  | exit pid exitCode =>
    obtain ⟨waits,rfl⟩ := exit_ok ok
    exact ⟨balanced.reachable,fun other => (outstanding_exit waits other).trans (balanced.outstanding other),
      balanced.edits⟩
  | handle os =>
    obtain ⟨event,events,exec,found,handled,rfl⟩ := handle_ok ok
    exact balanced.handled sends found handled

theorem oneSource (balanced : Balanced loop) : OneSource loop where
  running pid := by rw [balanced.outstanding,ExecInternal.active_eq_one]
  editing pid := by
    constructor
    · exact balanced.edits.awaited pid
    · intro named
      obtain ⟨editId,⟨path,found⟩,_⟩ := named
      exact (balanced.edits.entries editId _ found).1
  waited pid waits := by
    have some : 0 < loop.waiters.countP (· = pid) := List.countP_pos_iff.mpr ⟨pid,waits,decide_eq_true rfl⟩
    have most := ExecInternal.active_le_one loop.exec.machine pid
    have whole := balanced.outstanding pid
    rw [EventLoop.outstanding] at whole
    obtain ⟨child,runs⟩ := (ExecInternal.active_eq_one loop.exec.machine pid).mp (by omega)
    exact FiniteMap.mem_of_lookup runs
  reported pid exitCode queued := by
    obtain ⟨child,runs⟩ := balanced.child queued (decide_eq_true rfl)
    exact FiniteMap.mem_of_lookup runs
  edited editId pid path found := by
    obtain ⟨runs,requested⟩ := balanced.edits.entries editId _ found
    exact ⟨FiniteMap.mem_of_lookup runs,requested⟩
  distinct := balanced.edits.distinct

end Balanced

/-- Between two events every running command has exactly one source of its completion, and
nothing else is to be completed. -/
theorem completion_sources {trace : List Tick} (run : (system.restrict Sends).Run trace loop) : OneSource loop := by
  apply Balanced.oneSource
  refine run.invariant (fun _ => Balanced) ?_ ?_
  · intro _ same
    obtain rfl := same
    exact .start
  · intro _ loop tick after _ balanced taken
    exact balanced.step taken.2 taken.1

private def leaving : List Tick :=
  [.push (.enqueue ⟨0⟩ ⟨.unknown "make" [],⟨1⟩,⟨2⟩,⟨3⟩⟩ ∅),.push (.enqueue ⟨1⟩ ⟨.edit "notes",⟨4⟩,⟨5⟩,⟨6⟩⟩ ∅),
    .handle .working,.handle .working,.exit ⟨0⟩ 0]

theorem completion_sources_editing : ∃ loop, (system.restrict Sends).Run leaving loop ∧ OneSource loop ∧
    loop.exec.machine.running.lookup ⟨1⟩ = some .awaitingEdit ∧ loop.outstanding ⟨0⟩ = 1 := by
  obtain ⟨loop,run,awaits,waits⟩ := System.ends_run new next (fun _ _ => True) (fun loop =>
    loop.exec.machine.running.lookup ⟨1⟩ = some .awaitingEdit ∧ loop.outstanding ⟨0⟩ = 1)
    (show System.ends new next _ _ leaving = true by decide +kernel)
  have run : (system.restrict Sends).Run leaving loop := by
    refine run.permitted ?_
    intro tick member loop _
    simp only [leaving,List.mem_cons,List.not_mem_nil,or_false] at member
    rcases member with rfl | rfl | rfl | rfl | rfl <;> simp [Sends,Os.working]
  exact ⟨loop,run,completion_sources run,awaits,waits⟩

end EventLoop
end Nak
