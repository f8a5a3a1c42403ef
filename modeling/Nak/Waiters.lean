import Nak.Exec

/-! The mutex of a child process. The thread that waits for a child takes the mutex and keeps
it until the child has exited; the event loop takes it to kill the child. The event loop,
the waiter threads and the children take turns in any order. -/
namespace Nak
open Library

/-- Where a waiter thread is: before its `lock`, in `wait` with the mutex taken, or past both. -/
inductive Waiter where
  | started
  | waiting
  | left
  deriving DecidableEq, Repr

structure Spawned where
  alive : Bool
  waiter : Waiter
  deriving DecidableEq, Repr

def Effect.child? : Effect → Option ProcessId
  | .spawned pid _ _ _ _ _ _ => some pid
  | _ => none

/-- `cancelling` is the running process whose `CancelExec` the event loop has taken and whose
mutex it is about to lock. -/
structure Threads where
  exec : ExecInternal
  events : List ExecEvent
  cancelling : Option ProcessId
  spawned : FiniteMap ProcessId Spawned

/-- A step of the event loop (`handle`, `kill`), of a waiter thread (`lock`, `report`), of a
child (`exit`), or of any other thread that queues an event. -/
inductive Schedule where
  | push (event : ExecEvent)
  | handle (os : Os)
  | kill (os : Os)
  | lock (pid : ProcessId)
  | exit (pid : ProcessId)
  | report (pid : ProcessId) (exitCode : Int)

namespace Threads

def new : Threads := ⟨ExecInternal.new,[],none,∅⟩

/-- The running process that an event asks `cancel` to kill. -/
def victim (threads : Threads) : ExecEvent → Option ProcessId
  | .cancelExec pid =>
    match threads.exec.machine.status pid with
    | .ok (.running (.running _)) => some pid
    | _ => none
  | _ => none

def put (threads : Threads) (pid : ProcessId) (process : Spawned) : Threads :=
  { threads with spawned := threads.spawned.insert pid process }

/-- The waiter threads of the children an event has spawned. -/
def begin (threads : Threads) (effects : List Effect) : Threads :=
  (effects.filterMap Effect.child?).foldl (fun threads pid => threads.put pid ⟨true,.started⟩) threads

def next (threads : Threads) : Schedule → Outcome Threads
  | .push (.completed _ _) => .error .explicit
  | .push event => pure { threads with events := threads.events ++ [event] }
  | .handle os => do
    Outcome.assert (threads.cancelling = none)
    match threads.events with
    | [] => .error .explicit
    | event :: events =>
      match threads.victim event with
      | some pid => pure { threads with events, cancelling := some pid }
      | none => do
        let exec ← ExecInternal.handle os event threads.exec
        pure ({ threads with events, exec }.begin (exec.effects.drop threads.exec.effects.length))
  | .kill os => do
    let pid ← Outcome.unwrap threads.cancelling
    -- The lock is free: a thread that is in `wait` still holds it.
    Outcome.assert ((threads.spawned.lookup pid).map Spawned.waiter ≠ some .waiting)
    let exec ← ExecInternal.handle os (.cancelExec pid) threads.exec
    pure { threads with exec, cancelling := none }
  | .lock pid => do
    let process ← Outcome.unwrap (threads.spawned.lookup pid)
    Outcome.assert (process.waiter = .started)
    pure (threads.put pid ⟨process.alive,.waiting⟩)
  | .exit pid => do
    let process ← Outcome.unwrap (threads.spawned.lookup pid)
    Outcome.assert (process.alive = true)
    pure (threads.put pid ⟨false,process.waiter⟩)
  | .report pid exitCode => do
    let process ← Outcome.unwrap (threads.spawned.lookup pid)
    Outcome.assert (process.waiter = .waiting ∧ process.alive = false)
    pure { threads.put pid ⟨false,.left⟩ with events := threads.events ++ [.completed pid exitCode] }

def system : System Threads Schedule := .ofPartial new next

def Waits (threads : Threads) (pid : ProcessId) : Prop := threads.spawned.lookup pid = some ⟨true,.waiting⟩

/-- The event loop is handling `CancelExec` of the process and cannot take its mutex. -/
def Blocked (threads : Threads) (pid : ProcessId) : Prop := threads.cancelling = some pid ∧ threads.Waits pid

/-- The event loop comes to the mutex of a live child before its waiter thread: it takes no
`CancelExec` of a child that is waited for, and no waiter thread overtakes it. -/
def Ahead (threads : Threads) : Schedule → Prop
  | .handle _ => ∀ pid ∈ threads.events.head?.bind threads.victim, ¬threads.Waits pid
  | .lock pid => threads.cancelling = some pid → (threads.spawned.lookup pid).map Spawned.alive = some false
  | _ => True

instance (threads : Threads) (pid : ProcessId) : Decidable (threads.Waits pid) :=
  inferInstanceAs (Decidable (_ = _))

instance (threads : Threads) (pid : ProcessId) : Decidable (threads.Blocked pid) :=
  inferInstanceAs (Decidable (_ ∧ _))

instance (threads : Threads) (move : Schedule) : Decidable (threads.Ahead move) :=
  match move with
  | .handle _ => inferInstanceAs (Decidable (∀ pid ∈ threads.events.head?.bind threads.victim, ¬threads.Waits pid))
  | .lock _ => inferInstanceAs (Decidable (_ → _))
  | .push _ => isTrue trivial
  | .kill _ => isTrue trivial
  | .exit _ => isTrue trivial
  | .report _ _ => isTrue trivial

variable {threads after : Threads}

theorem handle_ok {os : Os} (ok : threads.next (.handle os) = .ok after) :
    threads.cancelling = none ∧ ∃ event events, threads.events = event :: events ∧
      ((∃ pid, threads.victim event = some pid ∧ after = { threads with events, cancelling := some pid }) ∨
        threads.victim event = none ∧ ∃ exec, ExecInternal.handle os event threads.exec = .ok exec ∧
          after = { threads with events, exec }.begin (exec.effects.drop threads.exec.effects.length)) := by
  obtain ⟨_,idle,ok⟩ := Outcome.bind_ok.mp ok
  refine ⟨(Outcome.assert_ok _ _).mp idle,?_⟩
  split at ok
  · cases ok
  · rename_i event events queued
    refine ⟨event,events,queued,?_⟩
    split at ok
    · rename_i pid found
      exact Or.inl ⟨pid,found,(Except.ok.inj ok).symm⟩
    · rename_i none
      obtain ⟨exec,handled,last⟩ := Outcome.bind_ok.mp ok
      exact Or.inr ⟨none,exec,handled,(Except.ok.inj last).symm⟩

theorem kill_ok {os : Os} (ok : threads.next (.kill os) = .ok after) :
    ∃ pid exec, threads.cancelling = some pid ∧
      (threads.spawned.lookup pid).map Spawned.waiter ≠ some .waiting ∧
      ExecInternal.handle os (.cancelExec pid) threads.exec = .ok exec ∧
      after = { threads with exec, cancelling := none } := by
  obtain ⟨pid,named,ok⟩ := Outcome.bind_ok.mp ok
  obtain ⟨_,free,ok⟩ := Outcome.bind_ok.mp ok
  obtain ⟨exec,handled,last⟩ := Outcome.bind_ok.mp ok
  exact ⟨pid,exec,(Outcome.unwrap_ok _ _).mp named,(Outcome.assert_ok _ _).mp free,handled,(Except.ok.inj last).symm⟩

theorem lock_ok {pid : ProcessId} (ok : threads.next (.lock pid) = .ok after) :
    ∃ alive, threads.spawned.lookup pid = some ⟨alive,.started⟩ ∧ after = threads.put pid ⟨alive,.waiting⟩ := by
  obtain ⟨⟨alive,waiter⟩,found,ok⟩ := Outcome.bind_ok.mp ok
  obtain ⟨_,started,last⟩ := Outcome.bind_ok.mp ok
  obtain rfl : waiter = .started := (Outcome.assert_ok _ _).mp started
  exact ⟨alive,(Outcome.unwrap_ok _ _).mp found,(Except.ok.inj last).symm⟩

theorem exit_ok {pid : ProcessId} (ok : threads.next (.exit pid) = .ok after) :
    ∃ waiter, threads.spawned.lookup pid = some ⟨true,waiter⟩ ∧ after = threads.put pid ⟨false,waiter⟩ := by
  obtain ⟨⟨alive,waiter⟩,found,ok⟩ := Outcome.bind_ok.mp ok
  obtain ⟨_,lives,last⟩ := Outcome.bind_ok.mp ok
  obtain rfl : alive = true := (Outcome.assert_ok _ _).mp lives
  exact ⟨waiter,(Outcome.unwrap_ok _ _).mp found,(Except.ok.inj last).symm⟩

theorem report_ok {pid : ProcessId} {exitCode : Int} (ok : threads.next (.report pid exitCode) = .ok after) :
    threads.spawned.lookup pid = some ⟨false,.waiting⟩ ∧
      after = { threads.put pid ⟨false,.left⟩ with events := threads.events ++ [.completed pid exitCode] } := by
  obtain ⟨⟨alive,waiter⟩,found,ok⟩ := Outcome.bind_ok.mp ok
  obtain ⟨_,both,last⟩ := Outcome.bind_ok.mp ok
  obtain ⟨rfl,rfl⟩ : waiter = .waiting ∧ alive = false := (Outcome.assert_ok _ _).mp both
  exact ⟨(Outcome.unwrap_ok _ _).mp found,(Except.ok.inj last).symm⟩

theorem push_ok {event : ExecEvent} (ok : threads.next (.push event) = .ok after) :
    after = { threads with events := threads.events ++ [event] } := by
  cases event <;> first | cases ok; rfl | cases ok

theorem put_waits {pid other : ProcessId} {process : Spawned} (waits : (threads.put pid process).Waits other) :
    other = pid ∧ process = ⟨true,.waiting⟩ ∨ other ≠ pid ∧ threads.Waits other := by
  rw [Waits,put,FiniteMap.lookup_insert_if] at waits
  split at waits
  · rename_i same
    exact Or.inl ⟨same,Option.some.inj waits⟩
  · rename_i different
    exact Or.inr ⟨different,waits⟩

theorem begin_keeps (threads : Threads) (effects : List Effect) :
    (threads.begin effects).exec = threads.exec ∧ (threads.begin effects).cancelling = threads.cancelling := by
  unfold begin
  induction effects.filterMap Effect.child? generalizing threads with
  | nil => exact ⟨rfl,rfl⟩
  | cons pid pids ih => exact ih (threads.put pid ⟨true,.started⟩)

/-- What the event loop does is a run of the executor. -/
theorem reachable_exec (reachable : system.Reachable threads) : ExecInternal.system.Reachable threads.exec := by
  refine reachable.invariant (fun threads => ExecInternal.system.Reachable threads.exec) ?_ ?_
  · intro threads start
    obtain rfl := start
    exact ⟨[],.initial rfl⟩
  · intro threads label after before taken
    obtain ⟨trace,run⟩ := before
    cases label with
    | push event =>
      obtain rfl := push_ok taken
      exact ⟨trace,run⟩
    | handle os =>
      obtain ⟨_,event,events,_,⟨pid,_,rfl⟩ | ⟨_,exec,handled,rfl⟩⟩ := handle_ok taken
      · exact ⟨trace,run⟩
      · exact ⟨trace ++ [(os,event)],.step run (by rw [(begin_keeps _ _).1]; exact handled)⟩
    | kill os =>
      obtain ⟨pid,exec,_,_,handled,rfl⟩ := kill_ok taken
      exact ⟨trace ++ [(os,ExecEvent.cancelExec pid)],.step run handled⟩
    | lock pid =>
      obtain ⟨alive,_,rfl⟩ := lock_ok taken
      exact ⟨trace,run⟩
    | exit pid =>
      obtain ⟨waiter,_,rfl⟩ := exit_ok taken
      exact ⟨trace,run⟩
    | report pid exitCode =>
      obtain ⟨_,rfl⟩ := report_ok taken
      exact ⟨trace,run⟩

/-- From a state in which the event loop is not blocked, one step blocks it exactly when
that step puts the waiter thread of a live child before it. -/
theorem blocks_iff {move : Schedule} (free : ∀ pid, ¬threads.Blocked pid) (taken : threads.next move = .ok after) :
    (∀ pid, ¬after.Blocked pid) ↔ threads.Ahead move := by
  cases move with
  | push event =>
    obtain rfl := push_ok taken
    exact iff_of_true free trivial
  | handle os =>
    obtain ⟨idle,event,events,queued,⟨pid,found,rfl⟩ | ⟨none,exec,_,rfl⟩⟩ := handle_ok taken
    · simp only [Ahead,queued,List.head?_cons,Option.bind_some,Option.mem_def,Option.some.injEq,forall_eq',found]
      constructor
      · exact fun never waits => never pid ⟨rfl,waits⟩
      · intro apart other blocked
        obtain ⟨same,waits⟩ := blocked
        obtain rfl := Option.some.inj same
        exact apart waits
    · refine iff_of_true (fun pid blocked => ?_) ?_
      · have idle' := (begin_keeps _ _).2.symm.trans blocked.1
        cases idle.symm.trans idle'
      · simp [Ahead,queued,none]
  | kill os =>
    obtain ⟨pid,exec,_,_,_,rfl⟩ := kill_ok taken
    refine iff_of_true (fun other blocked => ?_) trivial
    cases blocked.1
  | lock pid =>
    obtain ⟨alive,found,rfl⟩ := lock_ok taken
    rw [Ahead,found,Option.map_some,Option.some.injEq]
    constructor
    · intro never same
      cases alive with
      | false => rfl
      | true => exact absurd ⟨same,Finmap.lookup_insert _⟩ (never pid)
    · intro apart other blocked
      obtain ⟨same,waits⟩ := blocked
      rcases put_waits waits with ⟨rfl,shape⟩ | ⟨_,old⟩
      · obtain rfl : alive = false := apart same
        cases shape
      · exact free other ⟨same,old⟩
  | exit pid =>
    obtain ⟨waiter,_,rfl⟩ := exit_ok taken
    refine iff_of_true (fun other blocked => ?_) trivial
    rcases put_waits blocked.2 with ⟨_,shape⟩ | ⟨_,old⟩
    · cases shape
    · exact free other ⟨blocked.1,old⟩
  | report pid exitCode =>
    obtain ⟨_,rfl⟩ := report_ok taken
    refine iff_of_true (fun other blocked => ?_) trivial
    have waits : (threads.put pid ⟨false,.left⟩).Waits other := blocked.2
    rcases put_waits waits with ⟨_,shape⟩ | ⟨_,old⟩
    · cases shape
    · exact free other ⟨blocked.1,old⟩

/-- A blocked event loop does nothing until the victim exits by itself. -/
theorem blocked_stays {pid : ProcessId} {move : Schedule} (blocked : threads.Blocked pid)
    (taken : threads.next move = .ok after) (other : move ≠ .exit pid) :
    after.Blocked pid ∧ after.exec = threads.exec := by
  obtain ⟨same,waits⟩ := blocked
  have stays (third : ProcessId) (process : Spawned) (different : third ≠ pid) :
    (threads.put third process).Waits pid := by
    rw [Waits,put,Finmap.lookup_insert_of_ne _ different.symm]
    exact waits
  cases move with
  | push event =>
    obtain rfl := push_ok taken
    exact ⟨⟨same,waits⟩,rfl⟩
  | handle os =>
    cases (handle_ok taken).1.symm.trans same
  | kill os =>
    obtain ⟨victim,_,named,unlocked,_⟩ := kill_ok taken
    obtain rfl := Option.some.inj (named.symm.trans same)
    exact absurd (congrArg (Option.map Spawned.waiter) waits) unlocked
  | lock third =>
    obtain ⟨alive,found,rfl⟩ := lock_ok taken
    refine ⟨⟨same,stays third _ fun equal => ?_⟩,rfl⟩
    subst equal
    cases found.symm.trans waits
  | exit third =>
    obtain ⟨waiter,_,rfl⟩ := exit_ok taken
    exact ⟨⟨same,stays third _ fun equal => other (equal ▸ rfl)⟩,rfl⟩
  | report third exitCode =>
    obtain ⟨found,rfl⟩ := report_ok taken
    refine ⟨⟨same,stays third _ fun equal => ?_⟩,rfl⟩
    subst equal
    cases found.symm.trans waits

/-- The event loop is blocked in no state of a run exactly when it comes to the mutex of
every live child it cancels before the waiter thread does. -/
theorem never_blocked_iff {trace : List Schedule} (run : system.Run trace threads) :
    (∀ before rest middle, trace = before ++ rest → system.Run before middle → ∀ pid, ¬middle.Blocked pid) ↔
      (system.restrict Ahead).Run trace threads := by
  refine System.Run.holds_iff (System.ofPartial_deterministic new next) ?_ ?_ run
  · intro threads start pid blocked
    obtain rfl := start
    cases blocked.1
  · intro trace threads move after _ free taken
    exact blocks_iff free taken

def sleeper : RunCmd := ⟨.unknown "sleep" ["9"],⟨1⟩,⟨2⟩,⟨3⟩⟩

def cancelled (steps : List Schedule) : List Schedule :=
  [.push (.enqueue ⟨0⟩ sleeper ∅),.handle .working,.push (.cancelExec ⟨0⟩)] ++ steps ++ [.handle .working]

theorem never_blocked_ahead : ∃ trace threads, system.Run trace threads ∧
    threads.exec.effects.getLast? = some (.killed ⟨0⟩) ∧
    ∀ before rest middle, trace = before ++ rest → system.Run before middle → ∀ pid, ¬middle.Blocked pid := by
  obtain ⟨threads,run,killed⟩ := System.ends_run new next Ahead
    (fun threads => threads.exec.effects.getLast? = some (.killed ⟨0⟩))
    (show System.ends new next Ahead _ (cancelled [] ++ [.kill .working]) = true by decide +kernel)
  exact ⟨_,threads,run.unrestricted,killed,(never_blocked_iff run.unrestricted).mpr run⟩

/-- Once the waiter thread has taken the mutex, the event loop waits for the sleeping child. -/
theorem never_blocked_fails : ∃ trace threads, system.Run trace threads ∧ threads.Blocked ⟨0⟩ := by
  obtain ⟨threads,run,blocked⟩ := System.ends_run new next (fun _ _ => True) (fun threads => threads.Blocked ⟨0⟩)
    (show System.ends new next _ _ (cancelled [.lock ⟨0⟩]) = true by decide +kernel)
  exact ⟨_,threads,run.unrestricted,blocked⟩

end Threads
end Nak
