import Nak.MachineRuns

/-! The failure cascade. A waiter whose condition is contradicted should fail, be recorded
as failed and fail its own waiters in turn. The branch of `resolve_tasks` for it completes
a pid that is waiting and not running, so a call does what it should exactly when the
branch is not taken. -/
namespace Nak.Machine
open Library
variable {Id Cmd State : Type} [DecidableEq Id] {machine next : Machine Id Cmd State}

def failuresOf (pid : Id) (tasks : List (Task Id Cmd)) : List (Task Id Cmd) :=
  tasks.filter fun
    | .conditionFailed failed _ => failed = pid
    | .start _ _ => false

def BecomesFinished (machine next : Machine Id Cmd State) (pid : Id) (status : ExitStatus) : Prop :=
  pid ∉ machine.finished ∧ next.finished.lookup pid = some status

/-- Every waiter of every pid that becomes finished is resolved, contradicted or not. -/
structure Cascade (machine : Machine Id Cmd State) (tasks : List (Task Id Cmd)) (next : Machine Id Cmd State) :
    Prop where
  failed : ∀ pid status waiter waiting cond, BecomesFinished machine next pid status →
    machine.waitingOn.lookup waiter = some waiting → waiting.conditions.lookup pid = some cond →
    Contradicted cond status →
      failuresOf waiter tasks = [.conditionFailed waiter waiting.cmd] ∧
      next.finished.lookup waiter = some .failure ∧ waiter ∉ next.waitingOn ∧
      ∀ other, waiter ∉ (next.blockedBy other).map Prod.snd
  resolved : ∀ pid status waiter waiting, BecomesFinished machine next pid status →
    next.waitingOn.lookup waiter = some waiting → pid ∉ waiting.conditions
  started : ∀ waiter waiting, machine.waitingOn.lookup waiter = some waiting →
    (∀ pid cond, waiting.conditions.lookup pid = some cond →
      ∃ status, next.finished.lookup pid = some status ∧ ¬Contradicted cond status) →
    .start waiter waiting.cmd ∈ tasks

/-- The call returns, records the status and resolves the waiters, however many fail. -/
def FinishesSafely (machine : Machine Id Cmd State) (pid : Id) (status : ExitStatus)
    (outcome : Outcome (List (Task Id Cmd) × Machine Id Cmd State)) : Prop :=
  ∃ tasks next, outcome = .ok (tasks,next) ∧ next.finished.lookup pid = some status ∧ Cascade machine tasks next

theorem Finishes.becomes {pid other : Id} {status later : ExitStatus} {tasks : List (Task Id Cmd)}
    (finishes : Finishes machine pid status tasks next) (becomes : BecomesFinished machine next other later) :
    other = pid ∧ later = status := by
  obtain ⟨before,after⟩ := becomes
  rw [finishes.finished,FiniteMap.lookup_insert_if] at after
  split at after
  · rename_i same
    exact ⟨same,(Option.some.inj after).symm⟩
  · exact absurd (FiniteMap.mem_of_lookup after) before

theorem Finishes.cascade {pid : Id} {status : ExitStatus} {tasks : List (Task Id Cmd)}
    (finishes : Finishes machine pid status tasks next) (inv : Inv machine)
    (undisputed : machine.Undisputed pid status) : Cascade machine tasks next := by
  constructor
  · intro other later waiter waiting cond becomes found listed against
    obtain ⟨rfl,rfl⟩ := finishes.becomes becomes
    exact absurd against (undisputed waiter waiting cond found listed)
  · intro other later waiter waiting becomes found
    obtain ⟨rfl,rfl⟩ := finishes.becomes becomes
    obtain ⟨before,_,_,erased,_⟩ := finishes.waiting found
    rw [erased]
    exact Finmap.notMem_erase_self
  · intro waiter waiting found all
    refine (finishes.releases inv found fun other cond listed => ?_).2
    obtain ⟨_,finished,_⟩ := all other cond listed
    exact FiniteMap.mem_of_lookup finished

private theorem finishesSafely_iff (inv : Inv machine) {pid : Id} {status : ExitStatus}
    {outcome : Outcome (List (Task Id Cmd) × Machine Id Cmd State)}
    (finishes : machine.Undisputed pid status →
      ∃ tasks next, outcome = .ok (tasks,next) ∧ Finishes machine pid status tasks next)
    (disputed : ¬machine.Undisputed pid status → outcome = .error .assertion) :
    FinishesSafely machine pid status outcome ↔ machine.Undisputed pid status := by
  constructor
  · intro given
    obtain ⟨tasks,next,ok,_⟩ := given
    by_contra against
    rw [disputed against] at ok
    cases ok
  · intro undisputed
    obtain ⟨tasks,next,ok,done⟩ := finishes undisputed
    refine ⟨tasks,next,ok,?_,done.cascade inv undisputed⟩
    rw [done.finished,Finmap.lookup_insert]

/-- A running pid, or one that may run, finishes safely exactly when no waiter's condition
on it is contradicted. -/
theorem finishes_safely_iff (reachable : system.Reachable machine) (pid : Id) (status : ExitStatus) :
    (pid ∈ machine.running →
      (FinishesSafely machine pid status (machine.completed pid status) ↔ machine.Undisputed pid status)) ∧
    (pid ∈ machine.toRun →
      (FinishesSafely machine pid status (machine.startCompleted pid status) ↔
        machine.Undisputed pid status)) := by
  have inv := reachable_inv reachable
  constructor
  · intro running
    exact finishesSafely_iff inv (inv.completed_finishes pid status running)
      (inv.completed_disputed pid status running)
  · intro toRun
    exact finishesSafely_iff inv (inv.startCompleted_finishes pid status toRun)
      (inv.startCompleted_disputed pid status toRun)

theorem replay_reachable (calls : List (Call Id Cmd State))
    {trace : List (Call Id Cmd State × List (Task Id Cmd))}
    (ok : System.replay new call calls = .ok (trace,machine)) : system.Reachable machine :=
  ⟨trace,System.replay_run new call calls trace machine ok⟩

def dependent : List (Call Nat String String) :=
  [.enqueue 0 "make" ∅,.enqueue 1 "make install" (AList.singleton 0 (some .success))]

theorem finishes_safely_dependent : ∃ ready running : Machine Nat String String,
    system.Reachable ready ∧ system.Reachable running ∧
      FinishesSafely running 0 .success (running.completed 0 .success) ∧
      FinishesSafely ready 0 .success (ready.startCompleted 0 .success) := by
  have ready := replay_reachable dependent rfl
  have running := replay_reachable (dependent ++ [.start 0 "child"]) rfl
  refine ⟨_,_,ready,running,((finishes_safely_iff running 0 .success).1 (by decide)).mpr ?_,
    ((finishes_safely_iff ready 0 .success).2 (by decide)).mpr ?_⟩
  · exact ((reachable_inv running).undisputed_iff 0 .success).mpr (by decide)
  · exact ((reachable_inv ready).undisputed_iff 0 .success).mpr (by decide)

/-- When the first command fails, the machine panics instead of failing the second. -/
theorem finishes_safely_fails : ∃ trace, ∃ machine : Machine Nat String String,
    System.replay new call (dependent ++ [.start 0 "child"]) = .ok (trace,machine) ∧
      0 ∈ machine.running ∧ machine.completed 0 .failure = .error .assertion ∧
      ¬FinishesSafely machine 0 .failure (machine.completed 0 .failure) := by
  refine ⟨_,_,rfl,by decide,by rfl,?_⟩
  intro given
  obtain ⟨tasks,next,ok,_⟩ := given
  cases ok

end Nak.Machine
