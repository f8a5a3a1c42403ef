import Nak.MachineCascade

/-! The two indexes of the machine mirror each other, and the loop of `resolve_tasks`
finds every waiter and every condition it looks up. -/
namespace Nak.Machine
open Library
variable {Id Cmd State : Type} [DecidableEq Id] {machine : Machine Id Cmd State}

/-- What `resolve_tasks` is called on: the pid has been moved to the finished ones, by
`completed` or by `start_completed`. -/
inductive Resolving (machine : Machine Id Cmd State) (pid : Id) (status : ExitStatus) :
    Machine Id Cmd State → Prop
  | completed (running : pid ∈ machine.running) : Resolving machine pid status
      { machine with running := machine.running.erase pid, finished := machine.finished.insert pid status }
  | startCompleted (toRun : pid ∈ machine.toRun) : Resolving machine pid status
      { machine with toRun := machine.toRun.erase pid, finished := machine.finished.insert pid status }

def Visits (start : Machine Id Cmd State) (pid : Id) (status : ExitStatus) (cond : Condition) (waiter : Id)
    (visited : Machine Id Cmd State) : Prop :=
  ∃ before after tasks, start.checkOnCompleted.lookup pid = some (before ++ (cond,waiter) :: after) ∧
    resolveBlocked completed pid status before
      { start with checkOnCompleted := start.checkOnCompleted.erase pid } = .ok (tasks,visited)

def Found (machine : Machine Id Cmd State) (pid : Id) (cond : Condition) (waiter : Id) : Prop :=
  ∃ waiting, Outcome.expect "must be waiting" (machine.waitingOn.lookup waiter) = .ok waiting ∧
    Outcome.expect "was waiting" (waiting.conditions.lookup pid) = .ok cond

namespace Resolving
variable {pid : Id} {status : ExitStatus} {start : Machine Id Cmd State}

theorem checkOnCompleted (resolving : Resolving machine pid status start) :
    start.checkOnCompleted = machine.checkOnCompleted := by
  cases resolving <;> rfl

theorem waitingOn (resolving : Resolving machine pid status start) : start.waitingOn = machine.waitingOn := by
  cases resolving <;> rfl

theorem running (resolving : Resolving machine pid status start) {other : Id} (running : other ∈ start.running) :
    other ∈ machine.running := by
  cases resolving with
  | completed => exact (Finmap.mem_erase.mp running).2
  | startCompleted => exact running

theorem listed (resolving : Resolving machine pid status start) (inv : Inv machine) :
    Listed { start with checkOnCompleted := start.checkOnCompleted.erase pid } pid (machine.blockedBy pid) := by
  intro entry member
  obtain ⟨waiting,found,listed⟩ := (inv.mirror pid entry.2 entry.1).mp member
  refine ⟨fun running => inv.waiting_not_running found (resolving.running running),waiting,?_,listed⟩
  exact (congrArg (Finmap.lookup entry.2) resolving.waitingOn).trans found

/-- The loop invariant: the entries still to be visited mirror the waiters. -/
theorem visits_found (resolving : Resolving machine pid status start) (inv : Inv machine) {cond : Condition}
    {waiter : Id} {visited : Machine Id Cmd State} (visits : Visits start pid status cond waiter visited) :
    Found visited pid cond waiter := by
  obtain ⟨before,after,tasks,entry,ok⟩ := visits
  have same : machine.blockedBy pid = before ++ (cond,waiter) :: after := by
    rw [blockedBy,← resolving.checkOnCompleted,entry]
    rfl
  have listed := resolving.listed inv
  have distinct := inv.distinct pid
  rw [same] at listed distinct
  rw [List.map_append] at distinct
  have earlier : Listed { start with checkOnCompleted := start.checkOnCompleted.erase pid } pid before :=
    fun other member => listed other (List.mem_append_left _ member)
  have agrees : ∀ other ∈ before, ¬Contradicted other.1 status := by
    intro other member against
    rw [resolveBlocked_contradicted pid status before _ earlier distinct.of_append_left ⟨other,member,against⟩] at ok
    cases ok
  obtain ⟨_,_,again,settled⟩ :=
    resolveBlocked_settles pid status before _ earlier distinct.of_append_left agrees
  obtain ⟨rfl,rfl⟩ := Prod.mk.inj (Except.ok.inj (again.symm.trans ok))
  have absent : waiter ∉ before.map Prod.snd :=
    fun member => List.disjoint_of_nodup_append distinct member (by simp)
  obtain ⟨_,waiting,found,left⟩ := listed (cond,waiter) (by simp)
  refine ⟨waiting,(Outcome.expect_ok _ _ _).mpr ?_,(Outcome.expect_ok _ _ _).mpr left⟩
  rw [settled.waitingOn,if_neg absent]
  exact found

end Resolving

/-- The forward map and the reverse index of the machine, and what the loop of
`resolve_tasks` may rely on. -/
structure Mirrored (machine : Machine Id Cmd State) : Prop where
  mirror : ∀ pid waiter cond, (cond,waiter) ∈ machine.blockedBy pid ↔
    ∃ waiting, machine.waitingOn.lookup waiter = some waiting ∧ waiting.conditions.lookup pid = some cond
  once : ∀ pid waiter cond, (machine.blockedBy pid).count (cond,waiter) ≤ 1
  unfinished : ∀ pid, pid ∈ machine.checkOnCompleted →
    (pid ∈ machine.toRun ∨ pid ∈ machine.running ∨ pid ∈ machine.waitingOn) ∧ pid ∉ machine.finished
  pending : ∀ waiter waiting, machine.waitingOn.lookup waiter = some waiting → FiniteMap.len waiting.conditions ≠ 0
  found : ∀ pid status start cond waiter visited, Resolving machine pid status start →
    Visits start pid status cond waiter visited → Found visited pid cond waiter
  resolves : ∀ pid status start, Resolving machine pid status start →
    (∀ entry ∈ machine.blockedBy pid, ¬Contradicted entry.1 status) → (start.resolveTasks pid status).Returns

theorem Resolving.resolves {pid : Id} {status : ExitStatus} {start : Machine Id Cmd State}
    (resolving : Resolving machine pid status start) (inv : Inv machine)
    (undisputed : ∀ entry ∈ machine.blockedBy pid, ¬Contradicted entry.1 status) :
    (start.resolveTasks pid status).Returns := by
  have agrees := (inv.undisputed_iff pid status).mpr undisputed
  cases resolving with
  | completed running =>
    obtain ⟨tasks,next,ok,_⟩ := inv.completed_finishes pid status running agrees
    rw [completed_eq,Outcome.assert_true running,Outcome.ok_bind] at ok
    exact ⟨_,ok⟩
  | startCompleted toRun =>
    obtain ⟨tasks,next,ok,_⟩ := inv.startCompleted_finishes pid status toRun agrees
    rw [Machine.startCompleted,Outcome.assert_true toRun,Outcome.ok_bind] at ok
    exact ⟨_,ok⟩

theorem Inv.listed_unfinished (inv : Inv machine) {pid : Id} (listed : pid ∈ machine.checkOnCompleted) :
    machine.Unfinished pid := by
  obtain ⟨blocked,found⟩ := Finmap.mem_iff.mp listed
  cases blocked with
  | nil => exact absurd found (inv.listed pid)
  | cons entry blocked =>
    have member : (entry.1,entry.2) ∈ machine.blockedBy pid := by
      rw [blockedBy,found]
      exact List.mem_cons_self
    obtain ⟨waiting,waits,cond⟩ := (inv.mirror pid entry.2 entry.1).mp member
    exact inv.unfinished entry.2 waiting pid entry.1 waits cond

theorem indexes_mirror (reachable : system.Reachable machine) : Mirrored machine := by
  have inv := reachable_inv reachable
  constructor
  · exact inv.mirror
  · intro pid waiter cond
    exact List.nodup_iff_count_le_one.mp (inv.distinct pid).of_map (cond,waiter)
  · intro pid listed
    have unfinished := inv.listed_unfinished listed
    exact ⟨unfinished,fun finished => inv.finished_apart pid finished unfinished⟩
  · exact inv.pending
  · intro pid status start cond waiter visited resolving visits
    exact resolving.visits_found inv visits
  · intro pid status start resolving undisputed
    exact resolving.resolves inv undisputed

/-- One waiter of two pids, of which one has finished. -/
theorem indexes_mirror_shared : ∃ machine : Machine Nat String String,
    system.Reachable machine ∧ machine.blockedBy 1 = [(some .success,2)] ∧ Mirrored machine := by
  have reachable := replay_reachable ([.enqueue 0 "configure" ∅,.enqueue 1 "fetch" ∅,
    .enqueue 2 "make" (AList.insert 1 (some .success) (AList.singleton (0 : Nat) (none : Condition))),.start 0 "child",
    .completed 0 .failure] : List (Call Nat String String)) rfl
  exact ⟨_,reachable,by decide,indexes_mirror reachable⟩

end Nak.Machine
