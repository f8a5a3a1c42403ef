import Nak.MachineResolve

/-! What every sequence of machine calls keeps. Each pid is in at most one of the four
collections, and `waiting_on` and `check_on_completed` list the same dependencies, all of
them on pids that are still to finish. -/
namespace Nak.Machine
open Library
variable {Id Cmd State : Type} [DecidableEq Id]

structure Inv (machine : Machine Id Cmd State) : Prop where
  finished_apart : ∀ pid, pid ∈ machine.finished → ¬machine.Unfinished pid
  toRun_apart : ∀ pid, pid ∈ machine.toRun → pid ∉ machine.running ∧ pid ∉ machine.waitingOn
  running_apart : ∀ pid, pid ∈ machine.running → pid ∉ machine.waitingOn
  mirror : ∀ pid waiter cond, (cond,waiter) ∈ machine.blockedBy pid ↔
    ∃ waiting, machine.waitingOn.lookup waiter = some waiting ∧ waiting.conditions.lookup pid = some cond
  distinct : ∀ pid, ((machine.blockedBy pid).map Prod.snd).Nodup
  listed : ∀ pid, machine.checkOnCompleted.lookup pid ≠ some []
  pending : ∀ waiter waiting, machine.waitingOn.lookup waiter = some waiting →
    FiniteMap.len waiting.conditions ≠ 0
  unfinished : ∀ waiter waiting pid cond, machine.waitingOn.lookup waiter = some waiting →
    waiting.conditions.lookup pid = some cond → machine.Unfinished pid

theorem inv_new : Inv (new : Machine Id Cmd State) := by
  constructor <;> simp [new,Unfinished,blockedBy,Finmap.notMem_empty]

/-- No waiter's condition on the pid is contradicted by the status. -/
def Undisputed (machine : Machine Id Cmd State) (pid : Id) (status : ExitStatus) : Prop :=
  ∀ waiter waiting cond, machine.waitingOn.lookup waiter = some waiting →
    waiting.conditions.lookup pid = some cond → ¬Contradicted cond status

/-- The machine once a pid has finished and its waiters have been settled. -/
structure Finishes (machine : Machine Id Cmd State) (pid : Id) (status : ExitStatus)
    (tasks : List (Task Id Cmd)) (next : Machine Id Cmd State) : Prop where
  finished : next.finished = machine.finished.insert pid status
  running : next.running = machine.running.erase pid
  toRun : ∀ waiter, waiter ∈ next.toRun ↔
    waiter ∈ machine.toRun ∧ waiter ≠ pid ∨ (machine.released pid waiter).isSome
  checkOnCompleted : next.checkOnCompleted = machine.checkOnCompleted.erase pid
  waitingOn : ∀ waiter, next.waitingOn.lookup waiter = (machine.waitingOn.lookup waiter).bind (settle pid)
  tasks : tasks = ((machine.blockedBy pid).map Prod.snd).filterMap (machine.released pid)

namespace Inv
variable {machine : Machine Id Cmd State}

theorem undisputed_iff (inv : Inv machine) (pid : Id) (status : ExitStatus) :
    machine.Undisputed pid status ↔ ∀ entry ∈ machine.blockedBy pid, ¬Contradicted entry.1 status := by
  constructor
  · intro undisputed entry member
    obtain ⟨waiting,found,listed⟩ := (inv.mirror pid entry.2 entry.1).mp member
    exact undisputed entry.2 waiting entry.1 found listed
  · intro all waiter waiting cond found listed
    exact all (cond,waiter) ((inv.mirror pid waiter cond).mpr ⟨waiting,found,listed⟩)

theorem waiting_not_running (inv : Inv machine) {waiter : Id} {waiting : Waiting Id Cmd}
    (found : machine.waitingOn.lookup waiter = some waiting) : waiter ∉ machine.running :=
  fun running => inv.running_apart waiter running (FiniteMap.mem_of_lookup found)

theorem waiting_not_toRun (inv : Inv machine) {waiter : Id} {waiting : Waiting Id Cmd}
    (found : machine.waitingOn.lookup waiter = some waiting) : waiter ∉ machine.toRun :=
  fun toRun => (inv.toRun_apart waiter toRun).2 (FiniteMap.mem_of_lookup found)

theorem settle_other (inv : Inv machine) {pid waiter : Id} {waiting : Waiting Id Cmd}
    (found : machine.waitingOn.lookup waiter = some waiting) (absent : waiting.conditions.lookup pid = none) :
    settle pid waiting = some waiting := by
  have same := FiniteMap.erase_absent waiting.conditions pid (Finmap.lookup_eq_none.mp absent)
  rw [settle,same,if_neg (inv.pending waiter waiting found)]

theorem released_listed (inv : Inv machine) {pid waiter : Id} (some : (machine.released pid waiter).isSome) :
    waiter ∈ (machine.blockedBy pid).map Prod.snd := by
  obtain ⟨task,released⟩ := Option.isSome_iff_exists.mp some
  obtain ⟨waiting,found,task⟩ := Option.bind_eq_some_iff.mp released
  cases listed : waiting.conditions.lookup pid with
  | none =>
    rw [FiniteMap.erase_absent _ _ (Finmap.lookup_eq_none.mp listed),
      if_neg (inv.pending waiter waiting found)] at task
    cases task
  | some cond =>
    exact List.mem_map_of_mem ((inv.mirror pid waiter cond).mpr ⟨waiting,found,listed⟩)

/-- The pid moved to the finished ones, its waiters not yet looked at. -/
private def retire (machine : Machine Id Cmd State) (pid : Id) (status : ExitStatus) : Machine Id Cmd State :=
  { machine with
    finished := machine.finished.insert pid status
    toRun := machine.toRun.erase pid
    running := machine.running.erase pid }

private theorem completed_retires (inv : Inv machine) (pid : Id) (status : ExitStatus)
    (running : pid ∈ machine.running) :
    machine.completed pid status = resolveTasks (retire machine pid status) pid status := by
  have absent : pid ∉ machine.toRun := fun toRun => (inv.toRun_apart pid toRun).1 running
  rw [completed_eq,Outcome.assert_true running,Outcome.ok_bind,retire,Finset.erase_eq_of_notMem absent]

private theorem startCompleted_retires (inv : Inv machine) (pid : Id) (status : ExitStatus)
    (toRun : pid ∈ machine.toRun) :
    machine.startCompleted pid status = resolveTasks (retire machine pid status) pid status := by
  rw [startCompleted,Outcome.assert_true toRun,Outcome.ok_bind,retire,
    FiniteMap.erase_absent _ _ (inv.toRun_apart pid toRun).1]

private theorem retired_listed (inv : Inv machine) (pid : Id) (status : ExitStatus) :
    Listed { retire machine pid status with
      checkOnCompleted := machine.checkOnCompleted.erase pid } pid (machine.blockedBy pid) := by
  intro entry member
  obtain ⟨waiting,found,listed⟩ := (inv.mirror pid entry.2 entry.1).mp member
  refine ⟨fun running => ?_,waiting,found,listed⟩
  exact inv.waiting_not_running found (Finmap.mem_erase.mp running).2

private theorem resolveTasks_listed (machine : Machine Id Cmd State) (pid : Id) (status : ExitStatus) :
    resolveTasks (retire machine pid status) pid status =
      resolveBlocked completed pid status (machine.blockedBy pid)
        { retire machine pid status with checkOnCompleted := machine.checkOnCompleted.erase pid } := by
  rw [resolveTasks_eq,resolveTasksWith]
  have same : (retire machine pid status).checkOnCompleted = machine.checkOnCompleted := rfl
  cases listed : machine.checkOnCompleted.lookup pid with
  | some blocked =>
    rw [same,listed,blockedBy,listed]
    rfl
  | none =>
    rw [same,listed,blockedBy,listed,FiniteMap.erase_absent _ _ (Finmap.lookup_eq_none.mp listed),← same]
    rfl

private theorem settled_finishes (inv : Inv machine) (pid : Id) (status : ExitStatus)
    {tasks : List (Task Id Cmd)} {next : Machine Id Cmd State}
    (settled : Settled { retire machine pid status with
      checkOnCompleted := machine.checkOnCompleted.erase pid } pid ((machine.blockedBy pid).map Prod.snd) tasks next) :
    Finishes machine pid status tasks next := by
  refine ⟨settled.finished,settled.running,fun waiter => ?_,settled.checkOnCompleted,fun waiter => ?_,
    settled.tasks⟩
  · rw [settled.toRun]
    constructor
    · intro either
      rcases either with old | ⟨_,some⟩
      · exact Or.inl (Finset.mem_erase.mp old).symm
      · exact Or.inr some
    · intro either
      rcases either with old | some
      · exact Or.inl (Finset.mem_erase.mpr old.symm)
      · exact Or.inr ⟨inv.released_listed some,some⟩
  · rw [settled.waitingOn]
    split
    · rfl
    · rename_i absent
      change machine.waitingOn.lookup waiter = _
      cases found : machine.waitingOn.lookup waiter with
      | none => rfl
      | some waiting =>
        cases listed : waiting.conditions.lookup pid with
        | none => exact (inv.settle_other found listed).symm
        | some cond =>
          exact absurd (List.mem_map_of_mem ((inv.mirror pid waiter cond).mpr ⟨waiting,found,listed⟩)) absent

private theorem retire_finishes (inv : Inv machine) (pid : Id) (status : ExitStatus)
    (undisputed : machine.Undisputed pid status) :
    ∃ tasks next, resolveTasks (retire machine pid status) pid status = .ok (tasks,next) ∧
      Finishes machine pid status tasks next := by
  rw [resolveTasks_listed]
  obtain ⟨tasks,next,ok,settled⟩ := resolveBlocked_settles pid status _ _ (inv.retired_listed pid status)
    (inv.distinct pid) ((inv.undisputed_iff pid status).mp undisputed)
  exact ⟨tasks,next,ok,inv.settled_finishes pid status settled⟩

private theorem retire_disputed (inv : Inv machine) (pid : Id) (status : ExitStatus)
    (disputed : ¬machine.Undisputed pid status) :
    resolveTasks (retire machine pid status) pid status = .error .assertion := by
  rw [resolveTasks_listed]
  refine resolveBlocked_contradicted pid status _ _ (inv.retired_listed pid status) (inv.distinct pid) ?_
  simpa [inv.undisputed_iff] using disputed

theorem completed_finishes (inv : Inv machine) (pid : Id) (status : ExitStatus) (running : pid ∈ machine.running)
    (undisputed : machine.Undisputed pid status) :
    ∃ tasks next, machine.completed pid status = .ok (tasks,next) ∧ Finishes machine pid status tasks next := by
  rw [inv.completed_retires pid status running]
  exact inv.retire_finishes pid status undisputed

theorem startCompleted_finishes (inv : Inv machine) (pid : Id) (status : ExitStatus) (toRun : pid ∈ machine.toRun)
    (undisputed : machine.Undisputed pid status) :
    ∃ tasks next, machine.startCompleted pid status = .ok (tasks,next) ∧
      Finishes machine pid status tasks next := by
  rw [inv.startCompleted_retires pid status toRun]
  exact inv.retire_finishes pid status undisputed

/-- A contradicted waiter is fatal: `resolve_tasks` completes a pid that is not running. -/
theorem completed_disputed (inv : Inv machine) (pid : Id) (status : ExitStatus) (running : pid ∈ machine.running)
    (disputed : ¬machine.Undisputed pid status) : machine.completed pid status = .error .assertion := by
  rw [inv.completed_retires pid status running]
  exact inv.retire_disputed pid status disputed

theorem startCompleted_disputed (inv : Inv machine) (pid : Id) (status : ExitStatus) (toRun : pid ∈ machine.toRun)
    (disputed : ¬machine.Undisputed pid status) : machine.startCompleted pid status = .error .assertion := by
  rw [inv.startCompleted_retires pid status toRun]
  exact inv.retire_disputed pid status disputed

theorem completed_cases (inv : Inv machine) {pid : Id} {status : ExitStatus} {tasks : List (Task Id Cmd)}
    {next : Machine Id Cmd State} (ok : machine.completed pid status = .ok (tasks,next)) :
    pid ∈ machine.running ∧ machine.Undisputed pid status ∧ Finishes machine pid status tasks next := by
  have running : pid ∈ machine.running := by
    by_contra absent
    rw [completed_not_running machine pid status absent] at ok
    cases ok
  have undisputed : machine.Undisputed pid status := by
    by_contra disputed
    rw [inv.completed_disputed pid status running disputed] at ok
    cases ok
  obtain ⟨_,_,same,finishes⟩ := inv.completed_finishes pid status running undisputed
  obtain ⟨rfl,rfl⟩ := Prod.mk.inj (Except.ok.inj (same.symm.trans ok))
  exact ⟨running,undisputed,finishes⟩

theorem startCompleted_cases (inv : Inv machine) {pid : Id} {status : ExitStatus} {tasks : List (Task Id Cmd)}
    {next : Machine Id Cmd State} (ok : machine.startCompleted pid status = .ok (tasks,next)) :
    pid ∈ machine.toRun ∧ machine.Undisputed pid status ∧ Finishes machine pid status tasks next := by
  have toRun : pid ∈ machine.toRun := by
    obtain ⟨_,present,_⟩ := Outcome.bind_ok.mp ok
    exact (Outcome.assert_ok _ _).mp present
  have undisputed : machine.Undisputed pid status := by
    by_contra disputed
    rw [inv.startCompleted_disputed pid status toRun disputed] at ok
    cases ok
  obtain ⟨_,_,same,finishes⟩ := inv.startCompleted_finishes pid status toRun undisputed
  obtain ⟨rfl,rfl⟩ := Prod.mk.inj (Except.ok.inj (same.symm.trans ok))
  exact ⟨toRun,undisputed,finishes⟩

end Inv
end Nak.Machine
