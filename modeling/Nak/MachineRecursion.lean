import Nak.Machine

/-! The fuel of `completedWith` is invisible. `completed` and `resolve_tasks` satisfy
the mutually recursive equations of the source on every machine, reachable or not,
and no call of them ever runs out of fuel. -/
namespace Nak.Machine
open Library
variable {Id Cmd State : Type} [DecidableEq Id]

/-- What `resolve_tasks` calls for a failing waiter. -/
abbrev Completion (Id Cmd State : Type) :=
  Machine Id Cmd State → Id → ExitStatus → Outcome (List (Task Id Cmd) × Machine Id Cmd State)

/-- A size that no update made by `completed` and `resolve_tasks` raises. -/
structure Measure (size : Machine Id Cmd State → Nat) : Prop where
  retire : ∀ machine pid status, size { machine with
    running := machine.running.erase pid
    finished := machine.finished.insert pid status } ≤ size machine
  forget : ∀ machine pid, size { machine with
    checkOnCompleted := machine.checkOnCompleted.erase pid } ≤ size machine
  fail : ∀ machine waiter status, size { machine with
    waitingOn := machine.waitingOn.erase waiter
    finished := machine.finished.insert waiter status } ≤ size machine
  release : ∀ machine waiter, waiter ∈ machine.waitingOn → size { machine with
    waitingOn := machine.waitingOn.erase waiter
    toRun := insert waiter machine.toRun } ≤ size machine
  keep : ∀ machine waiter waiting, waiter ∈ machine.waitingOn → size { machine with
    waitingOn := (machine.waitingOn.erase waiter).insert waiter waiting } ≤ size machine

theorem running_measure : Measure fun machine : Machine Id Cmd State => FiniteMap.len machine.running where
  retire _ _ _ := FiniteMap.len_erase_le _ _
  forget _ _ := le_rfl
  fail _ _ _ := le_rfl
  release _ _ _ := le_rfl
  keep _ _ _ _ := le_rfl

def Shrinks (size : Machine Id Cmd State → Nat) (completed : Completion Id Cmd State) : Prop :=
  ∀ machine pid status tasks next, completed machine pid status = .ok (tasks,next) → size next ≤ size machine

section Measure
variable {size : Machine Id Cmd State → Nat} (measure : Measure size)
include measure

private theorem resolveWaiter_shrinks {completed : Completion Id Cmd State} (shrinks : Shrinks size completed)
    (machine next : Machine Id Cmd State) (pid waitingPid : Id) (status : ExitStatus) (cond : Condition)
    (tasks : List (Task Id Cmd))
    (ok : resolveWaiter completed pid status machine cond waitingPid = .ok (tasks,next)) :
    size next ≤ size machine := by
  obtain ⟨waiting,found,ok⟩ := Outcome.bind_ok.mp ok
  have waits := FiniteMap.mem_of_lookup ((Outcome.expect_ok _ _ _).mp found)
  split at ok
  · obtain ⟨⟨inner,after⟩,nested,last⟩ := Outcome.bind_ok.mp ok
    obtain ⟨_,rfl⟩ : _ ∧ after = next := by simpa using last
    exact (shrinks _ _ _ _ _ nested).trans (measure.fail machine waitingPid .failure)
  · obtain ⟨_,_,ok⟩ := Outcome.bind_ok.mp ok
    obtain ⟨_,_,ok⟩ := Outcome.bind_ok.mp ok
    split at ok
    · obtain ⟨_,rfl⟩ := Prod.mk.inj (Except.ok.inj ok)
      exact measure.release machine waitingPid waits
    · obtain ⟨_,rfl⟩ := Prod.mk.inj (Except.ok.inj ok)
      exact measure.keep machine waitingPid _ waits

private theorem resolveBlocked_shrinks {completed : Completion Id Cmd State} (shrinks : Shrinks size completed)
    (pid : Id) (status : ExitStatus) (blocked : List (Condition × Id)) (machine next : Machine Id Cmd State)
    (tasks : List (Task Id Cmd))
    (ok : resolveBlocked completed pid status blocked machine = .ok (tasks,next)) :
    size next ≤ size machine := by
  induction blocked generalizing machine tasks with
  | nil =>
    obtain ⟨_,rfl⟩ : _ ∧ machine = next := by simpa [resolveBlocked] using ok
    exact le_rfl
  | cons entry blocked ih =>
    obtain ⟨⟨first,middle⟩,one,ok⟩ := Outcome.bind_ok.mp ok
    obtain ⟨⟨more,last⟩,rest,ok⟩ := Outcome.bind_ok.mp ok
    obtain ⟨_,rfl⟩ : _ ∧ last = next := by simpa using ok
    exact (ih middle more rest).trans (resolveWaiter_shrinks measure shrinks _ _ _ _ _ _ _ one)

private theorem resolveTasksWith_shrinks {completed : Completion Id Cmd State} (shrinks : Shrinks size completed) :
    Shrinks size (resolveTasksWith completed) := by
  intro machine pid status tasks next ok
  unfold resolveTasksWith at ok
  split at ok
  · exact (resolveBlocked_shrinks measure shrinks _ _ _ _ _ _ ok).trans (measure.forget machine pid)
  · obtain ⟨_,rfl⟩ : _ ∧ machine = next := by simpa using ok
    exact le_rfl

theorem completedWith_shrinks (fuel : Nat) : Shrinks size (completedWith fuel : Completion Id Cmd State) := by
  induction fuel with
  | zero =>
    intro machine pid status tasks next ok
    cases ok
  | succ fuel ih =>
    intro machine pid status tasks next ok
    obtain ⟨_,_,ok⟩ := Outcome.bind_ok.mp ok
    exact (resolveTasksWith_shrinks measure ih _ _ _ _ _ ok).trans (measure.retire machine pid status)

theorem resolveTasks_shrinks : Shrinks size (resolveTasks : Completion Id Cmd State) :=
  fun machine _ _ _ _ ok => resolveTasksWith_shrinks measure (completedWith_shrinks measure _) machine _ _ _ _ ok

end Measure

/-- Two completions that answer alike while at most `bound` processes run. -/
def AgreeBelow (bound : Nat) (first second : Completion Id Cmd State) : Prop :=
  ∀ machine pid status, FiniteMap.len machine.running ≤ bound →
    first machine pid status = second machine pid status

private theorem resolveBlocked_agree {bound : Nat} {first second : Completion Id Cmd State}
    (agree : AgreeBelow bound first second)
    (shrinks : Shrinks (fun machine => FiniteMap.len machine.running) first) (pid : Id) (status : ExitStatus)
    (blocked : List (Condition × Id)) (machine : Machine Id Cmd State)
    (small : FiniteMap.len machine.running ≤ bound) :
    resolveBlocked first pid status blocked machine = resolveBlocked second pid status blocked machine := by
  induction blocked generalizing machine with
  | nil => rfl
  | cons entry blocked ih =>
    have one : resolveWaiter first pid status machine entry.1 entry.2 =
        resolveWaiter second pid status machine entry.1 entry.2 := by
      unfold resolveWaiter
      congr 1
      funext waiting
      dsimp only
      rw [agree _ _ _ (by exact small)]
    simp only [resolveBlocked]
    rw [← one]
    cases taken : resolveWaiter first pid status machine entry.1 entry.2 with
    | error panic => rfl
    | ok done =>
      have smaller := (resolveWaiter_shrinks running_measure shrinks _ _ _ _ _ _ _ taken).trans small
      simp only [Outcome.ok_bind]
      rw [ih done.2 smaller]

private theorem resolveTasksWith_agree {bound : Nat} {first second : Completion Id Cmd State}
    (agree : AgreeBelow bound first second)
    (shrinks : Shrinks (fun machine => FiniteMap.len machine.running) first) :
    AgreeBelow bound (resolveTasksWith first) (resolveTasksWith second) := by
  intro machine pid status small
  unfold resolveTasksWith
  split
  · exact resolveBlocked_agree agree shrinks _ _ _ _ small
  · rfl

theorem completedWith_fuel (fuel other : Nat) (machine : Machine Id Cmd State) (pid : Id) (status : ExitStatus)
    (enough : FiniteMap.len machine.running < fuel) (enough' : FiniteMap.len machine.running < other) :
    completedWith fuel machine pid status = completedWith other machine pid status := by
  induction fuel generalizing other machine pid status with
  | zero => omega
  | succ fuel ih =>
    obtain ⟨other,rfl⟩ : ∃ n, other = n + 1 := ⟨other - 1,by omega⟩
    simp only [completedWith]
    by_cases present : pid ∈ machine.running
    · have fewer := FiniteMap.len_erase_lt machine.running pid present
      have agree : AgreeBelow (FiniteMap.len (machine.running.erase pid))
          (completedWith fuel : Completion Id Cmd State) (completedWith other) :=
        fun inner _ _ small => ih other inner _ _ (by omega) (by omega)
      rw [resolveTasksWith_agree agree (completedWith_shrinks running_measure fuel) _ _ _ le_rfl]
    · rw [Outcome.assert_false present]
      rfl

theorem resolveTasks_eq (machine : Machine Id Cmd State) (pid : Id) (status : ExitStatus) :
    machine.resolveTasks pid status = resolveTasksWith completed machine pid status :=
  resolveTasksWith_agree (fun _ _ _ small => completedWith_fuel _ _ _ _ _ (by omega) (by omega))
    (completedWith_shrinks running_measure _) machine pid status le_rfl

/-- The body of `completed` as the source has it. -/
theorem completed_eq (machine : Machine Id Cmd State) (pid : Id) (status : ExitStatus) :
    machine.completed pid status = (do
      Outcome.assert (pid ∈ machine.running)
      resolveTasks { machine with
        running := machine.running.erase pid
        finished := machine.finished.insert pid status } pid status) := by
  unfold completed completedWith
  by_cases present : pid ∈ machine.running
  · have fewer := FiniteMap.len_erase_lt machine.running pid present
    rw [Outcome.assert_true present]
    have agree : AgreeBelow (FiniteMap.len (machine.running.erase pid))
        (completedWith (FiniteMap.len machine.running) : Completion Id Cmd State)
        (completedWith (FiniteMap.len (machine.running.erase pid) + 1)) :=
      fun _ _ _ small => completedWith_fuel _ _ _ _ _ (by omega) (by omega)
    exact resolveTasksWith_agree agree (completedWith_shrinks running_measure _) _ _ _ le_rfl
  · rw [Outcome.assert_false present]
    rfl

private theorem resolveWaiter_fueled {completed : Completion Id Cmd State} (machine : Machine Id Cmd State)
    (pid waitingPid : Id) (status : ExitStatus) (cond : Condition)
    (fueled : ∀ inner, inner.running = machine.running →
      completed inner waitingPid .failure ≠ .error .exhausted) :
    resolveWaiter completed pid status machine cond waitingPid ≠ .error .exhausted := by
  intro exhausted
  unfold resolveWaiter at exhausted
  rcases Outcome.bind_error.mp exhausted with missing | ⟨waiting,_,rest⟩
  · simp at missing
  · split at rest
    · rcases Outcome.bind_error.mp rest with nested | ⟨_,_,last⟩
      · exact fueled _ (by rfl) nested
      · cases last
    · rcases Outcome.bind_error.mp rest with missing | ⟨_,_,rest⟩
      · simp at missing
      · rcases Outcome.bind_error.mp rest with failed | ⟨_,_,last⟩
        · simp at failed
        · split at last <;> cases last

private theorem resolveBlocked_fueled (bound : Nat) {completed : Completion Id Cmd State}
    (fueled : ∀ machine pid status, FiniteMap.len machine.running ≤ bound →
      completed machine pid status ≠ .error .exhausted)
    (shrinks : Shrinks (fun machine => FiniteMap.len machine.running) completed)
    (pid : Id) (status : ExitStatus) (blocked : List (Condition × Id)) (machine : Machine Id Cmd State)
    (small : FiniteMap.len machine.running ≤ bound) :
    resolveBlocked completed pid status blocked machine ≠ .error .exhausted := by
  induction blocked generalizing machine with
  | nil => nofun
  | cons entry blocked ih =>
    intro exhausted
    rcases Outcome.bind_error.mp exhausted with one | ⟨done,one,rest⟩
    · refine resolveWaiter_fueled machine pid entry.2 status entry.1 (fun inner same => ?_) one
      exact fueled _ _ _ (by rw [same]; exact small)
    · rcases Outcome.bind_error.mp rest with more | ⟨_,_,last⟩
      · exact ih done.2 ((resolveWaiter_shrinks running_measure shrinks _ _ _ _ _ _ _ one).trans small) more
      · cases last

/-- The recursion of the source always ends: the depth the model allows is enough. -/
theorem completed_terminates (machine : Machine Id Cmd State) (pid : Id) (status : ExitStatus) :
    machine.completed pid status ≠ .error .exhausted := by
  suffices fueled : ∀ fuel (machine : Machine Id Cmd State) pid status,
      FiniteMap.len machine.running < fuel → completedWith fuel machine pid status ≠ .error .exhausted from
    fueled _ machine pid status (by omega)
  intro fuel
  induction fuel with
  | zero => intro machine pid status enough; omega
  | succ fuel ih =>
    intro machine pid status enough
    simp only [completedWith]
    by_cases present : pid ∈ machine.running
    · have fewer := FiniteMap.len_erase_lt machine.running pid present
      rw [Outcome.assert_true present,Outcome.ok_bind,resolveTasksWith]
      split
      · refine resolveBlocked_fueled (FiniteMap.len (machine.running.erase pid)) ?_
          (completedWith_shrinks running_measure fuel) _ _ _ _ le_rfl
        exact fun inner _ _ small => ih inner _ _ (by omega)
      · nofun
    · rw [Outcome.assert_false present]
      nofun

theorem startCompleted_terminates (machine : Machine Id Cmd State) (pid : Id) (status : ExitStatus) :
    machine.startCompleted pid status ≠ .error .exhausted := by
  unfold startCompleted
  by_cases present : pid ∈ machine.toRun
  · rw [Outcome.assert_true present,Outcome.ok_bind,resolveTasks_eq,resolveTasksWith]
    split
    · refine resolveBlocked_fueled _ (fun inner pid status _ => completed_terminates inner pid status)
        ?_ _ _ _ _ le_rfl
      exact fun inner _ _ _ _ ok => completedWith_shrinks running_measure _ inner _ _ _ _ ok
    · nofun
  · rw [Outcome.assert_false present]
    nofun

end Nak.Machine
