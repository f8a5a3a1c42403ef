import Nak.MachineProgress

/-! Two completions commute. A waiter of both pids is released by whichever of them comes
last, and is left with the same conditions on the way whichever comes first. -/
namespace Nak.Machine
open Library
variable {Id Cmd State : Type} [DecidableEq Id] {machine next final : Machine Id Cmd State}

def completedBoth (machine : Machine Id Cmd State) (first : Id) (status : ExitStatus) (second : Id)
    (other : ExitStatus) : Outcome (List (Task Id Cmd) × Machine Id Cmd State) := do
  let (tasks,machine) ← machine.completed first status
  let (more,machine) ← machine.completed second other
  pure (tasks ++ more,machine)

/-- Both orders panic, or both return the same machine and, up to order, the same tasks. -/
def CompletionsAgree (machine : Machine Id Cmd State) (first : Id) (status : ExitStatus) (second : Id)
    (other : ExitStatus) : Prop :=
  machine.completedBoth first status second other = .error .assertion ∧
      machine.completedBoth second other first status = .error .assertion ∨
    ∃ tasks more final, machine.completedBoth first status second other = .ok (tasks,final) ∧
      machine.completedBoth second other first status = .ok (more,final) ∧ tasks.Perm more

def settleBoth (first second : Id) (waiting : Waiting Id Cmd) : Option (Waiting Id Cmd) :=
  if FiniteMap.len ((waiting.conditions.erase first).erase second) = 0 then none
  else some ⟨waiting.cmd,(waiting.conditions.erase first).erase second⟩

def releasedBoth (machine : Machine Id Cmd State) (first second waiter : Id) : Option (Task Id Cmd) :=
  (machine.waitingOn.lookup waiter).bind fun waiting =>
    if FiniteMap.len ((waiting.conditions.erase first).erase second) = 0 then some (.start waiter waiting.cmd)
    else none

theorem settleBoth_comm (first second : Id) (waiting : Waiting Id Cmd) :
    settleBoth first second waiting = settleBoth second first waiting := by
  rw [settleBoth,settleBoth,Finmap.erase_erase]

theorem releasedBoth_comm (machine : Machine Id Cmd State) (first second waiter : Id) :
    machine.releasedBoth first second waiter = machine.releasedBoth second first waiter := by
  unfold releasedBoth
  congr 1
  funext waiting
  rw [Finmap.erase_erase]

private theorem erase_empty {conditions : FiniteMap Id Condition} (empty : FiniteMap.len conditions = 0)
    (pid : Id) : FiniteMap.len (conditions.erase pid) = 0 :=
  Nat.le_zero.mp ((FiniteMap.len_erase_le conditions pid).trans_eq empty)

theorem settle_settle (first second : Id) (waiting : Waiting Id Cmd) :
    (settle first waiting).bind (settle second) = settleBoth first second waiting := by
  unfold settle settleBoth
  split
  · rename_i last
    rw [if_pos (erase_empty last second)]
    rfl
  · rfl

namespace Finishes
variable {pid other : Id} {status later : ExitStatus} {tasks more : List (Task Id Cmd)}

theorem undisputed_iff (finishes : Finishes machine pid status tasks next) (different : other ≠ pid) :
    next.Undisputed other later ↔ machine.Undisputed other later := by
  constructor
  · intro undisputed waiter before cond found listed
    have kept : (before.conditions.erase pid).lookup other = some cond := by
      rw [Finmap.lookup_erase_ne different,listed]
    rcases finishes.waiter found with ⟨_,stays⟩ | ⟨last,_,_⟩
    · exact undisputed waiter _ cond stays kept
    · rw [(FiniteMap.len_eq_zero _).mp last other] at kept
      cases kept
  · intro undisputed waiter waiting cond found listed
    obtain ⟨before,old,_,erased,_⟩ := finishes.waiting found
    rw [erased,Finmap.lookup_erase_ne different] at listed
    exact undisputed waiter before cond old listed

theorem releasedBoth (finishes : Finishes machine pid status tasks next) (waiter : Id) :
    (machine.released pid waiter).or (next.released other waiter) = machine.releasedBoth pid other waiter := by
  cases found : machine.waitingOn.lookup waiter with
  | none =>
    have gone : next.waitingOn.lookup waiter = none := by rw [finishes.waitingOn,found]; rfl
    rw [Machine.released,Machine.released,Machine.releasedBoth,found,gone]
    rfl
  | some before =>
    rcases finishes.waiter found with ⟨more,stays⟩ | ⟨last,gone,released⟩
    · rw [Machine.released,Machine.released,Machine.releasedBoth,found,stays,Option.bind_some,if_neg more]
      rfl
    · rw [released,Machine.releasedBoth,found,Option.bind_some,if_pos (erase_empty last other)]
      rfl

theorem tasks_nodup (finishes : Finishes machine pid status tasks next) (inv : Inv machine) : tasks.Nodup := by
  rw [finishes.tasks]
  refine (inv.distinct pid).filterMap fun first second task one two => ?_
  obtain ⟨_,_,rfl⟩ := released_start one
  obtain ⟨_,_,same⟩ := released_start two
  exact (Task.start.inj same).1

end Finishes

/-- The machine once two pids have finished. -/
structure FinishesBoth (machine : Machine Id Cmd State) (first : Id) (status : ExitStatus) (second : Id)
    (other : ExitStatus) (tasks : List (Task Id Cmd)) (final : Machine Id Cmd State) : Prop where
  finished : final.finished = (machine.finished.insert first status).insert second other
  running : final.running = (machine.running.erase first).erase second
  toRun : ∀ waiter, waiter ∈ final.toRun ↔
    waiter ∈ machine.toRun ∧ waiter ≠ first ∧ waiter ≠ second ∨ (machine.releasedBoth first second waiter).isSome
  checkOnCompleted : final.checkOnCompleted = (machine.checkOnCompleted.erase first).erase second
  waitingOn : ∀ waiter, final.waitingOn.lookup waiter =
    (machine.waitingOn.lookup waiter).bind (settleBoth first second)
  nodup : tasks.Nodup
  tasks : ∀ task, task ∈ tasks ↔ ∃ waiter, machine.releasedBoth first second waiter = some task

section Both
variable {first second : Id} {status other : ExitStatus} {tasks more : List (Task Id Cmd)}

theorem Finishes.both (finishes : Finishes machine first status tasks next)
    (again : Finishes next second other more final) (inv : Inv machine) (after : Inv next)
    (running : second ∈ machine.running) :
    FinishesBoth machine first status second other (tasks ++ more) final := by
  have both (waiter : Id) (task : Task Id Cmd) :
      machine.releasedBoth first second waiter = some task ↔
        machine.released first waiter = some task ∨ machine.released first waiter = none ∧
          next.released second waiter = some task := by
    rw [← finishes.releasedBoth waiter,Option.or_eq_some_iff]
  have apart (waiter : Id) (released : (machine.released first waiter).isSome) :
      waiter ≠ second ∧ next.released second waiter = none := by
    obtain ⟨task,released⟩ := Option.isSome_iff_exists.mp released
    obtain ⟨before,found,_⟩ := released_start released
    constructor
    · intro same
      exact inv.waiting_not_running found (same ▸ running)
    · rw [Machine.released,finishes.gone released]
      rfl
  constructor
  · rw [again.finished,finishes.finished]
  · rw [again.running,finishes.running]
  · intro waiter
    rw [again.toRun,finishes.toRun,← finishes.releasedBoth waiter,Option.isSome_or,Bool.or_eq_true]
    constructor
    · intro either
      rcases either with ⟨old | released,different⟩ | released
      · exact Or.inl ⟨old.1,old.2,different⟩
      · exact Or.inr (Or.inl released)
      · exact Or.inr (Or.inr released)
    · intro either
      rcases either with ⟨old,one,two⟩ | released | released
      · exact Or.inl ⟨Or.inl ⟨old,one⟩,two⟩
      · exact Or.inl ⟨Or.inr released,(apart waiter released).1⟩
      · exact Or.inr released
  · rw [again.checkOnCompleted,finishes.checkOnCompleted]
  · intro waiter
    rw [again.waitingOn,finishes.waitingOn,Option.bind_assoc]
    congr 1
    funext waiting
    exact settle_settle first second waiting
  · refine (finishes.tasks_nodup inv).append (again.tasks_nodup after) fun task one two => ?_
    obtain ⟨waiter,now⟩ := (finishes.mem_tasks inv task).mp one
    obtain ⟨second,later⟩ := (again.mem_tasks after task).mp two
    obtain ⟨_,_,rfl⟩ := released_start now
    obtain ⟨_,_,same⟩ := released_start later
    obtain rfl := (Task.start.inj same).1
    rw [(apart waiter (by rw [now]; rfl)).2] at later
    cases later
  · intro task
    rw [List.mem_append,finishes.mem_tasks inv,again.mem_tasks after]
    constructor
    · intro either
      rcases either with ⟨waiter,released⟩ | ⟨waiter,released⟩
      · exact ⟨waiter,(both waiter task).mpr (Or.inl released)⟩
      · refine ⟨waiter,(both waiter task).mpr (Or.inr ⟨?_,released⟩)⟩
        by_contra some
        rw [(apart waiter (Option.isSome_iff_ne_none.mpr some)).2] at released
        cases released
    · intro given
      obtain ⟨waiter,released⟩ := given
      rcases (both waiter task).mp released with now | ⟨_,later⟩
      · exact Or.inl ⟨waiter,now⟩
      · exact Or.inr ⟨waiter,later⟩

theorem FinishesBoth.comm (ahead : FinishesBoth machine first status second other tasks next)
    (behind : FinishesBoth machine second other first status more final) (different : first ≠ second) :
    next = final ∧ tasks.Perm more := by
  refine ⟨Machine.ext ?_ ?_ ?_ ?_ ?_,?_⟩
  · rw [ahead.finished,behind.finished,Finmap.insert_insert_of_ne _ different]
  · ext waiter
    rw [ahead.toRun,behind.toRun,releasedBoth_comm,and_comm (a := waiter ≠ first)]
  · rw [ahead.running,behind.running,Finmap.erase_erase]
  · rw [ahead.checkOnCompleted,behind.checkOnCompleted,Finmap.erase_erase]
  · refine Finmap.ext_lookup fun waiter => ?_
    rw [ahead.waitingOn,behind.waitingOn]
    congr 1
    funext waiting
    exact settleBoth_comm first second waiting
  · rw [List.perm_ext_iff_of_nodup ahead.nodup behind.nodup]
    intro task
    rw [ahead.tasks,behind.tasks]
    simp only [releasedBoth_comm machine first second]

theorem Inv.completedBoth_finishes (inv : Inv machine) (different : first ≠ second) (running : first ∈ machine.running)
    (running' : second ∈ machine.running) (undisputed : machine.Undisputed first status)
    (undisputed' : machine.Undisputed second other) :
    ∃ tasks final, machine.completedBoth first status second other = .ok (tasks,final) ∧
      FinishesBoth machine first status second other tasks final := by
  obtain ⟨tasks,next,ok,finishes⟩ := inv.completed_finishes first status running undisputed
  have after := finishes.inv inv (Or.inr running)
  have still : second ∈ next.running := by
    rw [finishes.running]
    exact Finmap.mem_erase.mpr ⟨different.symm,running'⟩
  obtain ⟨more,final,again,finishes'⟩ := after.completed_finishes second other still
    ((finishes.undisputed_iff different.symm).mpr undisputed')
  refine ⟨tasks ++ more,final,?_,finishes.both finishes' inv after running'⟩
  simp only [completedBoth,ok,again,Outcome.ok_bind,Outcome.pure_ok]

theorem Inv.completedBoth_disputed (inv : Inv machine) (different : first ≠ second) (running : first ∈ machine.running)
    (running' : second ∈ machine.running)
    (disputed : ¬machine.Undisputed first status ∨ ¬machine.Undisputed second other) :
    machine.completedBoth first status second other = .error .assertion := by
  by_cases undisputed : machine.Undisputed first status
  · obtain ⟨tasks,next,ok,finishes⟩ := inv.completed_finishes first status running undisputed
    have still : second ∈ next.running := by
      rw [finishes.running]
      exact Finmap.mem_erase.mpr ⟨different.symm,running'⟩
    have later : ¬next.Undisputed second other := by
      rw [finishes.undisputed_iff different.symm]
      exact disputed.resolve_left (not_not_intro undisputed)
    have panics := (finishes.inv inv (Or.inr running)).completed_disputed second other still later
    simp only [completedBoth,ok,panics,Outcome.ok_bind,Outcome.error_bind]
  · simp only [completedBoth,inv.completed_disputed first status running undisputed,Outcome.error_bind]

end Both

theorem completions_commute (reachable : system.Reachable machine) {first second : Id} (different : first ≠ second)
    (running : first ∈ machine.running) (running' : second ∈ machine.running) (status other : ExitStatus) :
    CompletionsAgree machine first status second other := by
  have inv := reachable_inv reachable
  by_cases undisputed : machine.Undisputed first status ∧ machine.Undisputed second other
  · obtain ⟨one,two⟩ := undisputed
    obtain ⟨tasks,next,ahead,finishes⟩ := inv.completedBoth_finishes different running running' one two
    obtain ⟨more,final,behind,finishes'⟩ := inv.completedBoth_finishes different.symm running' running two one
    obtain ⟨rfl,same⟩ := finishes.comm finishes' different
    exact Or.inr ⟨tasks,more,next,ahead,behind,same⟩
  · have disputed := not_and_or.mp undisputed
    exact Or.inl ⟨inv.completedBoth_disputed different running running' disputed,
      inv.completedBoth_disputed different.symm running' running disputed.symm⟩

/-- Two pids with a shared waiter and one waiter each. -/
theorem completions_commute_shared : ∃ machine : Machine Nat String String, system.Reachable machine ∧
    0 ∈ machine.running ∧ 1 ∈ machine.running ∧ CompletionsAgree machine 0 .success 1 .failure := by
  have reachable := replay_reachable ([.enqueue 0 "configure" ∅,.enqueue 1 "fetch" ∅,
    .enqueue 2 "make" (AList.insert 1 none (AList.singleton (0 : Nat) (some ExitStatus.success))),
    .enqueue 3 "ls" (AList.singleton 0 none),.start 0 "child",.start 1 "child"] : List (Call Nat String String)) rfl
  exact ⟨_,reachable,by decide,by decide,
    completions_commute reachable (by decide) (by decide) (by decide) .success .failure⟩

end Nak.Machine
