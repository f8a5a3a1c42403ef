import Nak.ExecOrder

/-! The task loop ends and drains. A task is dealt with by a call on the machine, whatever
`run` answers for its pid, and the queue holds a task for each pid that is to run. -/
namespace Nak
open Library Action

namespace Machine
variable {Id Cmd State : Type} [DecidableEq Id] {machine next : Machine Id Cmd State} {task : Task Id Cmd}
  {tasks queue rest : List (Task Id Cmd)}

/-- The pid that the call takes out of `to_run`. -/
def taken? : Call Id Cmd State → Option Id
  | .start pid _ => some pid
  | .startCompleted pid _ => some pid
  | _ => none

theorem CallCases.toRun {call : Call Id Cmd State} (inv : Inv machine) (cases : CallCases machine call tasks next)
    {other : Id} (toRun : other ∈ next.toRun) :
    other ∈ machine.toRun ∧ taken? call ≠ some other ∨ ∃ cmd, .start other cmd ∈ tasks := by
  have finished {pid : Id} {status : ExitStatus} (finishes : Finishes machine pid status tasks next) :
      other ∈ machine.toRun ∧ pid ≠ other ∨ ∃ cmd, .start other cmd ∈ tasks := by
    rcases (finishes.toRun other).mp toRun with ⟨old,different⟩ | some
    · exact Or.inl ⟨old,different.symm⟩
    · obtain ⟨task,released⟩ := Option.isSome_iff_exists.mp some
      obtain ⟨waiting,_,rfl⟩ := released_start released
      exact Or.inr ⟨waiting.cmd,(finishes.mem_tasks inv _).mpr ⟨other,released⟩⟩
  cases cases with
  | enqueue pid cmd blockFor tasks next fresh enqueued =>
    cases enqueued with
    | refused => exact Or.inl ⟨toRun,by simp [taken?]⟩
    | ready =>
      rcases Finset.mem_insert.mp toRun with rfl | old
      · exact Or.inr ⟨cmd,by simp⟩
      · exact Or.inl ⟨old,by simp [taken?]⟩
    | blocked _ _ _ after =>
      rw [after.toRun] at toRun
      exact Or.inl ⟨toRun,by simp [taken?]⟩
  | start pid state =>
    obtain ⟨different,old⟩ := Finset.mem_erase.mp toRun
    exact Or.inl ⟨old,by simpa [taken?] using different.symm⟩
  | startCompleted pid status tasks next _ _ finishes => simpa [taken?] using finished finishes
  | completed pid status tasks next _ _ finishes =>
    exact (finished finishes).imp_left fun old => ⟨old.1,by simp [taken?]⟩

/-- The queue has a task for each pid that is to run. -/
def Queued (machine : Machine Id Cmd State) (queue : List (Task Id Cmd)) : Prop :=
  ∀ pid ∈ machine.toRun, ∃ cmd, .start pid cmd ∈ queue

theorem Queued.call {call : Call Id Cmd State} (queued : Queued machine queue) (inv : Inv machine)
    (cases : CallCases machine call tasks next) : Queued next (queue ++ tasks) := by
  intro pid toRun
  rcases cases.toRun inv toRun with ⟨old,_⟩ | ⟨cmd,new⟩
  · obtain ⟨cmd,member⟩ := queued pid old
    exact ⟨cmd,List.mem_append_left _ member⟩
  · exact ⟨cmd,List.mem_append_right _ new⟩

def Drained (machine : Machine Id Cmd State) : Prop := system.Reachable machine ∧ machine.toRun = ∅

theorem Drained.queued (drained : Drained machine) : Queued machine [] := by
  intro pid toRun
  rw [drained.2] at toRun
  simp at toRun

theorem Drained.called (drained : Drained machine) (call : Call Id Cmd State)
    (taken : machine.call call = .ok (tasks,next)) : system.Reachable next ∧ Queued next tasks := by
  have inv := reachable_inv drained.1
  obtain ⟨trace,run⟩ := drained.1
  exact ⟨⟨trace ++ [(call,tasks)],.step run taken⟩,drained.queued.call inv (inv.call_cases taken)⟩

/-- The calls on the machine that deal with one task. -/
inductive Deals (machine : Machine Id Cmd State) : Task Id Cmd → List (Task Id Cmd) → Machine Id Cmd State → Prop
  | refused (pid cmd) : Deals machine (.conditionFailed pid cmd) [] machine
  | called (pid cmd call tasks next) (takes : taken? call = some pid) (called : machine.call call = .ok (tasks,next)) :
      Deals machine (.start pid cmd) tasks next

namespace Deals

theorem reachable (deals : Deals machine task tasks next) (reachable : system.Reachable machine) :
    system.Reachable next := by
  cases deals with
  | refused => exact reachable
  | called pid cmd call tasks next takes called =>
    obtain ⟨trace,run⟩ := reachable
    exact ⟨trace ++ [(call,tasks)],.step run called⟩

theorem finished (deals : Deals machine task tasks next) (inv : Inv machine) {pid : Id} {status : ExitStatus}
    (found : machine.finished.lookup pid = some status) : next.finished.lookup pid = some status := by
  cases deals with
  | refused => exact found
  | called other cmd call tasks next takes called => exact (inv.call_cases called).finished inv found

theorem queued (deals : Deals machine task tasks next) (inv : Inv machine) (queued : Queued machine (task :: rest)) :
    Queued next (rest ++ tasks) := by
  intro other toRun
  cases deals with
  | refused pid cmd =>
    obtain ⟨cmd',member⟩ := queued other toRun
    exact ⟨cmd',by simpa using member⟩
  | called pid cmd call tasks next takes called =>
    rcases (inv.call_cases called).toRun inv toRun with ⟨old,left⟩ | ⟨cmd',new⟩
    · obtain ⟨cmd',member⟩ := queued other old
      rcases List.mem_cons.mp member with first | later
      · obtain ⟨rfl,_⟩ := Task.start.inj first
        exact absurd takes left
      · exact ⟨cmd',List.mem_append_left _ later⟩
    · exact ⟨cmd',List.mem_append_right _ new⟩

theorem unstarted (deals : Deals machine task tasks next) :
    next.unstarted ≤ machine.unstarted ∧ (tasks ≠ [] → next.unstarted < machine.unstarted) := by
  cases deals with
  | refused => exact ⟨le_rfl,by simp⟩
  | called pid cmd call tasks next takes called =>
    cases call with
    | start other state =>
      obtain ⟨_,started,last⟩ := Outcome.bind_ok.mp called
      obtain ⟨rfl,rfl⟩ := Prod.mk.inj (Except.ok.inj last)
      obtain ⟨_,toRun,last⟩ := Outcome.bind_ok.mp started
      obtain rfl := Except.ok.inj last
      have fewer := Finset.card_le_card (Finset.erase_subset other machine.toRun)
      refine ⟨?_,by simp⟩
      simp only [Machine.unstarted]
      omega
    | startCompleted other status =>
      have fewer := startCompleted_unstarted called
      exact ⟨fewer.le,fun _ => fewer⟩
    | enqueue => simp [taken?] at takes
    | completed => simp [taken?] at takes

end Deals

/-- Every task of the queue starts a pid that is to run, and no two the same. -/
structure Lined (machine : Machine Id Cmd State) (queue : List (Task Id Cmd)) : Prop where
  starts : ∀ task ∈ queue, ∃ cmd, task = .start task.pid cmd ∧ task.pid ∈ machine.toRun
  distinct : (queue.map Task.pid).Nodup

private theorem released_pids (pid : Id) (waiters : List Id) :
    ((waiters.filterMap (machine.released pid)).map Task.pid).Sublist waiters := by
  induction waiters with
  | nil => simp
  | cons waiter waiters ih =>
    cases released : machine.released pid waiter with
    | none => simpa [released] using ih.cons waiter
    | some task =>
      obtain ⟨waiting,_,rfl⟩ := released_start released
      simpa [released,Task.pid] using ih

theorem Finishes.lined {pid : Id} {status : ExitStatus} (finishes : Finishes machine pid status tasks next)
    (inv : Inv machine) (lined : Lined machine queue) (absent : pid ∉ queue.map Task.pid) :
    Lined next (queue ++ tasks) where
  starts := by
    intro task member
    rcases List.mem_append.mp member with old | new
    · obtain ⟨cmd,shape,toRun⟩ := lined.starts task old
      refine ⟨cmd,shape,(finishes.toRun _).mpr (Or.inl ⟨toRun,fun same => absent ?_⟩)⟩
      exact same ▸ List.mem_map_of_mem old
    · obtain ⟨waiter,waiting,_,rfl,toRun,_⟩ := finishes.task_starts inv new
      exact ⟨waiting.cmd,rfl,toRun⟩
  distinct := by
    rw [List.map_append]
    refine lined.distinct.append ?_ ?_
    · rw [finishes.tasks]
      exact (released_pids pid _).nodup (inv.distinct pid)
    · intro other old new
      obtain ⟨task,member,rfl⟩ := List.mem_map.mp old
      obtain ⟨_,_,toRun⟩ := lined.starts task member
      obtain ⟨task',member',same⟩ := List.mem_map.mp new
      obtain ⟨waiter,waiting,found,rfl,_⟩ := finishes.task_starts inv member'
      obtain rfl : waiter = task.pid := same
      exact (inv.toRun_apart _ toRun).2 (FiniteMap.mem_of_lookup found)

theorem Finishes.lined_tasks {pid : Id} {status : ExitStatus} (finishes : Finishes machine pid status tasks next)
    (inv : Inv machine) : Lined next tasks :=
  finishes.lined inv (⟨by simp,by simp⟩ : Lined machine []) (by simp)

theorem Finishes.unique {pid : Id} {status : ExitStatus} {tasks' : List (Task Id Cmd)} {next' : Machine Id Cmd State}
    (first : Finishes machine pid status tasks next) (second : Finishes machine pid status tasks' next') :
    tasks' = tasks ∧ next' = next := by
  refine ⟨second.tasks.trans first.tasks.symm,?_⟩
  apply Machine.ext
  · rw [first.finished,second.finished]
  · ext waiter
    rw [first.toRun,second.toRun]
  · rw [first.running,second.running]
  · rw [first.checkOnCompleted,second.checkOnCompleted]
  · refine Finmap.ext_lookup fun waiter => ?_
    rw [first.waitingOn,second.waitingOn]

theorem Deals.lined (deals : Deals machine task tasks next) (inv : Inv machine) (lined : Lined machine (task :: rest)) :
    Lined next (rest ++ tasks) := by
  obtain ⟨starts,distinct⟩ := lined
  rw [List.map_cons,List.nodup_cons] at distinct
  obtain ⟨absent,distinct⟩ := distinct
  have later : Lined machine rest := ⟨fun task member => starts task (List.mem_cons_of_mem _ member),distinct⟩
  cases deals with
  | refused pid cmd =>
    obtain ⟨_,shape,_⟩ := starts _ (List.mem_cons_self ..)
    cases shape
  | called pid cmd call tasks next takes called =>
    cases inv.call_cases called with
    | enqueue => simp [taken?] at takes
    | start other state toRun =>
      obtain rfl := Option.some.inj takes
      rw [List.append_nil]
      refine ⟨?_,distinct⟩
      intro task member
      obtain ⟨cmd',shape,toRun⟩ := later.starts task member
      refine ⟨cmd',shape,Finset.mem_erase.mpr ⟨fun same => absent ?_,toRun⟩⟩
      rw [Task.pid,← same]
      exact List.mem_map_of_mem member
    | startCompleted other status tasks next toRun undisputed finishes =>
      obtain rfl := Option.some.inj takes
      exact finishes.lined inv later absent
    | completed => simp [taken?] at takes

end Machine

namespace ExecInternal
variable {os : Os} {exec next : ExecInternal} {task : Task ProcessId RunCmd} {tasks : List (Task ProcessId RunCmd)}

/-- What `run` may be for the task loop: it leaves the machine alone. -/
structure Runner where
  run : ProcessId → RunCmd → Exec RunResult
  keeps : ∀ pid cmd, Keeps (fun exec next => next.machine = exec.machine) (run pid cmd)
  ends : ∀ pid cmd, Avoids .exhausted (run pid cmd)

def Runner.processTask (runner : Runner) (os : Os) : Task ProcessId RunCmd → Exec (List (Task ProcessId RunCmd))
  | .start pid cmd => do
    let pipes := cmd.pipes
    match ← (runner.run pid cmd).result with
    | .ok (.process state) =>
      onMachine fun machine => do pure ([],← machine.start pid state)
    | .ok (.alreadyDone exitCode) =>
      let newTasks ← onMachine fun machine => machine.startCompleted pid (.fromExitCode exitCode)
      (commandResult os pid 0).unwrap
      pure newTasks
    | .error e =>
      let newTasks ← onMachine fun machine => machine.startCompleted pid .failure
      pipeOutputAndClose os pipes [] (bytes e.debug)
      commandResult os pid 1
      pure newTasks
  | .conditionFailed pid _ => do
    (commandResult os pid 1).unwrap
    pure []

theorem Runner.processTask_deals {runner : Runner} (ok : runner.processTask os task exec = .ok (.ok tasks,next)) :
    exec.machine.Deals task tasks next.machine := by
  cases task with
  | conditionFailed pid cmd =>
    obtain ⟨rfl,rfl⟩ := refused_ok ok
    exact .refused pid cmd
  | start pid cmd =>
    obtain ⟨result,middle,ran,ok⟩ := bind_ok.mp ok
    obtain ⟨_,same,ran⟩ := result_ok.mp ran
    obtain rfl := Except.ok.inj same
    have kept : middle.machine = exec.machine := (runner.keeps pid cmd).after ran
    rw [← kept]
    have cases : AnswerCases os pid cmd middle result tasks next := answered_cases ok
    cases cases with
    | started state machine started =>
      exact .called pid cmd (.start pid state) _ _ rfl (Outcome.bind_ok.mpr ⟨machine,started,rfl⟩)
    | done exitCode tasks machine completed =>
      exact .called pid cmd (.startCompleted pid (.fromExitCode exitCode)) _ _ rfl completed
    | failed e tasks machine after completed closed =>
      have quiet := ((quiet_frame os).pipeOutputAndClose _ _ _).after closed
      rw [show (report after pid 1).machine = machine from quiet.machine]
      exact .called pid cmd (.startCompleted pid .failure) _ _ rfl completed

theorem Runner.processTask_drops (runner : Runner) :
    Drops (runner.processTask os) fun exec => exec.machine.unstarted where
  drops ok := (runner.processTask_deals ok).unstarted

section Fuel
variable (os)

theorem expect_fueled {α : Type} (message : String) (option : Option α) :
    Outcome.expect message option ≠ .error .exhausted := by
  simp

theorem nextHandle_fueled : Avoids .exhausted nextHandle :=
  .bind .get fun _ => .bind (.modify _) fun _ => .pure _

theorem allocPipe_fueled (pipe : GenericPipe) : Avoids .exhausted (allocPipe os pipe) := by
  unfold allocPipe
  split
  · exact nextHandle_fueled
  · exact .panic (by simp)

theorem takeEnd_fueled {α : Type} (side : PipeSide α) (pipe : GenericPipe) :
    Avoids .exhausted (takeEnd os side pipe) := by
  unfold takeEnd
  apply Avoids.bind .get
  intro exec
  split
  · apply Avoids.bind (.lift (expect_fueled _ _))
    intro pair
    apply Avoids.bind (.lift (expect_fueled _ _))
    intro handle
    exact .bind (.modify _) fun _ => .pure _
  · apply Avoids.bind (allocPipe_fueled os _)
    intro number
    exact .bind (.modify _) fun _ => .pure _

theorem readEnd_fueled (pipe : ReadPipe) : Avoids .exhausted (readEnd os pipe) := by
  rw [readEnd_eq]
  exact takeEnd_fueled os _ _

theorem writeEnd_fueled (pipe : WritePipe) : Avoids .exhausted (writeEnd os pipe) := by
  rw [writeEnd_eq]
  exact takeEnd_fueled os _ _

theorem pipeAndClose_fueled (pipe : WritePipe) (handle : OutputPipe) (data : Bytes) :
    Avoids .exhausted (pipeAndClose pipe handle data) := by
  unfold pipeAndClose
  split <;> exact .modify _

theorem pipeOutputAndClose_fueled (pipes : WritePipes) (stdout stderr : Bytes) :
    Avoids .exhausted (pipeOutputAndClose os pipes stdout stderr) := by
  unfold pipeOutputAndClose
  apply Avoids.bind (writeEnd_fueled os _)
  intro handle
  apply Avoids.bind (pipeAndClose_fueled _ _ _)
  intro _
  apply Avoids.bind (writeEnd_fueled os _)
  intro handle
  exact pipeAndClose_fueled _ _ _

theorem send_fueled (response : RemoteResponse) : Avoids .exhausted (send os response) :=
  .bind (.propagate _) fun _ => .modify _

theorem readContents_fueled (pid : ProcessId) : Avoids .exhausted (readContents os pid) := by
  unfold readContents
  split
  · exact .propagate _
  · split
    · exact .raise _
    · exact .pure _

theorem run_fueled (pid : ProcessId) (c : RunCmd) : Avoids .exhausted (run os pid c) := by
  have closing (code : Int) (stdout stderr : Bytes) : Avoids .exhausted
      (do pipeOutputAndClose os c.pipes stdout stderr; pure (.alreadyDone code) : Exec RunResult) :=
    .bind (pipeOutputAndClose_fueled os _ _ _) fun _ => .pure _
  unfold run
  apply Avoids.bind (.modify _)
  intro _
  split
  · apply Avoids.bind (readEnd_fueled os _)
    intro stdin
    apply Avoids.bind (writeEnd_fueled os _)
    intro stdout
    apply Avoids.bind (writeEnd_fueled os _)
    intro stderr
    apply Avoids.bind (.propagate _)
    intro handle
    exact .bind (.modify _) fun _ => .pure _
  · split
    · exact .bind (.modify _) fun _ => closing _ _ _
    · exact closing _ _ _
  · split <;> exact closing _ _ _
  · apply Avoids.bind (readContents_fueled os pid)
    intro contents
    refine .bind (.bind .get fun _ => .bind (.modify _) fun _ => send_fueled os _) fun _ => .pure _

theorem onMachine_fueled {call : Machine ProcessId RunCmd ProcessState →
      Outcome (List (Task ProcessId RunCmd) × Machine ProcessId RunCmd ProcessState)}
    (fueled : ∀ machine, call machine ≠ .error .exhausted) : Avoids .exhausted (onMachine call) :=
  .bind .get fun exec => .bind (.lift (fueled exec.machine)) fun _ => .bind (.modify _) fun _ => .pure _

theorem start_fueled (machine : Machine ProcessId RunCmd ProcessState) (pid : ProcessId) (state : ProcessState) :
    (do pure ([],← machine.start pid state) : Outcome (List (Task ProcessId RunCmd) × _)) ≠ .error .exhausted := by
  intro exhausted
  rcases Outcome.bind_error.mp exhausted with started | ⟨_,_,last⟩
  · rcases Outcome.bind_error.mp started with checked | ⟨_,_,last⟩
    · simp at checked
    · cases last
  · cases last

theorem Runner.processTask_fueled (runner : Runner) (task : Task ProcessId RunCmd) :
    Avoids .exhausted (runner.processTask os task) := by
  have reported (pid : ProcessId) (code : Int) : Avoids .exhausted (commandResult os pid code) := send_fueled os _
  have completes (pid : ProcessId) (status : ExitStatus) :
      Avoids .exhausted (onMachine fun machine => machine.startCompleted pid status) :=
    onMachine_fueled fun machine => machine.startCompleted_terminates pid status
  cases task with
  | conditionFailed pid cmd => exact .bind ((reported pid 1).unwrap (by simp)) fun _ => .pure _
  | start pid cmd =>
    apply Avoids.bind (runner.ends pid cmd).result
    intro result
    rcases result with e | state | exitCode
    · apply Avoids.bind (completes pid .failure)
      intro new
      apply Avoids.bind (pipeOutputAndClose_fueled os _ _ _)
      intro _
      exact .bind (reported pid 1) fun _ => .pure _
    · exact onMachine_fueled fun machine => start_fueled machine pid state
    · apply Avoids.bind (completes pid _)
      intro new
      exact .bind ((reported pid 0).unwrap (by simp)) fun _ => .pure _

end Fuel

def Runner.real (os : Os) : Runner where
  run := ExecInternal.run os
  keeps pid cmd := ⟨fun ran => (((quiet_frame os).run pid cmd).after ran).machine⟩
  ends := run_fueled os

theorem Runner.processTask_real : (Runner.real os).processTask os = ExecInternal.processTask os := by
  funext task
  cases task <;> rfl

theorem processTask_deals (ok : ExecInternal.processTask os task exec = .ok (.ok tasks,next)) :
    exec.machine.Deals task tasks next.machine := by
  rw [← Runner.processTask_real] at ok
  exact Runner.processTask_deals ok

theorem Runner.drains {runner : Runner} {count : Nat} (reachable : Machine.system.Reachable exec.machine)
    (queued : exec.machine.Queued tasks)
    (rounds : Rounds (runner.processTask os) count tasks exec (.ok (.ok (),next))) :
    next.machine.Drained := by
  have both : Machine.system.Reachable next.machine ∧ next.machine.Queued [] := by
    refine rounds.queue (fun queue exec => Machine.system.Reachable exec.machine ∧ exec.machine.Queued queue) ?_
      ⟨reachable,queued⟩
    intro task rest exec new next both ok
    obtain ⟨reachable,queued⟩ := both
    have deals := runner.processTask_deals ok
    exact ⟨deals.reachable reachable,deals.queued (Machine.reachable_inv reachable) queued⟩
  obtain ⟨after,empty⟩ := both
  refine ⟨after,Finset.eq_empty_of_forall_notMem fun pid toRun => ?_⟩
  obtain ⟨cmd,member⟩ := empty pid toRun
  simp at member

theorem processTasks_drains (reachable : Machine.system.Reachable exec.machine) (queued : exec.machine.Queued tasks)
    (ok : processTasks os tasks exec = .ok (.ok (),next)) :
    next.machine.Drained := by
  obtain ⟨count,_,rounds⟩ := @processTasks_rounds os exec tasks
  rw [ok,← Runner.processTask_real] at rounds
  exact Runner.drains reachable queued rounds

/-- Between two events no pid is to run. -/
theorem reachable_drained (reachable : system.Reachable exec) : exec.machine.Drained := by
  refine reachable.invariant (fun exec => exec.machine.Drained) ?_ ?_
  · intro _ same
    obtain rfl := same
    exact ⟨⟨[],.initial rfl⟩,rfl⟩
  · intro exec label next before taken
    obtain ⟨os,event⟩ := label
    change handle os event exec = .ok next at taken
    obtain ⟨tasks,start,begins,processed⟩ := handle_begins taken
    suffices begun : Machine.system.Reachable start.machine ∧ start.machine.Queued tasks from
      processTasks_drains begun.1 begun.2 processed
    cases begins with
    | enqueued pid cmd blockFor tasks machine enqueued => exact before.called (.enqueue pid cmd blockFor) enqueued
    | completed pid exitCode tasks machine completed => exact before.called (.completed pid _) completed
    | edited editId data pid path tasks machine found completed => exact before.called (.completed pid _) completed
    | idle event next idle =>
      rw [idle.machine]
      exact ⟨before.1,before.queued⟩

theorem reachable_settled (reachable : system.Reachable exec) {pid : ProcessId} (known : exec.machine.Known pid) :
    pid ∈ exec.machine.finished ∨ pid ∈ exec.machine.running ∨ pid ∈ exec.machine.waitingOn := by
  rcases known with finished | toRun | other
  · exact Or.inl finished
  · rw [(reachable_drained reachable).2] at toRun
    simp at toRun
  · exact Or.inr other

def Starts (machine : Machine ProcessId RunCmd ProcessState) (tasks : List (Task ProcessId RunCmd)) : Prop :=
  ∀ pid, pid ∈ machine.toRun ↔ ∃ cmd, .start pid cmd ∈ tasks

/-- Whatever `run` answers, the loop ends, and when it returns nothing is left to run; so every
pid that is known between two events has finished, runs or waits. -/
theorem tasks_drain :
    (∀ (runner : Runner) (os : Os) (exec : ExecInternal) (tasks : List (Task ProcessId RunCmd)),
      Machine.system.Reachable exec.machine → Starts exec.machine tasks →
        (∃ count outcome, count ≤ exec.machine.unstarted + 1 ∧
          Rounds (runner.processTask os) count tasks exec outcome) ∧
        ∀ count outcome, Rounds (runner.processTask os) count tasks exec outcome → outcome ≠ .error .exhausted ∧
          ∀ next, outcome = .ok (.ok (),next) → next.machine.toRun = ∅) ∧
    (∀ (os : Os) (exec : ExecInternal) (tasks : List (Task ProcessId RunCmd)),
      ∃ count, Rounds ((Runner.real os).processTask os) count tasks exec (processTasks os tasks exec)) ∧
    ∀ exec, system.Reachable exec → Machine.system.Reachable exec.machine ∧ ∀ pid, exec.machine.Known pid →
      pid ∈ exec.machine.finished ∨ pid ∈ exec.machine.running ∨ pid ∈ exec.machine.waitingOn := by
  refine ⟨?_,?_,?_⟩
  · intro runner os exec tasks reachable starts
    refine ⟨runner.processTask_drops.rounds tasks exec,fun count outcome rounds => ⟨?_,?_⟩⟩
    · exact Avoids.rounds (runner.processTask_fueled os) rounds
    · intro next returns
      subst returns
      exact (Runner.drains reachable (fun pid => (starts pid).mp) rounds).2
  · intro os exec tasks
    obtain ⟨count,_,rounds⟩ := @processTasks_rounds os exec tasks
    exact ⟨count,by rwa [Runner.processTask_real]⟩
  · intro exec reachable
    exact ⟨(reachable_drained reachable).1,fun pid known => reachable_settled reachable known⟩

private def listingTask : RunCmd := ⟨.getDirectory,⟨1⟩,⟨2⟩,⟨3⟩⟩

/-- A directory is listed, and the command is no longer to run. -/
theorem tasks_drain_listing : ∃ exec next, exec.machine.toRun = {⟨0⟩} ∧
    processTasks .working [.start ⟨0⟩ listingTask] exec = .ok (.ok (),next) ∧ next.machine.toRun = ∅ := by
  let machine : Machine ProcessId RunCmd ProcessState := { Machine.new with toRun := {⟨0⟩} }
  have start : Machine.system.Run [] (Machine.new : Machine ProcessId RunCmd ProcessState) := .initial rfl
  have called : Machine.system.step Machine.new (.enqueue ⟨0⟩ listingTask ∅,[.start ⟨0⟩ listingTask]) machine := rfl
  have reachable : Machine.system.Reachable machine := ⟨_,.step start called⟩
  refine ⟨{ new with machine },_,rfl,rfl,?_⟩
  obtain ⟨count,rounds⟩ := tasks_drain.2.1 .working { new with machine } [.start ⟨0⟩ listingTask]
  refine ((tasks_drain.1 (Runner.real .working) .working _ _ reachable ?_).2 count _ rounds).2 _ rfl
  intro pid
  simp [machine]

end ExecInternal
end Nak
