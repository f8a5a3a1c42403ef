import Nak.Library.Rounds
import Nak.MachineRecursion
import Nak.ExecRules

/-! The task loop. A round handles the tasks of one list and collects the tasks they
release; as the collected ones are handled after the rest of the list, the rounds together
work through one queue. The fuel of the model never runs out. -/
namespace Nak
open Library Action

namespace Machine
variable {Id Cmd State : Type} [DecidableEq Id]

theorem unstarted_measure : Measure (unstarted : Machine Id Cmd State → Nat) where
  retire _ _ _ := le_rfl
  forget _ _ := le_rfl
  fail machine waiter _ := by
    have fewer := FiniteMap.len_erase_le machine.waitingOn waiter
    simp only [unstarted]
    omega
  release machine waiter waits := by
    have fewer := FiniteMap.len_erase_lt machine.waitingOn waiter waits
    have more := Finset.card_insert_le waiter machine.toRun
    simp only [unstarted]
    omega
  keep machine waiter waiting waits := by
    have fewer := FiniteMap.len_erase_lt machine.waitingOn waiter waits
    have more := FiniteMap.len_insert_le (machine.waitingOn.erase waiter) waiter waiting
    simp only [unstarted]
    omega

theorem startCompleted_unstarted {machine next : Machine Id Cmd State} {pid : Id} {status : ExitStatus}
    {tasks : List (Task Id Cmd)} (ok : machine.startCompleted pid status = .ok (tasks,next)) :
    next.unstarted < machine.unstarted := by
  obtain ⟨_,toRun,ok⟩ := Outcome.bind_ok.mp ok
  have fewer := Finset.card_erase_lt_of_mem ((Outcome.assert_ok _ _).mp toRun)
  have resolved := resolveTasks_shrinks unstarted_measure _ _ _ _ _ ok
  simp only [unstarted] at resolved ⊢
  omega

end Machine

namespace ExecInternal

def report (exec : ExecInternal) (pid : ProcessId) (exitCode : Int) : ExecInternal :=
  { exec with effects := exec.effects ++ [.sent (.commandDone pid exitCode)] }

def result (pid : ProcessId) : Effect → Option Int
  | .sent (.commandDone other code) => if other = pid then some code else none
  | _ => none

def results (pid : ProcessId) (effects : List Effect) : List Int := effects.filterMap (result pid)

variable {os : Os} {exec next : ExecInternal}

theorem commandResult_ok {pid : ProcessId} {exitCode : Int} :
    commandResult os pid exitCode exec = .ok (.ok (),next) ↔
      os.send (.commandDone pid exitCode) = .ok () ∧ next = exec.report pid exitCode := by
  unfold commandResult send
  rw [bind_ok]
  constructor
  · intro given
    obtain ⟨_,_,sent,caused⟩ := given
    obtain ⟨same,rfl⟩ := Prod.mk.inj (Except.ok.inj sent)
    exact ⟨same,(Prod.mk.inj (Except.ok.inj caused)).2.symm⟩
  · intro given
    obtain ⟨sent,rfl⟩ := given
    exact ⟨(),exec,by rw [sent]; rfl,rfl⟩

theorem onMachine_ok {call : Machine ProcessId RunCmd ProcessState →
      Outcome (List (Task ProcessId RunCmd) × Machine ProcessId RunCmd ProcessState)}
    {value : Except Error (List (Task ProcessId RunCmd))} : onMachine call exec = .ok (value,next) ↔
      ∃ tasks machine, call exec.machine = .ok (tasks,machine) ∧ value = .ok tasks ∧
        next = { exec with machine } := by
  unfold onMachine
  rw [get_bind]
  cases called : call exec.machine with
  | error panic =>
    rw [panic_bind (by rfl)]
    simp
  | ok answer =>
    obtain ⟨tasks,machine⟩ := answer
    rw [ok_bind (lift_ok.mpr ⟨_,rfl,rfl,rfl⟩)]
    constructor
    · intro ok
      obtain ⟨rfl,rfl⟩ := Prod.mk.inj (Except.ok.inj ok)
      exact ⟨tasks,machine,rfl,rfl,rfl⟩
    · intro given
      obtain ⟨_,_,⟨⟩,rfl,rfl⟩ := given
      rfl

/-- What a task that starts does with the answer of `run`. -/
def answered (os : Os) (pid : ProcessId) (cmd : RunCmd) : Except Error RunResult → Exec (List (Task ProcessId RunCmd))
  | .ok (.process state) =>
    onMachine fun machine => do pure ([],← machine.start pid state)
  | .ok (.alreadyDone exitCode) => do
    let newTasks ← onMachine fun machine => machine.startCompleted pid (.fromExitCode exitCode)
    (commandResult os pid 0).unwrap
    pure newTasks
  | .error e => do
    let newTasks ← onMachine fun machine => machine.startCompleted pid .failure
    pipeOutputAndClose os cmd.pipes [] (bytes e.debug)
    commandResult os pid 1
    pure newTasks

inductive AnswerCases (os : Os) (pid : ProcessId) (cmd : RunCmd) (exec : ExecInternal) :
    Except Error RunResult → List (Task ProcessId RunCmd) → ExecInternal → Prop
  | started (state machine) (started : exec.machine.start pid state = .ok machine) :
      AnswerCases os pid cmd exec (.ok (.process state)) [] { exec with machine }
  | done (exitCode tasks machine)
      (completed : exec.machine.startCompleted pid (.fromExitCode exitCode) = .ok (tasks,machine)) :
      AnswerCases os pid cmd exec (.ok (.alreadyDone exitCode)) tasks (report { exec with machine } pid 0)
  | failed (e tasks machine after) (completed : exec.machine.startCompleted pid .failure = .ok (tasks,machine))
      (closed : pipeOutputAndClose os cmd.pipes [] (bytes e.debug) { exec with machine } = .ok (.ok (),after)) :
      AnswerCases os pid cmd exec (.error e) tasks (report after pid 1)

theorem answered_cases {pid : ProcessId} {cmd : RunCmd} {result : Except Error RunResult}
    {tasks : List (Task ProcessId RunCmd)} (ok : answered os pid cmd result exec = .ok (.ok tasks,next)) :
    AnswerCases os pid cmd exec result tasks next := by
  unfold answered at ok
  rcases result with e | state | exitCode
  · obtain ⟨_,_,called,ok⟩ := bind_ok.mp ok
    obtain ⟨newTasks,machine,completed,same,rfl⟩ := onMachine_ok.mp called
    obtain rfl := Except.ok.inj same
    obtain ⟨_,after,closed,ok⟩ := bind_ok.mp ok
    obtain ⟨_,_,sent,last⟩ := bind_ok.mp ok
    obtain ⟨rfl,rfl⟩ := pure_ok.mp last
    obtain ⟨_,rfl⟩ := commandResult_ok.mp sent
    exact .failed e _ machine after completed closed
  · obtain ⟨newTasks,machine,called,same,rfl⟩ := onMachine_ok.mp ok
    obtain rfl := Except.ok.inj same
    obtain ⟨_,started,last⟩ := Outcome.bind_ok.mp called
    obtain ⟨rfl,rfl⟩ := Prod.mk.inj (Except.ok.inj last)
    exact .started state _ started
  · obtain ⟨_,_,called,ok⟩ := bind_ok.mp ok
    obtain ⟨newTasks,machine,completed,same,rfl⟩ := onMachine_ok.mp called
    obtain rfl := Except.ok.inj same
    obtain ⟨_,_,sent,last⟩ := bind_ok.mp ok
    obtain ⟨rfl,rfl⟩ := pure_ok.mp last
    obtain ⟨_,_,sent⟩ := unwrap_ok.mp sent
    obtain ⟨_,rfl⟩ := commandResult_ok.mp sent
    exact .done exitCode _ machine completed

theorem refused_ok {pid : ProcessId} {tasks : List (Task ProcessId RunCmd)}
    (ok : (do (commandResult os pid 1).unwrap; pure [] : Exec (List (Task ProcessId RunCmd))) exec =
      .ok (.ok tasks,next)) :
    tasks = [] ∧ next = exec.report pid 1 := by
  obtain ⟨_,_,sent,last⟩ := bind_ok.mp ok
  obtain ⟨rfl,rfl⟩ := pure_ok.mp last
  obtain ⟨_,_,sent⟩ := unwrap_ok.mp sent
  exact ⟨rfl,(commandResult_ok.mp sent).2⟩

inductive TaskCases (os : Os) (exec : ExecInternal) :
    Task ProcessId RunCmd → List (Task ProcessId RunCmd) → ExecInternal → Prop
  | refused (pid cmd) : TaskCases os exec (.conditionFailed pid cmd) [] (exec.report pid 1)
  | started (pid cmd state middle) (ran : run os pid cmd exec = .ok (.ok (.process state),middle))
      (quiet : Quiet exec middle) (toRun : pid ∈ exec.machine.toRun) :
      TaskCases os exec (.start pid cmd) [] { middle with
        machine := { exec.machine with
          toRun := exec.machine.toRun.erase pid
          running := exec.machine.running.insert pid state } }
  | done (pid cmd exitCode middle tasks machine) (ran : run os pid cmd exec = .ok (.ok (.alreadyDone exitCode),middle))
      (quiet : Quiet exec middle)
      (completed : exec.machine.startCompleted pid (.fromExitCode exitCode) = .ok (tasks,machine)) :
      TaskCases os exec (.start pid cmd) tasks (report { middle with machine } pid 0)
  | failed (pid cmd e middle tasks machine after) (ran : run os pid cmd exec = .ok (.error e,middle))
      (quiet : Quiet exec middle)
      (completed : exec.machine.startCompleted pid .failure = .ok (tasks,machine))
      (closed : pipeOutputAndClose os cmd.pipes [] (bytes e.debug) { middle with machine } = .ok (.ok (),after))
      (silent : Quiet { middle with machine } after) :
      TaskCases os exec (.start pid cmd) tasks (report after pid 1)

theorem processTask_cases {task : Task ProcessId RunCmd} {tasks : List (Task ProcessId RunCmd)}
    (ok : processTask os task exec = .ok (.ok tasks,next)) : TaskCases os exec task tasks next := by
  cases task with
  | conditionFailed pid cmd =>
    obtain ⟨rfl,rfl⟩ := refused_ok ok
    exact .refused pid cmd
  | start pid cmd =>
    obtain ⟨result,middle,ran,ok⟩ := bind_ok.mp ok
    obtain ⟨_,same,ran⟩ := result_ok.mp ran
    obtain rfl := Except.ok.inj same
    have quiet := ((quiet_frame os).run pid cmd).after ran
    have cases : AnswerCases os pid cmd middle result tasks next := answered_cases ok
    cases cases with
    | started state machine started =>
      obtain ⟨_,toRun,last⟩ := Outcome.bind_ok.mp started
      obtain rfl := Except.ok.inj last
      rw [quiet.machine] at toRun ⊢
      exact .started pid cmd state middle ran quiet ((Outcome.assert_ok _ _).mp toRun)
    | done exitCode tasks machine completed =>
      rw [quiet.machine] at completed
      exact .done pid cmd exitCode middle tasks machine ran quiet completed
    | failed e tasks machine after completed closed =>
      rw [quiet.machine] at completed
      exact .failed pid cmd e middle tasks machine after ran quiet completed closed
        (((quiet_frame os).pipeOutputAndClose _ _ _).after closed)

theorem processTask_unstarted {task : Task ProcessId RunCmd} {tasks : List (Task ProcessId RunCmd)}
    (ok : processTask os task exec = .ok (.ok tasks,next)) :
    next.machine.unstarted ≤ exec.machine.unstarted ∧
      (tasks ≠ [] → next.machine.unstarted < exec.machine.unstarted) := by
  cases processTask_cases ok with
  | refused => exact ⟨le_rfl,by simp⟩
  | started pid cmd state middle ran quiet toRun =>
    have fewer := Finset.card_le_card (Finset.erase_subset pid exec.machine.toRun)
    refine ⟨?_,by simp⟩
    simp only [Machine.unstarted]
    omega
  | done pid cmd exitCode middle tasks machine ran quiet completed =>
    have fewer := Machine.startCompleted_unstarted completed
    exact ⟨fewer.le,fun _ => fewer⟩
  | failed pid cmd e middle tasks machine after ran quiet completed closed silent =>
    have fewer := Machine.startCompleted_unstarted completed
    have same : (report after pid 1).machine = machine := silent.machine
    rw [same]
    exact ⟨fewer.le,fun _ => fewer⟩

theorem processTask_drops : Drops (processTask os) fun exec => exec.machine.unstarted where
  drops := processTask_unstarted

theorem processRound_eq (tasks : List (Task ProcessId RunCmd)) :
    processRound os tasks = workRound (processTask os) tasks := by
  induction tasks with
  | nil => rfl
  | cons task tasks ih => rw [processRound,workRound,ih]

private theorem processTasksWith_rounds {count fuel : Nat} {tasks : List (Task ProcessId RunCmd)}
    {outcome : Outcome (Except Error Unit × ExecInternal)} (rounds : Rounds (processTask os) count tasks exec outcome)
    (enough : count ≤ fuel) : processTasksWith os fuel tasks exec = outcome := by
  induction rounds generalizing fuel with
  | panics panics =>
    obtain ⟨fuel,rfl⟩ : ∃ n, fuel = n + 1 := ⟨fuel - 1,by omega⟩
    rw [processTasksWith,processRound_eq,panic_bind panics]
  | raises raises =>
    obtain ⟨fuel,rfl⟩ : ∃ n, fuel = n + 1 := ⟨fuel - 1,by omega⟩
    rw [processTasksWith,processRound_eq,raised_bind raises]
  | done done =>
    obtain ⟨fuel,rfl⟩ : ∃ n, fuel = n + 1 := ⟨fuel - 1,by omega⟩
    rw [processTasksWith,processRound_eq,ok_bind done]
    rfl
  | again some round rest ih =>
    obtain ⟨fuel,rfl⟩ : ∃ n, fuel = n + 1 := ⟨fuel - 1,by omega⟩
    rw [processTasksWith,processRound_eq,ok_bind round,if_neg (by simpa using some)]
    exact ih (by omega)

/-- The fuel is enough for the loop of `process_tasks` to end as it does in the source. -/
theorem processTasks_rounds (tasks : List (Task ProcessId RunCmd)) : ∃ count, count ≤ exec.machine.unstarted + 1 ∧
    Rounds (processTask os) count tasks exec (processTasks os tasks exec) := by
  obtain ⟨count,outcome,few,rounds⟩ := (@processTask_drops os).rounds tasks exec
  refine ⟨count,few,?_⟩
  rwa [show processTasks os tasks exec = outcome from processTasksWith_rounds rounds few]

theorem processTasks_returns_iff {tasks : List (Task ProcessId RunCmd)} :
    (∃ next, processTasks os tasks exec = .ok (.ok (),next)) ↔ Dealt (processTask os) tasks exec := by
  obtain ⟨_,_,rounds⟩ := processTasks_rounds tasks
  exact rounds.returns_iff

theorem processTasks_queue (holds : List (Task ProcessId RunCmd) → ExecInternal → Prop)
    (keeps : ∀ task rest exec new next, holds (task :: rest) exec →
      processTask os task exec = .ok (.ok new,next) → holds (rest ++ new) next)
    {tasks : List (Task ProcessId RunCmd)} (before : holds tasks exec)
    (ok : processTasks os tasks exec = .ok (.ok (),next)) : holds [] next := by
  obtain ⟨_,_,rounds⟩ := processTasks_rounds tasks
  rw [ok] at rounds
  exact rounds.queue holds keeps before

end ExecInternal
end Nak
