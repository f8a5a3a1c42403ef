import Nak.ExecTasks

/-! What handling one event can do. Three kinds of events change the machine and hand its
tasks to the task loop; the others leave the machine alone. The machine of every state
between two events satisfies the machine's invariant. -/
namespace Nak.ExecInternal
open Library Action
variable {os : Os} {exec next : ExecInternal}

section Quiet
variable (os)

theorem pipeMessage_quiet (pipe : GenericPipe) (msg : PipeMessage) : Keeps Quiet (pipeMessage os pipe msg) := by
  cases msg with
  | beginRead =>
    apply Keeps.bind (readEnd_quiet os _)
    intro handle
    apply Keeps.bind (cause_quiet _ (by nofun))
    intro _
    exact Keeps.modify _ fun _ => .same rfl rfl
  | read => exact Keeps.pure _
  | closed => exact Keeps.panic _
  | data => exact Keeps.panic _

theorem send_quiet (response : RemoteResponse) (silent : ∀ pid code, response ≠ .commandDone pid code) :
    Keeps Quiet (send os response) := by
  unfold send
  apply Keeps.bind (Keeps.propagate _)
  intro _
  apply cause_quiet
  intro pid code same
  exact silent pid code (Effect.sent.inj same)

end Quiet

theorem openOutputFile_ok {pipe : WritePipe} {path : String}
    (ok : openOutputFile os pipe path exec = .ok (.ok (),next)) :
    pipe.toGeneric ∉ exec.openHandles ∧ next = { exec with
      opened := exec.opened + 1
      openHandles := exec.openHandles.insert pipe.toGeneric ⟨none,some (.fromFile exec.opened path)⟩ } := by
  obtain ⟨_,absent,ok⟩ := lift_bind_ok.mp ok
  obtain ⟨_,_,created,ok⟩ := bind_ok.mp ok
  obtain ⟨_,rfl⟩ := Prod.mk.inj (Except.ok.inj created)
  obtain ⟨number,_,opened,ok⟩ := bind_ok.mp ok
  obtain ⟨rfl,rfl⟩ := nextHandle_ok opened
  obtain ⟨_,rfl⟩ := Prod.mk.inj (Except.ok.inj ok)
  exact ⟨(Outcome.assert_ok _ _).mp absent,rfl⟩

theorem openInputFile_ok {pipe : ReadPipe} {path : String} (ok : openInputFile os pipe path exec = .ok (.ok (),next)) :
    pipe.toGeneric ∉ exec.openHandles ∧ next = { exec with
      opened := exec.opened + 1
      openHandles := exec.openHandles.insert pipe.toGeneric ⟨some (.fromFile exec.opened path),none⟩ } := by
  obtain ⟨_,absent,ok⟩ := lift_bind_ok.mp ok
  obtain ⟨_,_,opened,ok⟩ := bind_ok.mp ok
  obtain ⟨_,rfl⟩ := Prod.mk.inj (Except.ok.inj opened)
  obtain ⟨number,_,opened,ok⟩ := bind_ok.mp ok
  obtain ⟨rfl,rfl⟩ := nextHandle_ok opened
  obtain ⟨_,rfl⟩ := Prod.mk.inj (Except.ok.inj ok)
  exact ⟨(Outcome.assert_ok _ _).mp absent,rfl⟩

theorem cancel_ok {pid : ProcessId} (ok : cancel os pid exec = .ok (.ok (),next)) :
    ∃ more, next = { exec with effects := exec.effects ++ more } ∧
      ∀ effect ∈ more, ∃ child, effect = .killed child := by
  obtain ⟨status,_,ok⟩ := lift_bind_ok.mp ok
  split at ok
  · rename_i child found
    obtain ⟨_,_,locked,ok⟩ := bind_ok.mp ok
    obtain ⟨_,_,locked⟩ := unwrap_ok.mp locked
    obtain ⟨_,rfl⟩ := Prod.mk.inj (Except.ok.inj locked)
    obtain ⟨_,_,killed,ok⟩ := bind_ok.mp ok
    obtain ⟨_,rfl⟩ := Prod.mk.inj (Except.ok.inj killed)
    obtain ⟨_,rfl⟩ := cause_ok ok
    exact ⟨[.killed child],rfl,fun effect member => ⟨child,List.mem_singleton.mp member⟩⟩
  · cases ok
  · obtain ⟨_,rfl⟩ := pure_ok.mp ok
    exact ⟨[],by rw [List.append_nil],by simp⟩

inductive EventCases (os : Os) (exec : ExecInternal) : ExecEvent → ExecInternal → Prop
  | enqueued (pid cmd blockFor tasks machine next)
      (enqueued : exec.machine.enqueue pid cmd blockFor = .ok (tasks,machine))
      (processed : processTasks os tasks { exec with machine } = .ok (.ok (),next)) :
      EventCases os exec (.enqueue pid cmd blockFor) next
  | completed (pid exitCode tasks machine next)
      (completed : exec.machine.completed pid (.fromExitCode exitCode) = .ok (tasks,machine))
      (processed : processTasks os tasks (report { exec with machine } pid exitCode) = .ok (.ok (),next)) :
      EventCases os exec (.completed pid exitCode) next
  | edited (editId data pid path tasks machine next) (found : exec.waitingEdits.lookup editId = some (pid,path))
      (completed : exec.machine.completed pid (.fromExitCode 0) = .ok (tasks,machine))
      (processed : processTasks os tasks (report { exec with
        waitingEdits := exec.waitingEdits.erase editId
        effects := exec.effects ++ [.written path data]
        machine } pid 0) = .ok (.ok (),next)) : EventCases os exec (.editComplete editId data) next
  | quiet (event next) (quiet : Quiet exec next) : EventCases os exec event next

theorem completed_cases {pid : ProcessId} {exitCode : Int}
    (ok : completed os pid exitCode exec = .ok (.ok (),next)) :
    ∃ tasks machine, exec.machine.completed pid (.fromExitCode exitCode) = .ok (tasks,machine) ∧
      processTasks os tasks (report { exec with machine } pid exitCode) = .ok (.ok (),next) := by
  obtain ⟨_,reported,sent,ok⟩ := bind_ok.mp ok
  obtain ⟨_,_,sent⟩ := unwrap_ok.mp sent
  obtain ⟨_,rfl⟩ := commandResult_ok.mp sent
  obtain ⟨tasks,middle,called,processed⟩ := bind_ok.mp ok
  obtain ⟨_,machine,completed,same,rfl⟩ := onMachine_ok.mp called
  obtain rfl := Except.ok.inj same
  exact ⟨tasks,machine,completed,processed⟩

theorem finishEdit_cases {editId : Nat} {data : Bytes}
    (ok : finishEdit os editId data exec = .ok (.ok (),next)) :
    ∃ pid path, exec.waitingEdits.lookup editId = some (pid,path) ∧ completed os pid 0 { exec with
      waitingEdits := exec.waitingEdits.erase editId
      effects := exec.effects ++ [.written path data] } = .ok (.ok (),next) := by
  unfold finishEdit at ok
  rw [get_bind] at ok
  obtain ⟨⟨pid,path⟩,found,ok⟩ := lift_bind_ok.mp ok
  obtain ⟨_,removed,remove,ok⟩ := bind_ok.mp ok
  obtain ⟨_,rfl⟩ := Prod.mk.inj (Except.ok.inj remove)
  obtain ⟨_,created,create,ok⟩ := bind_ok.mp ok
  obtain ⟨_,rfl⟩ := Prod.mk.inj (Except.ok.inj create)
  obtain ⟨_,filled,write,ok⟩ := bind_ok.mp ok
  obtain ⟨_,_,write⟩ := unwrap_ok.mp write
  obtain ⟨_,rfl⟩ := Prod.mk.inj (Except.ok.inj write)
  obtain ⟨_,_,written,ok⟩ := bind_ok.mp ok
  obtain ⟨_,rfl⟩ := Prod.mk.inj (Except.ok.inj written)
  exact ⟨pid,path,(Outcome.unwrap_ok _ _).mp found,ok⟩

theorem handle_ok {event : ExecEvent} :
    handle os event exec = .ok next ↔ handleEvent os event exec = .ok (.ok (),next) := by
  unfold handle
  rw [Outcome.bind_ok]
  constructor
  · intro given
    obtain ⟨⟨value,last⟩,ok,same⟩ := given
    obtain ⟨_,_,ok⟩ := unwrap_ok.mp ok
    obtain rfl := Except.ok.inj same
    exact ok
  · intro ok
    exact ⟨(.ok (),next),unwrap_ok.mpr ⟨(),rfl,ok⟩,rfl⟩

theorem handle_cases {event : ExecEvent} (ok : handle os event exec = .ok next) : EventCases os exec event next := by
  have ok := handle_ok.mp ok
  cases event with
  | enqueue pid cmd blockFor =>
    obtain ⟨tasks,middle,called,processed⟩ := bind_ok.mp ok
    obtain ⟨_,machine,enqueued,same,rfl⟩ := onMachine_ok.mp called
    obtain rfl := Except.ok.inj same
    exact .enqueued pid cmd blockFor tasks machine next enqueued processed
  | completed pid exitCode =>
    obtain ⟨tasks,machine,completed,processed⟩ := completed_cases ok
    exact .completed pid exitCode tasks machine next completed processed
  | editComplete editId data =>
    obtain ⟨pid,path,found,ok⟩ := finishEdit_cases ok
    obtain ⟨tasks,machine,completed,processed⟩ := completed_cases ok
    exact .edited editId data pid path tasks machine next found completed processed
  | openOutputFile pipe path =>
    obtain ⟨_,rfl⟩ := openOutputFile_ok ok
    exact .quiet _ _ (.same rfl rfl)
  | openInputFile pipe path =>
    obtain ⟨_,rfl⟩ := openInputFile_ok ok
    exact .quiet _ _ (.same rfl rfl)
  | cancelExec pid =>
    obtain ⟨more,rfl,kills⟩ := cancel_ok ok
    refine .quiet _ _ ⟨rfl,more,rfl,?_⟩
    intro pid code member
    obtain ⟨child,shape⟩ := kills _ member
    cases shape
  | pipeClosed pipe endOffset => exact .quiet _ _ ((send_quiet os _ (by nofun)).after ok)
  | pipeOutput pipe data endOffset => exact .quiet _ _ ((send_quiet os _ (by nofun)).after ok)
  | pipeMessage pipe msg => exact .quiet _ _ ((pipeMessage_quiet os pipe msg).after ok)

theorem processTask_inv {task : Task ProcessId RunCmd} {tasks : List (Task ProcessId RunCmd)}
    (inv : Machine.Inv exec.machine) (ok : processTask os task exec = .ok (.ok tasks,next)) :
    Machine.Inv next.machine := by
  cases processTask_cases ok with
  | refused => exact inv
  | started pid cmd state middle ran quiet toRun => exact inv.started state toRun
  | done pid cmd exitCode middle tasks machine ran quiet completed =>
    obtain ⟨toRun,_,finishes⟩ := inv.startCompleted_cases completed
    exact finishes.inv inv (Or.inl toRun)
  | failed pid cmd e middle tasks machine after ran quiet completed closed silent =>
    obtain ⟨toRun,_,finishes⟩ := inv.startCompleted_cases completed
    have same : (report after pid 1).machine = machine := silent.machine
    rw [same]
    exact finishes.inv inv (Or.inl toRun)

theorem processTasks_inv {tasks : List (Task ProcessId RunCmd)} (inv : Machine.Inv exec.machine)
    (ok : processTasks os tasks exec = .ok (.ok (),next)) : Machine.Inv next.machine :=
  processTasks_queue (fun _ exec => Machine.Inv exec.machine)
    (fun _ _ _ _ _ inv ok => processTask_inv inv ok) inv ok

theorem handle_inv {event : ExecEvent} (inv : Machine.Inv exec.machine) (ok : handle os event exec = .ok next) :
    Machine.Inv next.machine := by
  cases handle_cases ok with
  | enqueued pid cmd blockFor tasks machine next enqueued processed =>
    have call : exec.machine.call (.enqueue pid cmd blockFor) = .ok (tasks,machine) := enqueued
    exact processTasks_inv ((inv.call_cases call).inv inv) processed
  | completed pid exitCode tasks machine next completed processed =>
    have call : exec.machine.call (.completed pid (.fromExitCode exitCode)) = .ok (tasks,machine) := completed
    exact processTasks_inv ((inv.call_cases call).inv inv) processed
  | edited editId data pid path tasks machine next found completed processed =>
    have call : exec.machine.call (.completed pid (.fromExitCode 0)) = .ok (tasks,machine) := completed
    exact processTasks_inv ((inv.call_cases call).inv inv) processed
  | quiet event next quiet =>
    rw [quiet.machine]
    exact inv

theorem system_deterministic : system.Deterministic := System.ofPartial_deterministic _ _

theorem reachable_machine (reachable : system.Reachable exec) : Machine.Inv exec.machine := by
  refine reachable.invariant (fun exec => Machine.Inv exec.machine) ?_ ?_
  · intro _ same
    obtain rfl := same
    exact Machine.inv_new
  · intro exec label next inv taken
    exact handle_inv inv taken

end Nak.ExecInternal
