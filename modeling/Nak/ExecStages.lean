import Nak.ExecHandled

/-! The stages of one event. The event makes one call on the machine and hands the tasks on,
or it is idle; a command that is started takes ends and causes a few kinds of effects. -/
namespace Nak
open Library Action

/-- For whom an effect is caused, where `last` is the pid that `run` was last called for. -/
def Effect.actor (last : Option ProcessId) : Effect → Option ProcessId
  | .running pid _ => some pid
  | .spawned pid _ _ _ _ _ _ => some pid
  | .currentDirSet _ => last
  | .writer _ _ _ => last
  | .dropped _ _ => last
  | .sent (.editRequest pid _ _ _) => some pid
  | .sent (.commandDone pid _) => some pid
  | _ => none

namespace ExecInternal
variable {os : Os} {exec next : ExecInternal} {pid : ProcessId}

/-- What a command that edits no file causes between its start and its result. -/
inductive Ordinary (pid : ProcessId) : Effect → Prop
  | spawned (child path args stdin stdout stderr) : Ordinary pid (.spawned pid child path args stdin stdout stderr)
  | directory (dir) : Ordinary pid (.currentDirSet dir)
  | writer (pipe handle data) : Ordinary pid (.writer pipe handle data)
  | dropped (pipe handle) : Ordinary pid (.dropped pipe handle)

/-- A relation that is kept when ends are taken and when ordinary effects are caused. -/
structure Taking (os : Os) (pid : ProcessId) (relates : ExecInternal → ExecInternal → Prop) : Prop where
  readEnd : ∀ pipe, Keeps relates (readEnd os pipe)
  writeEnd : ∀ pipe, Keeps relates (writeEnd os pipe)
  cause : ∀ effect, Ordinary pid effect → Keeps relates (cause effect)

namespace Taking
variable {relates : ExecInternal → ExecInternal → Prop}

theorem of_same (same : ∀ exec next, SameBut exec next → next.editIds = exec.editIds → relates exec next)
    (causes : ∀ effect, Ordinary pid effect → Keeps relates (ExecInternal.cause effect)) : Taking os pid relates where
  readEnd pipe := ⟨by
    intro exec value next ok
    cases value with
    | error e => exact absurd ok (readEnd_errorless os pipe).never
    | ok handle => rcases readEnd_cases ok with ⟨_,_,rfl⟩ | ⟨_,_,rfl⟩ <;> exact same _ _ ⟨rfl,rfl,rfl⟩ rfl⟩
  writeEnd pipe := ⟨by
    intro exec value next ok
    cases value with
    | error e => exact absurd ok (writeEnd_errorless os pipe).never
    | ok handle => rcases writeEnd_cases ok with ⟨_,_,rfl⟩ | ⟨_,_,rfl⟩ <;> exact same _ _ ⟨rfl,rfl,rfl⟩ rfl⟩
  cause := causes

theorem pipeAndClose (taking : Taking os pid relates) (pipe : WritePipe) (handle : OutputPipe) (data : Bytes) :
    Keeps relates (pipeAndClose pipe handle data) := by
  unfold ExecInternal.pipeAndClose
  split
  · exact taking.cause _ (.writer pipe handle data)
  · exact taking.cause _ (.dropped pipe handle)

variable [IsPreorder ExecInternal relates]

theorem pipeOutputAndClose (taking : Taking os pid relates) (pipes : WritePipes) (stdout stderr : Bytes) :
    Keeps relates (pipeOutputAndClose os pipes stdout stderr) := by
  unfold ExecInternal.pipeOutputAndClose
  apply Keeps.bind (taking.writeEnd _)
  intro handle
  apply Keeps.bind (taking.pipeAndClose _ _ _)
  intro _
  apply Keeps.bind (taking.writeEnd _)
  intro handle
  exact taking.pipeAndClose _ _ _

/-- A command that edits no file, from the moment `run` has said that it is called. -/
theorem after_running (taking : Taking os pid relates) {c : RunCmd} {result : Except Error RunResult}
    (unedited : ∀ path, c.cmd ≠ .edit path) (ok : run os pid c exec = .ok (result,next)) :
    relates { exec with effects := exec.effects ++ [.running pid c.cmd] } next := by
  obtain ⟨cmd,pipes⟩ := c
  obtain ⟨_,began,caused,ok⟩ := (cause_errorless _).continues ok
  obtain ⟨_,rfl⟩ := cause_ok caused
  have closing (code : Int) (stdout stderr : Bytes) : Keeps relates
      (do ExecInternal.pipeOutputAndClose os pipes stdout stderr; pure (.alreadyDone code) : Exec RunResult) :=
    Keeps.bind (taking.pipeOutputAndClose _ _ _) fun _ => Keeps.pure _
  refine Keeps.after ?_ ok
  cases cmd with
  | unknown path args =>
    apply Keeps.bind (taking.readEnd _)
    intro stdin
    apply Keeps.bind (taking.writeEnd _)
    intro stdout
    apply Keeps.bind (taking.writeEnd _)
    intro stderr
    apply Keeps.bind (Keeps.propagate _)
    intro handle
    exact Keeps.bind (taking.cause _ (.spawned handle path args stdin stdout stderr)) fun _ => Keeps.pure _
  | setDirectory dir =>
    cases os.setCurrentDir pid with
    | ok => exact Keeps.bind (taking.cause _ (.directory dir)) fun _ => closing _ _ _
    | error e => exact closing _ _ _
  | getDirectory => cases os.currentDir pid <;> exact closing _ _ _
  | edit path => exact absurd rfl (unedited path)

end Taking

structure Idle (exec next : ExecInternal) : Prop where
  machine : next.machine = exec.machine
  waitingEdits : next.waitingEdits = exec.waitingEdits
  editIds : next.editIds = exec.editIds
  effects : ∃ more, next.effects = exec.effects ++ more ∧ ∀ effect ∈ more, ∀ last, effect.actor last = none

private theorem send_idle {response : RemoteResponse} (none : ∀ last, (Effect.sent response).actor last = none)
    (ok : send os response exec = .ok (.ok (),next)) : Idle exec next := by
  obtain ⟨_,_,sent,ok⟩ := bind_ok.mp ok
  obtain ⟨_,rfl⟩ := Prod.mk.inj (Except.ok.inj sent)
  obtain ⟨_,rfl⟩ := cause_ok ok
  exact ⟨rfl,rfl,rfl,[.sent response],rfl,by simpa using none⟩

private theorem pipeMessage_idle {pipe : GenericPipe} {msg : PipeMessage}
    (ok : pipeMessage os pipe msg exec = .ok (.ok (),next)) : Idle exec next := by
  cases msg with
  | beginRead =>
    obtain ⟨handle,_,taken,ok⟩ := bind_ok.mp ok
    obtain ⟨_,_,caused,ok⟩ := bind_ok.mp ok
    obtain ⟨_,rfl⟩ := Prod.mk.inj (Except.ok.inj ok)
    obtain ⟨_,rfl⟩ := cause_ok caused
    rcases readEnd_cases taken with ⟨_,_,rfl⟩ | ⟨_,_,rfl⟩ <;>
      exact ⟨rfl,rfl,rfl,[.reader pipe handle],rfl,by simp [Effect.actor]⟩
  | read limit =>
    obtain ⟨_,rfl⟩ := pure_ok.mp ok
    exact ⟨rfl,rfl,rfl,[],(List.append_nil _).symm,by simp⟩
  | closed => cases ok
  | data => cases ok

inductive Begins (exec : ExecInternal) : ExecEvent → List (Task ProcessId RunCmd) → ExecInternal → Prop
  | enqueued (pid cmd blockFor tasks machine) (enqueued : exec.machine.enqueue pid cmd blockFor = .ok (tasks,machine)) :
      Begins exec (.enqueue pid cmd blockFor) tasks { exec with machine }
  | completed (pid exitCode tasks machine)
      (completed : exec.machine.completed pid (.fromExitCode exitCode) = .ok (tasks,machine)) :
      Begins exec (.completed pid exitCode) tasks (report { exec with machine } pid exitCode)
  | edited (editId data pid path tasks machine) (found : exec.waitingEdits.lookup editId = some (pid,path))
      (completed : exec.machine.completed pid (.fromExitCode 0) = .ok (tasks,machine)) :
      Begins exec (.editComplete editId data) tasks (report { exec with
        waitingEdits := exec.waitingEdits.erase editId
        effects := exec.effects ++ [.written path data]
        machine } pid 0)
  | idle (event next) (idle : Idle exec next) : Begins exec event [] next

private theorem processTasks_nil (exec : ExecInternal) : processTasks os [] exec = .ok (.ok (),exec) := rfl

theorem handle_begins {event : ExecEvent} (ok : handle os event exec = .ok next) :
    ∃ tasks start, Begins exec event tasks start ∧ processTasks os tasks start = .ok (.ok (),next) := by
  have idle (idle : Idle exec next) : ∃ tasks start, Begins exec event tasks start ∧
      processTasks os tasks start = .ok (.ok (),next) := ⟨[],next,.idle event next idle,processTasks_nil next⟩
  have done := handle_ok.mp ok
  cases event with
  | enqueue pid cmd blockFor =>
    obtain ⟨tasks,middle,called,processed⟩ := bind_ok.mp done
    obtain ⟨_,machine,enqueued,same,rfl⟩ := onMachine_ok.mp called
    obtain rfl := Except.ok.inj same
    exact ⟨_,_,.enqueued pid cmd blockFor tasks machine enqueued,processed⟩
  | completed pid exitCode =>
    obtain ⟨tasks,machine,completed,processed⟩ := completed_cases done
    exact ⟨_,_,.completed pid exitCode tasks machine completed,processed⟩
  | editComplete editId data =>
    obtain ⟨pid,path,found,done⟩ := finishEdit_cases done
    obtain ⟨tasks,machine,completed,processed⟩ := completed_cases done
    exact ⟨_,_,.edited editId data pid path tasks machine found completed,processed⟩
  | openOutputFile pipe path =>
    obtain ⟨_,rfl⟩ := openOutputFile_ok done
    exact idle ⟨rfl,rfl,rfl,[],(List.append_nil _).symm,by simp⟩
  | openInputFile pipe path =>
    obtain ⟨_,rfl⟩ := openInputFile_ok done
    exact idle ⟨rfl,rfl,rfl,[],(List.append_nil _).symm,by simp⟩
  | cancelExec pid =>
    obtain ⟨more,rfl,kills⟩ := cancel_ok done
    refine idle ⟨rfl,rfl,rfl,more,rfl,?_⟩
    intro effect member last
    obtain ⟨child,rfl⟩ := kills effect member
    rfl
  | pipeClosed pipe endOffset => exact idle (send_idle (fun _ => rfl) done)
  | pipeOutput pipe data endOffset => exact idle (send_idle (fun _ => rfl) done)
  | pipeMessage pipe msg => exact idle (pipeMessage_idle done)

end ExecInternal
end Nak
