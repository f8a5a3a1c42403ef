import Nak.ExecOrder
import Nak.ExecPending
import Nak.Interrupts
import Nak.World

/-! What an event owes. A command that is enqueued is unfinished or has been reported, never
both and never neither, and what is sent about it is sent while it is unfinished. -/
namespace Nak
open Library Action

def ExecEvent.enqueues (pid : ProcessId) : ExecEvent → Bool
  | .enqueue other _ _ => other = pid
  | _ => false

def ExecEvent.reads? : ExecEvent → Option GenericPipe
  | .pipeMessage pipe .beginRead => some pipe
  | _ => none

def Task.refuses (pid : ProcessId) : Task ProcessId RunCmd → Bool
  | .conditionFailed other _ => other = pid
  | .start _ _ => false

namespace Machine
variable {Id Cmd State : Type} [DecidableEq Id] {machine next : Machine Id Cmd State} {pid other : Id}

/-- An unfinished command is owed a result. -/
def owed (machine : Machine Id Cmd State) (pid : Id) : Nat := if machine.Unfinished pid then 1 else 0

theorem owed_congr (same : next.Unfinished pid ↔ machine.Unfinished pid) : next.owed pid = machine.owed pid := by
  rw [owed,owed,if_congr same rfl rfl]

theorem owed_started {state : State} (toRun : pid ∈ machine.toRun) : owed { machine with
    toRun := machine.toRun.erase pid
    running := machine.running.insert pid state } other = machine.owed other := by
  apply owed_congr
  simp only [Unfinished,Finset.mem_erase,Finmap.mem_insert]
  by_cases same : other = pid
  · simp [same,toRun]
  · simp [same]

theorem Finishes.owed {status : ExitStatus} {tasks : List (Task Id Cmd)} (inv : Inv machine)
    (finishes : Finishes machine pid status tasks next) (ready : pid ∈ machine.toRun ∨ pid ∈ machine.running) :
    next.owed other + (if pid = other then 1 else 0) = machine.owed other := by
  unfold Machine.owed
  by_cases same : pid = other
  · subst same
    have before : machine.Unfinished pid := ready.elim Or.inl fun running => Or.inr (Or.inl running)
    rw [if_neg (finishes.not_unfinished inv ready),if_pos rfl,if_pos before]
  · have iff : next.Unfinished other ↔ machine.Unfinished other :=
      ⟨finishes.unfinished_before,fun before => finishes.unfinished before fun equal => same equal.symm⟩
    rw [if_congr iff rfl rfl,if_neg same,Nat.add_zero]

end Machine

namespace ExecInternal
variable {os : Os} {exec next start : ExecInternal} {event : ExecEvent} {pid : ProcessId}

/-- How often a command that was enqueued is accounted for. -/
def tally (pid : ProcessId) (exec : ExecInternal) : Nat := exec.machine.owed pid + reports pid exec

def refusals (pid : ProcessId) (queue : List (Task ProcessId RunCmd)) : Nat := queue.countP (Task.refuses pid)

theorem refusals_append (queue tasks : List (Task ProcessId RunCmd)) :
    refusals pid (queue ++ tasks) = refusals pid queue + refusals pid tasks := List.countP_append ..

theorem tally_quiet (quiet : Quiet exec next) : tally pid next = tally pid exec := by
  rw [tally,tally,quiet.machine,quiet.reports]

section Tasks
variable {task : Task ProcessId RunCmd} {queue tasks : List (Task ProcessId RunCmd)}

theorem refusals_released {machine : Machine ProcessId RunCmd ProcessState} {status : ExitStatus} {other : ProcessId}
    (inv : Machine.Inv exec.machine) (finishes : Machine.Finishes exec.machine other status tasks machine) :
    refusals pid tasks = 0 := by
  refine List.countP_eq_zero.mpr fun task member => ?_
  obtain ⟨waiter,waiting,_,rfl,_⟩ := finishes.task_starts inv member
  simp [Task.refuses]

theorem tally_finished {status : ExitStatus} {other : ProcessId} {code : Int} (inv : Machine.Inv exec.machine)
    (finishes : Machine.Finishes exec.machine other status tasks next.machine)
    (ready : other ∈ exec.machine.toRun ∨ other ∈ exec.machine.running)
    (silent : reports pid next = reports pid exec) : tally pid (report next other code) = tally pid exec := by
  have owed := @Machine.Finishes.owed _ _ _ _ _ _ _ pid _ _ inv finishes ready
  rw [tally,reports_report,silent,tally,← owed]
  change next.machine.owed pid + _ = _
  omega

theorem processTask_tally (inv : Machine.Inv exec.machine) (ok : processTask os task exec = .ok (.ok tasks,next)) :
    refusals pid tasks = 0 ∧ tally pid next = tally pid exec + if Task.refuses pid task then 1 else 0 := by
  cases processTask_cases ok with
  | refused other cmd =>
    refine ⟨rfl,?_⟩
    rw [tally,reports_report,tally,← Nat.add_assoc]
    simp [Task.refuses,report]
  | started other cmd state middle ran quiet toRun =>
    have silent : reports pid middle = reports pid exec := quiet.reports pid
    refine ⟨rfl,?_⟩
    rw [tally,tally,← silent,← @Machine.owed_started _ _ _ _ _ _ pid state toRun]
    rfl
  | done other cmd exitCode middle tasks machine ran quiet completed =>
    obtain ⟨toRun,_,finishes⟩ := inv.startCompleted_cases completed
    exact ⟨refusals_released inv finishes,
      @tally_finished _ { middle with machine } _ _ _ _ _ inv finishes (Or.inl toRun)
      (quiet.reports pid)⟩
  | failed other cmd e middle tasks machine after ran quiet completed closed silent =>
    obtain ⟨toRun,_,finishes⟩ := inv.startCompleted_cases completed
    have told : after.machine = machine := silent.machine
    subst told
    have same : reports pid after = reports pid exec := (silent.reports pid).trans (quiet.reports pid)
    exact ⟨refusals_released inv finishes,tally_finished inv finishes (Or.inl toRun) same⟩

theorem processTask_owes (inv : Machine.Inv exec.machine) (ok : processTask os task exec = .ok (.ok tasks,next)) :
    tally pid next + refusals pid (queue ++ tasks) = tally pid exec + refusals pid (task :: queue) := by
  obtain ⟨none,counted⟩ := @processTask_tally _ _ _ pid _ _ inv ok
  rw [refusals_append,none,counted,refusals,refusals,List.countP_cons]
  omega

end Tasks

theorem enqueued_tally {other : ProcessId} {cmd : RunCmd} {blockFor : OrderedMap ProcessId Condition}
    {tasks : List (Task ProcessId RunCmd)} {machine : Machine ProcessId RunCmd ProcessState}
    (enqueued : exec.machine.enqueue other cmd blockFor = .ok (tasks,machine)) :
    tally pid { exec with machine } + refusals pid tasks = tally pid exec + if other = pid then 1 else 0 := by
  obtain ⟨fresh,added⟩ := Machine.enqueue_cases _ _ _ _ _ _ enqueued
  have absent : ¬exec.machine.Unfinished other := fun unfinished => fresh (Or.inr unfinished)
  have grown (given : ∀ pid, machine.Unfinished pid ↔ pid = other ∨ exec.machine.Unfinished pid) :
      tally pid { exec with machine } = tally pid exec + if other = pid then 1 else 0 := by
    have owed : machine.owed pid = exec.machine.owed pid + if other = pid then 1 else 0 := by
      unfold Machine.owed
      by_cases same : other = pid
      · subst same
        rw [if_pos ((given other).mpr (Or.inl rfl)),if_neg absent,if_pos rfl]
      · have iff : machine.Unfinished pid ↔ exec.machine.Unfinished pid :=
          (given pid).trans (or_iff_right fun equal => same equal.symm)
        rw [if_congr iff rfl rfl,if_neg same,Nat.add_zero]
    rw [tally,tally,owed]
    change _ + reports pid exec = _
    omega
  cases added with
  | refused before entry after shape passed refuses =>
    congr 1
    by_cases same : other = pid <;> simp [refusals,Task.refuses,same]
  | ready passed all =>
    refine grown fun pid => ?_
    simp only [Machine.Unfinished,Finset.mem_insert,or_assoc]
  | blocked next passed some after => exact grown after.unfinished_iff

/-- What an event does before its tasks. One without tasks sends the message it carries, and
starts a thread where it begins a read. -/
inductive Opens (exec : ExecInternal) : ExecEvent → List (Task ProcessId RunCmd) → ExecInternal → Prop
  | enqueued (pid cmd blockFor tasks machine) (enqueued : exec.machine.enqueue pid cmd blockFor = .ok (tasks,machine)) :
      Opens exec (.enqueue pid cmd blockFor) tasks { exec with machine }
  | completed (pid exitCode tasks machine)
      (completed : exec.machine.completed pid (.fromExitCode exitCode) = .ok (tasks,machine)) :
      Opens exec (.completed pid exitCode) tasks (report { exec with machine } pid exitCode)
  | edited (editId data pid path tasks machine) (found : exec.waitingEdits.lookup editId = some (pid,path))
      (completed : exec.machine.completed pid (.fromExitCode 0) = .ok (tasks,machine)) :
      Opens exec (.editComplete editId data) tasks (report { exec with
        waitingEdits := exec.waitingEdits.erase editId
        effects := exec.effects ++ [.written path data]
        machine } pid 0)
  | plain (event next more) (quiet : Quiet exec next) (effects : next.effects = exec.effects ++ more)
      (said : more.filterMap Effect.response? = (event.envelope?.map RemoteResponse.pipe).toList)
      (read : (more.filterMap Effect.reader?).map Prod.fst = event.reads?.toList)
      (other : ∀ pid, event.enqueues pid = false)
      (idle : ∀ effect ∈ more, effect.process? = none ∧ effect.writer? = none) : Opens exec event [] next

private theorem send_plain {response : RemoteResponse} {envelope : PipeEnvelope} (shape : response = .pipe envelope)
    (ok : send os response exec = .ok (.ok (),next)) (asked : event.envelope? = some envelope)
    (unread : event.reads? = none) (other : ∀ pid, event.enqueues pid = false) : Opens exec event [] next := by
  have quiet := (send_quiet os response (by simp [shape])).after ok
  obtain ⟨_,_,sent,ok⟩ := bind_ok.mp ok
  obtain ⟨_,rfl⟩ := Prod.mk.inj (Except.ok.inj sent)
  obtain ⟨_,rfl⟩ := cause_ok ok
  refine .plain event _ [.sent response] quiet rfl ?_ ?_ other (by simp [Effect.process?,Effect.writer?])
  · rw [shape,asked]
    rfl
  · rw [unread]
    rfl

private theorem pipeMessage_plain {pipe : GenericPipe} {msg : PipeMessage}
    (ok : pipeMessage os pipe msg exec = .ok (.ok (),next)) : Opens exec (.pipeMessage pipe msg) [] next := by
  have quiet := (pipeMessage_quiet os pipe msg).after ok
  cases msg with
  | beginRead =>
    obtain ⟨handle,_,taken,ok⟩ := bind_ok.mp ok
    obtain ⟨_,_,caused,ok⟩ := bind_ok.mp ok
    obtain ⟨_,rfl⟩ := Prod.mk.inj (Except.ok.inj ok)
    obtain ⟨_,rfl⟩ := cause_ok caused
    refine .plain _ _ [.reader pipe handle] quiet ?_ rfl rfl (fun _ => rfl) (by simp [Effect.process?,Effect.writer?])
    rw [(readEnd_ends taken).1.effects]
  | read limit =>
    obtain ⟨_,rfl⟩ := pure_ok.mp ok
    exact .plain _ _ [] quiet (List.append_nil _).symm rfl rfl (fun _ => rfl) (by simp)
  | closed => cases ok
  | data => cases ok

theorem processTasks_none (exec : ExecInternal) : processTasks os [] exec = .ok (.ok (),exec) := rfl

theorem handle_opens (ok : handle os event exec = .ok next) :
    ∃ tasks start, Opens exec event tasks start ∧ processTasks os tasks start = .ok (.ok (),next) := by
  have plain (opens : Opens exec event [] next) : ∃ tasks start, Opens exec event tasks start ∧
      processTasks os tasks start = .ok (.ok (),next) := ⟨[],next,opens,processTasks_none next⟩
  have done := handle_ok.mp ok
  cases event with
  | enqueue pid cmd blockFor =>
    obtain ⟨tasks,middle,called,processed⟩ := bind_ok.mp done
    obtain ⟨_,machine,enqueued,same,rfl⟩ := onMachine_ok.mp called
    obtain rfl := Except.ok.inj same
    exact ⟨_,_,.enqueued pid cmd blockFor tasks machine enqueued,processed⟩
  | completed pid exitCode =>
    obtain ⟨tasks,machine,completed,processed⟩ := completed_cases done
    exact ⟨_,_,.completed pid exitCode tasks machine completed,processed⟩
  | editComplete editId data =>
    obtain ⟨pid,path,found,done⟩ := finishEdit_cases done
    obtain ⟨tasks,machine,completed,processed⟩ := completed_cases done
    exact ⟨_,_,.edited editId data pid path tasks machine found completed,processed⟩
  | openOutputFile pipe path =>
    obtain ⟨_,rfl⟩ := openOutputFile_ok done
    exact plain (.plain _ _ [] (.same rfl rfl) (List.append_nil _).symm rfl rfl (fun _ => rfl) (by simp))
  | openInputFile pipe path =>
    obtain ⟨_,rfl⟩ := openInputFile_ok done
    exact plain (.plain _ _ [] (.same rfl rfl) (List.append_nil _).symm rfl rfl (fun _ => rfl) (by simp))
  | cancelExec pid =>
    obtain ⟨more,rfl,kills⟩ := cancel_ok done
    refine plain (.plain _ _ more ⟨rfl,more,rfl,?_⟩ rfl ?_ ?_ (fun _ => rfl) ?_)
    · intro pid code member
      obtain ⟨child,shape⟩ := kills _ member
      cases shape
    · refine List.filterMap_eq_nil_iff.mpr fun effect member => ?_
      obtain ⟨child,rfl⟩ := kills effect member
      rfl
    · refine List.map_eq_nil_iff.mpr (List.filterMap_eq_nil_iff.mpr fun effect member => ?_)
      obtain ⟨child,rfl⟩ := kills effect member
      rfl
    · intro effect member
      obtain ⟨child,rfl⟩ := kills effect member
      exact ⟨rfl,rfl⟩
  | pipeClosed pipe endOffset => exact plain (send_plain rfl done rfl rfl fun _ => rfl)
  | pipeOutput pipe data endOffset => exact plain (send_plain rfl done rfl rfl fun _ => rfl)
  | pipeMessage pipe msg => exact plain (pipeMessage_plain done)

theorem Opens.inv {tasks : List (Task ProcessId RunCmd)} (opens : Opens exec event tasks start)
    (inv : Machine.Inv exec.machine) : Machine.Inv start.machine := by
  cases opens with
  | enqueued pid cmd blockFor tasks machine enqueued =>
    have call : exec.machine.call (.enqueue pid cmd blockFor) = .ok (tasks,machine) := enqueued
    exact (inv.call_cases call).inv inv
  | completed pid exitCode tasks machine completed =>
    have call : exec.machine.call (.completed pid (.fromExitCode exitCode)) = .ok (tasks,machine) := completed
    exact (inv.call_cases call).inv inv
  | edited editId data pid path tasks machine found completed =>
    have call : exec.machine.call (.completed pid (.fromExitCode 0)) = .ok (tasks,machine) := completed
    exact (inv.call_cases call).inv inv
  | plain event next more quiet => exact quiet.machine ▸ inv

theorem Opens.owes {tasks : List (Task ProcessId RunCmd)} (opens : Opens exec event tasks start)
    (inv : Machine.Inv exec.machine) :
    tally pid start + refusals pid tasks = tally pid exec + if event.enqueues pid then 1 else 0 := by
  cases opens with
  | enqueued other cmd blockFor tasks machine enqueued => simpa [ExecEvent.enqueues] using enqueued_tally enqueued
  | completed other exitCode tasks machine completed =>
    obtain ⟨running,_,finishes⟩ := inv.completed_cases completed
    rw [refusals_released inv finishes]
    exact @tally_finished _ { exec with machine } _ _ _ _ _ inv finishes (Or.inr running) rfl
  | edited editId data other path tasks machine found completed =>
    obtain ⟨running,_,finishes⟩ := inv.completed_cases completed
    rw [refusals_released inv finishes]
    refine @tally_finished _ { exec with
      waitingEdits := exec.waitingEdits.erase editId
      effects := exec.effects ++ [.written path data]
      machine } _ _ _ _ _ inv finishes (Or.inr running) ?_
    simp [reports,results,List.filterMap_append,result]
  | plain event next more quiet effects said read other =>
    rw [other,tally_quiet quiet]
    rfl

/-- An event owes its command one more result, and each result that is sent is owed no more. -/
theorem handle_tally (inv : Machine.Inv exec.machine) (ok : handle os event exec = .ok next) :
    tally pid next = tally pid exec + if event.enqueues pid then 1 else 0 := by
  obtain ⟨tasks,start,opens,processed⟩ := handle_opens ok
  have kept := processTasks_queue (fun queue last => Machine.Inv last.machine ∧
    tally pid last + refusals pid queue = tally pid start + refusals pid tasks)
    (fun _ _ _ _ _ kept ok => ⟨processTask_inv kept.1 ok,(processTask_owes kept.1 ok).trans kept.2⟩)
    ⟨opens.inv inv,rfl⟩ processed
  exact kept.2.trans (opens.owes inv)

theorem handle_reads (handled : Handled exec event next) (ok : handle os event exec = .ok next) :
    ((next.effects.drop exec.effects.length).filterMap Effect.reader?).map Prod.fst = event.reads?.toList := by
  have unread (none : event.reads? = none) :
      ((next.effects.drop exec.effects.length).filterMap Effect.reader?).map Prod.fst = event.reads?.toList := by
    rw [none]
    refine List.map_eq_nil_iff.mpr (List.filterMap_eq_nil_iff.mpr fun effect member => ?_)
    cases handled.caused effect member with
    | closing pid cmd effect requested unfinished closing => cases closing <;> rfl
    | reader pipe handle asked =>
      rw [asked] at none
      cases none
    | _ => rfl
  obtain ⟨tasks,start,opens,processed⟩ := handle_opens ok
  cases opens with
  | enqueued => exact unread rfl
  | completed => exact unread rfl
  | edited => exact unread rfl
  | plain event start more quiet effects said read other =>
    rw [processTasks_none] at processed
    obtain ⟨_,rfl⟩ := Prod.mk.inj (Except.ok.inj processed)
    rw [effects,List.drop_left,read]

def responses (exec : ExecInternal) : List RemoteResponse := exec.effects.filterMap Effect.response?

theorem responses_append {more : List Effect} (effects : next.effects = exec.effects ++ more) :
    responses next = responses exec ++ more.filterMap Effect.response? := by
  rw [responses,effects,List.filterMap_append,responses]

theorem reported_responses (pid : ProcessId) (exec : ExecInternal) :
    (reportedCommands (responses exec)).count pid = reports pid exec := by
  suffices counted : ∀ effects : List Effect, (reportedCommands (effects.filterMap Effect.response?)).count pid =
      (results pid effects).length from counted exec.effects
  intro effects
  induction effects with
  | nil => rfl
  | cons effect effects ih =>
    cases effect with
    | sent response =>
      cases response with
      | commandDone other code =>
        by_cases same : other = pid <;>
          simp_all [reportedCommands,results,result,Effect.response?,RemoteResponse.reports?]
      | _ => exact ih
    | _ => exact ih

/-- What may be sent after what has been: nothing about a command that was reported. -/
def Permits (before : List RemoteResponse) : RemoteResponse → Prop
  | .commandDone pid _ => pid ∉ reportedCommands before
  | .editRequest pid _ _ _ => pid ∉ reportedCommands before
  | .pipe ⟨_,.data _ _⟩ => True
  | .pipe ⟨_,.closed _⟩ => True
  | _ => False

def Asks (pid : ProcessId) (exec next : ExecInternal) : Prop :=
  ∃ more, responses next = responses exec ++ more ∧
    ∀ response ∈ more, ∃ editId name data, response = .editRequest pid editId name data

theorem Asks.trans {middle : ExecInternal} (first : Asks pid exec middle) (second : Asks pid middle next) :
    Asks pid exec next := by
  obtain ⟨more,said,asks⟩ := first
  obtain ⟨rest,said',asks'⟩ := second
  refine ⟨more ++ rest,by rw [said',said,List.append_assoc],?_⟩
  intro response member
  exact (List.mem_append.mp member).elim (asks response) (asks' response)

theorem asks_acting {more : List Effect} (effects : next.effects = exec.effects ++ more)
    (acts : ∀ effect ∈ more, effect.actor (some pid) = some pid) (quiet : Quiet exec next) : Asks pid exec next := by
  refine ⟨_,responses_append effects,?_⟩
  intro response member
  obtain ⟨effect,caused,shape⟩ := List.mem_filterMap.mp member
  have acted := acts effect caused
  obtain ⟨other,appended,silent⟩ := quiet.effects
  obtain rfl := List.append_cancel_left (effects.symm.trans appended)
  cases effect with
  | sent answer =>
    obtain rfl := Option.some.inj shape
    cases answer with
    | commandDone other code => exact absurd caused (silent other code)
    | editRequest other editId name data =>
      obtain rfl := Option.some.inj acted
      exact ⟨editId,name,data,rfl⟩
    | _ => cases acted
  | _ => cases shape

theorem run_asks {c : RunCmd} {result : Except Error RunResult} (ok : run os pid c exec = .ok (result,next)) :
    Asks pid exec next := by
  obtain ⟨more,effects,acts⟩ := run_acts ok
  refine asks_acting effects ?_ (((quiet_frame os).run pid c).after ok)
  intro effect member
  rcases List.mem_cons.mp member with rfl | later
  · rfl
  · exact (acts effect later).own

theorem Permits.edits {before more : List RemoteResponse} (permitted : Guarded Permits before)
    (unreported : pid ∉ reportedCommands before)
    (asks : ∀ response ∈ more, ∃ editId name data, response = .editRequest pid editId name data) :
    Guarded Permits (before ++ more) ∧ pid ∉ reportedCommands (before ++ more) := by
  have none (early : List RemoteResponse) (all : ∀ response ∈ early, response ∈ more) :
    reportedCommands early = [] := by
    refine List.filterMap_eq_nil_iff.mpr fun response member => ?_
    obtain ⟨_,_,_,rfl⟩ := asks response (all response member)
    rfl
  have still (early : List RemoteResponse) (all : ∀ response ∈ early, response ∈ more) :
      pid ∉ reportedCommands (before ++ early) := by
    rw [Session.reportedCommands_append,none early all,List.append_nil]
    exact unreported
  refine ⟨permitted.append ?_,still more fun _ => id⟩
  intro early response late split
  obtain ⟨_,_,_,rfl⟩ := asks response (by simp [split])
  exact still early fun other member => by simp [split,member]

theorem responses_report (exec : ExecInternal) (pid : ProcessId) (code : Int) :
    responses (report exec pid code) = responses exec ++ [.commandDone pid code] := by
  rw [@responses_append exec (report exec pid code) [.sent (.commandDone pid code)] rfl]
  rfl

theorem owed_ready (ready : pid ∈ exec.machine.toRun ∨ pid ∈ exec.machine.running) : 0 < exec.machine.owed pid := by
  have unfinished : exec.machine.Unfinished pid := ready.elim Or.inl fun running => Or.inr (Or.inl running)
  rw [Machine.owed,if_pos unfinished]
  exact Nat.one_pos

section Speaking
variable {task : Task ProcessId RunCmd} {queue tasks : List (Task ProcessId RunCmd)}

/-- Everything said so far is permitted and about commands that are accounted for once. -/
structure Speaking (queue : List (Task ProcessId RunCmd)) (exec : ExecInternal) : Prop where
  inv : Machine.Inv exec.machine
  most : ∀ pid, tally pid exec + refusals pid queue ≤ 1
  permitted : Guarded Permits (responses exec)
  asked : ∀ pid editId name data, .editRequest pid editId name data ∈ responses exec →
    0 < tally pid exec + refusals pid queue

theorem speaking_new : Speaking [] new where
  inv := Machine.inv_new
  most _ := Nat.zero_le _
  permitted := Guarded.nil
  asked := by simp [responses,new]

namespace Speaking

theorem unreported (speaking : Speaking queue exec) (owed : 0 < exec.machine.owed pid ∨ 0 < refusals pid queue) :
    pid ∉ reportedCommands (responses exec) := by
  intro reported
  have counted := List.count_pos_iff.mpr reported
  rw [reported_responses] at counted
  have most := speaking.most pid
  unfold tally at most
  omega

theorem quiet (speaking : Speaking queue exec) (quiet : Quiet exec next) {more : List RemoteResponse}
    (said : responses next = responses exec ++ more)
    (envelopes : ∀ response ∈ more, ∃ envelope, response = .pipe envelope)
      (permitted : Guarded Permits (responses next)) :
    Speaking queue next where
  inv := quiet.machine ▸ speaking.inv
  most pid := (congrArg (· + _) (tally_quiet quiet)).trans_le (speaking.most pid)
  permitted := permitted
  asked pid editId name data member := by
    rw [said] at member
    rw [tally_quiet quiet]
    rcases List.mem_append.mp member with old | new
    · exact speaking.asked pid editId name data old
    · obtain ⟨envelope,same⟩ := envelopes _ new
      cases same

theorem asks (speaking : Speaking queue exec) (ready : pid ∈ exec.machine.toRun) (asks : Asks pid exec next) :
    Guarded Permits (responses next) ∧ pid ∉ reportedCommands (responses next) ∧
      ∀ other editId name data, .editRequest other editId name data ∈ responses next →
        0 < tally other exec + refusals other queue := by
  obtain ⟨more,said,edits⟩ := asks
  have owed := owed_ready (Or.inl ready)
  rw [said]
  obtain ⟨permitted,unreported⟩ := Permits.edits speaking.permitted (speaking.unreported (Or.inl owed)) edits
  refine ⟨permitted,unreported,?_⟩
  intro other editId name data member
  rcases List.mem_append.mp member with old | new
  · exact speaking.asked other editId name data old
  · obtain ⟨_,_,_,same⟩ := edits _ new
    obtain ⟨rfl,_⟩ := RemoteResponse.editRequest.inj same
    unfold tally
    omega

theorem reported {code : Int} (speaking : Speaking queue exec) (inv : Machine.Inv next.machine)
    (owes : ∀ other, tally other (report next pid code) + refusals other tasks = tally other exec +
      refusals other queue)
    (permitted : Guarded Permits (responses next)) (unreported : pid ∉ reportedCommands (responses next))
    (asked : ∀ other editId name data, .editRequest other editId name data ∈ responses next →
      0 < tally other exec + refusals other queue) : Speaking tasks (report next pid code) where
  inv := inv
  most other := (owes other).trans_le (speaking.most other)
  permitted := by
    rw [responses_report]
    exact permitted.snoc unreported
  asked other editId name data member := by
    rw [responses_report] at member
    rw [owes]
    rcases List.mem_append.mp member with old | new
    · exact asked other editId name data old
    · cases List.mem_singleton.mp new

end Speaking

theorem processTask_speaking (speaking : Speaking (task :: queue) exec)
    (ok : processTask os task exec = .ok (.ok tasks,next)) : Speaking (queue ++ tasks) next := by
  have inv := processTask_inv speaking.inv ok
  have owes (other : ProcessId) := @processTask_owes _ _ _ other _ queue _ speaking.inv ok
  cases processTask_cases ok with
  | refused pid cmd =>
    have refuses : 0 < refusals pid (.conditionFailed pid cmd :: queue) :=
      List.countP_pos_iff.mpr ⟨_,List.mem_cons_self ..,by simp [Task.refuses]⟩
    exact speaking.reported inv owes speaking.permitted (speaking.unreported (Or.inr refuses)) speaking.asked
  | started pid cmd state middle ran quiet toRun =>
    obtain ⟨permitted,_,asked⟩ := speaking.asks toRun (run_asks ran)
    exact ⟨inv,fun other => (owes other).trans_le (speaking.most other),permitted,
      fun other editId name data member => (asked other editId name data member).trans_eq (owes other).symm⟩
  | done pid cmd exitCode middle tasks machine ran quiet completed =>
    obtain ⟨toRun,_⟩ := speaking.inv.startCompleted_cases completed
    obtain ⟨permitted,unreported,asked⟩ := speaking.asks toRun (run_asks ran)
    exact @Speaking.reported _ { middle with machine } _ _ _ _ speaking inv owes permitted unreported asked
  | failed pid cmd e middle tasks machine after ran quiet completed closed silent =>
    obtain ⟨toRun,_⟩ := speaking.inv.startCompleted_cases completed
    have closing : Acting pid { middle with machine } after := (acting_taking.pipeOutputAndClose _ _ _).after closed
    obtain ⟨more,effects,acts⟩ := closing
    have later : Asks pid { middle with machine } after :=
      asks_acting effects (fun effect member => (acts effect member).own) silent
    obtain ⟨permitted,unreported,asked⟩ := speaking.asks toRun ((run_asks ran).trans later)
    exact speaking.reported inv owes permitted unreported asked

theorem Opens.speaking (opens : Opens exec event tasks start) (speaking : Speaking [] exec)
    (fresh : ∀ pid, event.enqueues pid = true → tally pid exec = 0) : Speaking tasks start := by
  have inv := opens.inv speaking.inv
  have owes (other : ProcessId) := @Opens.owes _ _ _ other _ opens speaking.inv
  cases opens with
  | enqueued pid cmd blockFor tasks machine enqueued =>
    refine ⟨inv,fun other => ?_,speaking.permitted,fun other editId name data member => ?_⟩
    · have most := speaking.most other
      rw [owes]
      by_cases same : pid = other
      · rw [fresh other (by simp [ExecEvent.enqueues,same])]
        split <;> simp
      · simpa [ExecEvent.enqueues,same,refusals] using most
    · rw [owes]
      exact Nat.add_pos_left (speaking.asked other editId name data member) _
  | completed pid exitCode tasks machine completed =>
    obtain ⟨running,_⟩ := speaking.inv.completed_cases completed
    exact @Speaking.reported _ { exec with machine } _ _ _ _ speaking inv owes speaking.permitted
      (speaking.unreported (Or.inl (owed_ready (Or.inr running)))) speaking.asked
  | edited editId data pid path tasks machine found completed =>
    obtain ⟨running,_⟩ := speaking.inv.completed_cases completed
    have same : responses { exec with
        waitingEdits := exec.waitingEdits.erase editId
        effects := exec.effects ++ [.written path data]
        machine } = responses exec := (responses_append rfl).trans (List.append_nil _)
    refine @Speaking.reported _ { exec with
      waitingEdits := exec.waitingEdits.erase editId
      effects := exec.effects ++ [.written path data]
      machine } _ _ _ _ speaking inv owes ?_ ?_ ?_
    · rw [same]
      exact speaking.permitted
    · rw [same]
      exact speaking.unreported (Or.inl (owed_ready (Or.inr running)))
    · rw [same]
      exact speaking.asked
  | plain event next more quiet effects said read other =>
    have appended := responses_append effects
    rw [said] at appended
    have sent : ∀ response ∈ (event.envelope?.map RemoteResponse.pipe).toList, ∃ envelope,
        response = .pipe envelope ∧ event.envelope? = some envelope := by
      intro response member
      obtain ⟨envelope,found,same⟩ := Option.map_eq_some_iff.mp (Option.mem_toList.mp member)
      exact ⟨envelope,same.symm,found⟩
    refine speaking.quiet quiet appended ?_ ?_
    · intro response member
      obtain ⟨envelope,same,_⟩ := sent response member
      exact ⟨envelope,same⟩
    · rw [appended]
      refine speaking.permitted.append ?_
      intro before response after split
      obtain ⟨envelope,rfl,found⟩ := sent response (by simp [split])
      cases event with
      | pipeOutput pipe data endOffset =>
        obtain rfl := Option.some.inj found
        exact trivial
      | pipeClosed pipe endOffset =>
        obtain rfl := Option.some.inj found
        exact trivial
      | _ => cases found

/-- No command is reported twice, or asked about once it is reported, if none is enqueued twice. -/
theorem handle_speaking (speaking : Speaking [] exec) (fresh : ∀ pid, event.enqueues pid = true → tally pid exec = 0)
    (ok : handle os event exec = .ok next) : Speaking [] next := by
  obtain ⟨tasks,start,opens,processed⟩ := handle_opens ok
  exact processTasks_queue Speaking (fun _ _ _ _ _ speaking ok => processTask_speaking speaking ok)
    (opens.speaking speaking fresh) processed

end Speaking

end ExecInternal
end Nak
