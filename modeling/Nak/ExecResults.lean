import Nak.ExecEvents

/-! The results reported to the frontend and the statuses recorded in the machine. They
agree as long as no enqueued command is refused and no directory command fails: a refused
command is reported but not recorded, a failed directory command is recorded as a failure
and reported as a success. -/
namespace Nak.ExecInternal
open Library Action
variable {os : Os} {exec next start : ExecInternal} {event : ExecEvent}

structure ResultsAgree (exec : ExecInternal) : Prop where
  once : ∀ pid, (results pid exec.effects).length ≤ 1
  reported : ∀ pid, pid ∈ exec.machine.finished ↔ ∃ code, code ∈ results pid exec.effects
  status : ∀ pid code, code ∈ results pid exec.effects →
    exec.machine.finished.lookup pid = some (.fromExitCode code)

def Completes (exec : ExecInternal) (event : ExecEvent) (pid : ProcessId) : Prop :=
  match event with
  | .completed other _ => other = pid
  | .editComplete editId _ => ∃ path, exec.waitingEdits.lookup editId = some (pid,path)
  | _ => False

/-- The command is over as soon as it has been run. -/
def EndsAtOnce (os : Os) (pid : ProcessId) : Command → Prop
  | .unknown _ _ => ∃ e, os.spawn pid = .error e
  | .setDirectory _ => True
  | .getDirectory => True
  | .edit path => EditFails os pid path

mutual

/-- The commands that handling an event starts. -/
inductive Due (os : Os) (exec : ExecInternal) (event : ExecEvent) : ProcessId → RunCmd → Prop
  | enqueued (pid cmd blockFor) (arrives : event = .enqueue pid cmd blockFor)
      (met : ∀ entry ∈ blockFor.entries, entry.1 ∈ exec.machine.finished) : Due os exec event pid cmd
  | released (pid waiting) (waits : exec.machine.waitingOn.lookup pid = some waiting)
      (met : ∀ other, other ∈ waiting.conditions → Over os exec event other) : Due os exec event pid waiting.cmd

/-- The pids that finish while an event is handled. -/
inductive Over (os : Os) (exec : ExecInternal) (event : ExecEvent) : ProcessId → Prop
  | completed (pid) (completes : Completes exec event pid) : Over os exec event pid
  | atOnce (pid cmd) (due : Due os exec event pid cmd) (ends : EndsAtOnce os pid cmd.cmd) : Over os exec event pid

end

def DirectoryFails (os : Os) (pid : ProcessId) : Command → Prop
  | .setDirectory _ => ∃ e, os.setCurrentDir pid = .error e
  | .getDirectory => ∃ e, os.currentDir pid = .error e
  | _ => False

/-- The event neither enqueues a command that is refused nor starts a directory command
whose system call fails. -/
structure Plain (exec : ExecInternal) (label : Os × ExecEvent) : Prop where
  accepted : ∀ pid cmd blockFor, label.2 = .enqueue pid cmd blockFor →
    ∀ entry ∈ blockFor.entries, ¬exec.machine.Refuses entry
  directories : ∀ pid cmd, Due label.1 exec label.2 pid cmd → ¬DirectoryFails label.1 pid cmd.cmd

/-- A pid without a status has no result, one with a status has one result, the same. -/
def Recorded (exec : ExecInternal) : Prop :=
  ∀ pid, match exec.machine.finished.lookup pid with
    | none => results pid exec.effects = []
    | some status => ∃ code, results pid exec.effects = [code] ∧ .fromExitCode code = status

theorem Recorded.agree (recorded : Recorded exec) : ResultsAgree exec := by
  constructor
  · intro pid
    have record := recorded pid
    split at record
    · simp [record]
    · obtain ⟨code,only,_⟩ := record
      simp [only]
  · intro pid
    have record := recorded pid
    split at record
    · rename_i absent
      simp [record,Finmap.lookup_eq_none.mp absent]
    · rename_i found
      obtain ⟨code,only,_⟩ := record
      simp [only,FiniteMap.mem_of_lookup found]
  · intro pid code member
    have record := recorded pid
    split at record
    · simp [record] at member
    · rename_i found
      obtain ⟨other,only,same⟩ := record
      obtain rfl : code = other := by simpa [only] using member
      rw [found,same]

theorem results_report (pid other : ProcessId) (code : Int) :
    results other (report exec pid code).effects =
      results other exec.effects ++ if pid = other then [code] else [] := by
  by_cases same : pid = other <;>
    simp [report,results,List.filterMap_append,result,same]

theorem Quiet.results (quiet : Quiet exec next) (pid : ProcessId) :
    ExecInternal.results pid next.effects = ExecInternal.results pid exec.effects := by
  obtain ⟨more,effects,none⟩ := quiet.effects
  have silent : more.filterMap (result pid) = [] := by
    rw [List.filterMap_eq_nil_iff]
    intro effect member
    unfold result
    split
    · exact absurd member (none _ _)
    · rfl
  rw [ExecInternal.results,effects,List.filterMap_append,silent,List.append_nil]
  rfl

theorem Recorded.finish (recorded : Recorded exec) {pid : ProcessId} {code : Int}
    (unfinished : pid ∉ exec.machine.finished)
    (finished : next.machine.finished = exec.machine.finished.insert pid (.fromExitCode code))
    (sent : ∀ other, results other next.effects = results other exec.effects ++ if pid = other then [code] else []) :
    Recorded next := by
  intro other
  rw [finished,FiniteMap.lookup_insert_if,sent]
  by_cases same : other = pid
  · subst other
    have none := recorded pid
    rw [Finmap.lookup_eq_none.mpr unfinished] at none
    simp [none]
  · have different : pid ≠ other := fun equal => same equal.symm
    rw [if_neg same,if_neg different,List.append_nil]
    exact recorded other

theorem Recorded.quiet (recorded : Recorded exec) (quiet : Quiet exec next) : Recorded next := by
  intro pid
  rw [quiet.machine,quiet.results]
  exact recorded pid

structure Progress (os : Os) (start : ExecInternal) (event : ExecEvent) (queue : List (Task ProcessId RunCmd))
    (exec : ExecInternal) : Prop where
  inv : Machine.Inv exec.machine
  recorded : Recorded exec
  due : ∀ task ∈ queue, ∃ pid cmd, task = .start pid cmd ∧ Due os start event pid cmd
  waiting : ∀ waiter waiting, exec.machine.waitingOn.lookup waiter = some waiting →
    ∃ before, start.machine.waitingOn.lookup waiter = some before ∧ waiting.cmd = before.cmd ∧
      ∀ pid ∈ before.conditions, pid ∈ waiting.conditions ∨ Over os start event pid

namespace Progress
variable {queue tasks : List (Task ProcessId RunCmd)}

theorem begins (inv : Machine.Inv exec.machine) (recorded : Recorded exec) : Progress os exec event [] exec where
  inv := inv
  recorded := recorded
  due := nofun
  waiting _ waiting found := ⟨waiting,found,rfl,fun _ => Or.inl⟩

theorem quiet (progress : Progress os start event queue exec) (quiet : Quiet exec next) :
    Progress os start event queue next where
  inv := quiet.machine ▸ progress.inv
  recorded := progress.recorded.quiet quiet
  due := progress.due
  waiting := quiet.machine ▸ progress.waiting

theorem released (progress : Progress os start event queue exec) {pid waiter : ProcessId}
    (ended : Over os start event pid) {task : Task ProcessId RunCmd}
    (released : exec.machine.released pid waiter = some task) :
    ∃ cmd, task = .start waiter cmd ∧ Due os start event waiter cmd := by
  obtain ⟨waiting,found,shape⟩ := Option.bind_eq_some_iff.mp released
  split at shape
  · rename_i last
    obtain rfl := Option.some.inj shape
    obtain ⟨before,waits,same,kept⟩ := progress.waiting waiter waiting found
    refine ⟨waiting.cmd,rfl,?_⟩
    rw [same]
    apply Due.released waiter before waits
    intro other listed
    rcases kept other listed with left | ended
    · by_cases self : other = pid
      · exact self ▸ ended
      · have absent := (FiniteMap.len_eq_zero _).mp last other
        rw [Finmap.lookup_erase_ne self] at absent
        exact absurd left (Finmap.lookup_eq_none.mp absent)
    · exact ended
  · cases shape

theorem finish (progress : Progress os start event queue exec) {pid : ProcessId} {status : ExitStatus} {code : Int}
    (ready : pid ∈ exec.machine.toRun ∨ pid ∈ exec.machine.running) (ended : Over os start event pid)
    (finishes : Machine.Finishes exec.machine pid status tasks next.machine)
    (agrees : status = .fromExitCode code)
    (sent : ∀ other, results other next.effects = results other exec.effects ++ if pid = other then [code] else []) :
    Progress os start event (queue ++ tasks) next where
  inv := finishes.inv progress.inv ready
  recorded := by
    have unfinished : pid ∉ exec.machine.finished := fun finished =>
      progress.inv.finished_apart pid finished (ready.elim Or.inl fun running => Or.inr (Or.inl running))
    exact progress.recorded.finish unfinished (agrees ▸ finishes.finished) sent
  due := by
    intro task member
    rcases List.mem_append.mp member with old | new
    · exact progress.due task old
    · obtain ⟨waiter,released⟩ := (finishes.mem_tasks progress.inv task).mp new
      obtain ⟨cmd,same,due⟩ := progress.released ended released
      exact ⟨waiter,cmd,same,due⟩
  waiting := by
    intro waiter waiting found
    obtain ⟨middle,old,cmd,conditions,_⟩ := finishes.waiting found
    obtain ⟨before,waits,same,kept⟩ := progress.waiting waiter middle old
    refine ⟨before,waits,cmd.trans same,?_⟩
    intro other listed
    rcases kept other listed with left | past
    · by_cases self : other = pid
      · exact Or.inr (self ▸ ended)
      · exact Or.inl (by rw [conditions]; exact Finmap.mem_erase.mpr ⟨self,left⟩)
    · exact Or.inr past

theorem tail {task : Task ProcessId RunCmd} (progress : Progress os start event (task :: queue) exec) :
    Progress os start event queue exec :=
  { progress with due := fun task member => progress.due task (List.mem_cons_of_mem _ member) }

theorem started {pid : ProcessId} {state : ProcessState} (progress : Progress os start event queue exec)
    (toRun : pid ∈ exec.machine.toRun) : Progress os start event queue { exec with
      machine := { exec.machine with
        toRun := exec.machine.toRun.erase pid
        running := exec.machine.running.insert pid state } } :=
  { progress with inv := progress.inv.started state toRun }

end Progress

/-- A command that has been run without becoming a process is over at once, and unless it
is a failing directory command its status is that of the code it is reported with. -/
theorem run_over {pid : ProcessId} {cmd : RunCmd} {result : Except Error RunResult}
    (cases : RunCases os pid cmd.cmd result) (due : Due os start event pid cmd)
    (instant : ∀ state, result ≠ .ok (.process state)) : Over os start event pid := by
  apply Over.atOnce pid cmd due
  obtain ⟨cmd,pipes⟩ := cmd
  cases cases with
  | spawned path args child => exact absurd rfl (instant _)
  | unspawned path args e spawn => exact ⟨e,spawn⟩
  | directorySet => trivial
  | directoryUnset => trivial
  | directoryRead => trivial
  | directoryUnread => trivial
  | editing path => exact absurd rfl (instant _)
  | unedited path e fails => exact fails

private theorem run_succeeds {pid : ProcessId} {cmd : RunCmd} {exitCode : Int}
    (cases : RunCases os pid cmd.cmd (.ok (.alreadyDone exitCode))) (works : ¬DirectoryFails os pid cmd.cmd) :
    exitCode = 0 := by
  obtain ⟨cmd,pipes⟩ := cmd
  cases cases with
  | directorySet => rfl
  | directoryUnset dir e set => exact absurd ⟨e,set⟩ works
  | directoryRead => rfl
  | directoryUnread e got => exact absurd ⟨e,got⟩ works

theorem processTask_progress (plain : Plain start (os,event)) {task : Task ProcessId RunCmd}
    {queue tasks : List (Task ProcessId RunCmd)} (progress : Progress os start event (task :: queue) exec)
    (ok : processTask os task exec = .ok (.ok tasks,next)) : Progress os start event (queue ++ tasks) next := by
  obtain ⟨_,_,shape,due⟩ := progress.due task (List.mem_cons_self ..)
  cases processTask_cases ok with
  | refused => cases shape
  | started pid cmd state middle ran quiet toRun =>
    rw [List.append_nil]
    have after := progress.tail.quiet quiet
    rw [← quiet.machine] at toRun ⊢
    exact after.started toRun
  | done pid cmd exitCode middle tasks machine ran quiet completed =>
    obtain ⟨rfl,rfl⟩ := Task.start.inj shape
    have cases := run_cases ran
    have success : exitCode = 0 := run_succeeds cases (plain.directories pid cmd due)
    have ended := run_over cases due (by nofun)
    obtain ⟨toRun,_,finishes⟩ := progress.inv.startCompleted_cases completed
    apply progress.tail.finish (Or.inl toRun) ended finishes (by rw [success])
    intro other
    rw [results_report,← quiet.results]
  | failed pid cmd e middle tasks machine after ran quiet completed closed silent =>
    obtain ⟨rfl,rfl⟩ := Task.start.inj shape
    have ended := run_over (run_cases ran) due (by nofun)
    obtain ⟨toRun,_,finishes⟩ := progress.inv.startCompleted_cases completed
    have same : (report after pid 1).machine = machine := silent.machine
    rw [← same] at finishes
    apply progress.tail.finish (Or.inl toRun) ended finishes (show _ = ExitStatus.fromExitCode 1 from rfl)
    intro other
    rw [results_report,silent.results,← quiet.results]

theorem processTasks_recorded (plain : Plain start (os,event)) {tasks : List (Task ProcessId RunCmd)}
    (progress : Progress os start event tasks exec) (ok : processTasks os tasks exec = .ok (.ok (),next)) :
    Recorded next := by
  have done := processTasks_queue (Progress os start event)
    (fun _ _ _ _ _ progress ok => processTask_progress plain progress ok) progress ok
  exact done.recorded

private theorem enqueued_recorded (inv : Machine.Inv exec.machine) (recorded : Recorded exec) {pid : ProcessId}
    {cmd : RunCmd} {blockFor : OrderedMap ProcessId Condition} {tasks : List (Task ProcessId RunCmd)}
    {machine : Machine ProcessId RunCmd ProcessState} (plain : Plain exec (os,.enqueue pid cmd blockFor))
    (enqueued : exec.machine.enqueue pid cmd blockFor = .ok (tasks,machine))
    (processed : processTasks os tasks { exec with machine } = .ok (.ok (),next)) : Recorded next := by
  obtain ⟨fresh,cases⟩ := Machine.enqueue_cases _ _ _ _ _ _ enqueued
  have begins : Progress os exec (.enqueue pid cmd blockFor) [] exec := .begins inv recorded
  cases cases with
  | refused before entry after shape passed refuses =>
    exact absurd refuses (plain.accepted pid cmd blockFor rfl entry (by simp [shape]))
  | ready passed all =>
    have met : ∀ entry ∈ blockFor.entries, entry.1 ∈ exec.machine.finished := by
      intro entry member
      have settled := all entry.1
      unfold Machine.residual at settled
      split at settled
      · assumption
      · rw [AList.mem_lookup_iff.mpr member] at settled
        cases settled
    refine processTasks_recorded plain ?_ processed
    refine ⟨inv.ready fresh,recorded,?_,begins.waiting⟩
    intro task member
    exact ⟨pid,cmd,List.mem_singleton.mp member,.enqueued pid cmd blockFor rfl met⟩
  | blocked _ passed some after =>
    -- A blocked command leaves no task, so the event ends with what `enqueue` did.
    have unchanged := processTasks_queue (fun queue last => queue = [] ∧ last = { exec with machine })
      (fun _ _ _ _ _ empty _ => by simp at empty) ⟨rfl,rfl⟩ processed
    obtain ⟨_,rfl⟩ := unchanged
    intro other
    have same : machine.finished = exec.machine.finished := after.finished
    simp only [same]
    exact recorded other

theorem handle_recorded (inv : Machine.Inv exec.machine) (recorded : Recorded exec) (plain : Plain exec (os,event))
    (ok : handle os event exec = .ok next) : Recorded next := by
  have begins : Progress os exec event [] exec := .begins inv recorded
  cases handle_cases ok with
  | enqueued pid cmd blockFor tasks machine next enqueued processed =>
    exact enqueued_recorded inv recorded plain enqueued processed
  | completed pid exitCode tasks machine next completed processed =>
    obtain ⟨running,_,finishes⟩ := inv.completed_cases completed
    have ended : Over os exec (.completed pid exitCode) pid := .completed pid rfl
    refine processTasks_recorded plain (begins.finish (Or.inr running) ended finishes rfl ?_) processed
    exact fun other => results_report pid other exitCode
  | edited editId data pid path tasks machine next found completed processed =>
    obtain ⟨running,_,finishes⟩ := inv.completed_cases completed
    have ended : Over os exec (.editComplete editId data) pid := .completed pid ⟨path,found⟩
    refine processTasks_recorded plain (begins.finish (Or.inr running) ended finishes rfl ?_) processed
    intro other
    rw [results_report]
    congr 1
    simp [results,List.filterMap_append,result]
  | quiet _ next quiet => exact recorded.quiet quiet

/-- In every run of such events the results and the statuses agree after each of them. -/
theorem results_agree {trace : List (Os × ExecEvent)} (run : (system.restrict Plain).Run trace exec) :
    ResultsAgree exec := by
  suffices kept : Machine.Inv exec.machine ∧ Recorded exec from kept.2.agree
  refine run.invariant (fun _ exec => Machine.Inv exec.machine ∧ Recorded exec) ?_ ?_
  · intro _ same
    obtain rfl := same
    exact ⟨Machine.inv_new,fun _ => rfl⟩
  · intro trace exec label next before kept taken
    obtain ⟨ok,plain⟩ := taken
    exact ⟨handle_inv kept.1 ok,handle_recorded kept.1 kept.2 plain ok⟩

private def reading : RunCmd := ⟨.getDirectory,⟨1⟩,⟨2⟩,⟨3⟩⟩

private def asking (os : Os) : Os × ExecEvent := (os,.enqueue ⟨0⟩ reading ∅)

theorem results_agree_directory : ∃ exec, (system.restrict Plain).Run [asking .working] exec ∧
    ResultsAgree exec ∧ results ⟨0⟩ exec.effects = [0] := by
  obtain ⟨exec,handled,sent⟩ : ∃ exec, handle .working (asking .working).2 new = .ok exec ∧
    results ⟨0⟩ exec.effects = [0] := ⟨_,rfl,rfl⟩
  have plain : Plain new (asking .working) := by
    constructor
    · intro pid cmd blockFor shape entry member
      cases shape
      cases member
    · intro pid cmd _ fails
      unfold DirectoryFails at fails
      split at fails
      · obtain ⟨e,⟨⟩⟩ := fails
      · obtain ⟨e,⟨⟩⟩ := fails
      · exact fails
  have run : (system.restrict Plain).Run [asking .working] exec := .step (.initial rfl) ⟨handled,plain⟩
  exact ⟨exec,run,results_agree run,sent⟩

private def unreadable : Os := { Os.working with currentDir := fun _ => .error ⟨.notFound,"No such directory"⟩ }

private def refused : Os × ExecEvent :=
  (.working,.enqueue ⟨1⟩ reading (AList.insert ⟨0⟩ (some .failure) ∅))

/-- A directory that cannot be read is a failure to the machine and a success to the
frontend; a command whose condition has already failed is reported but never recorded. -/
theorem results_disagree :
    (∃ exec, system.Run [asking unreadable] exec ∧ ¬ResultsAgree exec) ∧
    ∃ exec, system.Run [asking .working,refused] exec ∧ ¬ResultsAgree exec := by
  constructor
  · obtain ⟨exec,handled,recorded,sent⟩ : ∃ exec,
        [asking unreadable].foldlM (fun exec label => handle label.1 label.2 exec) new = .ok exec ∧
        exec.machine.finished.lookup ⟨0⟩ = some .failure ∧ results ⟨0⟩ exec.effects = [0] := ⟨_,rfl,rfl,rfl⟩
    refine ⟨exec,System.feed_run new _ handled,fun agree => ?_⟩
    have success := agree.status ⟨0⟩ 0 (by simp [sent])
    rw [recorded] at success
    cases success
  · obtain ⟨exec,handled,recorded,sent⟩ : ∃ exec,
        [asking .working,refused].foldlM (fun exec label => handle label.1 label.2 exec) new = .ok exec ∧
        exec.machine.finished.lookup ⟨1⟩ = none ∧ results ⟨1⟩ exec.effects = [1] := ⟨_,rfl,rfl,rfl⟩
    refine ⟨exec,System.feed_run new _ handled,fun agree => ?_⟩
    have finished := (agree.reported ⟨1⟩).mpr ⟨1,by simp [sent]⟩
    exact Finmap.lookup_eq_none.mp recorded finished

end Nak.ExecInternal
