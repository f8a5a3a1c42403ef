import Nak.ExecTaken

/-! What becomes of a command between the event that enqueues it and its result. One that is
reported has handed out its write ends, unless it was refused or had been edited. -/
namespace Nak.ExecInternal
open Library Action
variable {os : Os} {exec next start : ExecInternal} {event : ExecEvent} {pid : ProcessId} {cmd : RunCmd}

def reports (pid : ProcessId) (exec : ExecInternal) : Nat := (results pid exec.effects).length

theorem reports_report (pid other : ProcessId) (code : Int) :
    reports other (report exec pid code) = reports other exec + if pid = other then 1 else 0 := by
  rw [reports,results_report,List.length_append,reports]
  split <;> rfl

theorem Quiet.reports (quiet : Quiet exec next) (pid : ProcessId) :
    ExecInternal.reports pid next = ExecInternal.reports pid exec := by
  rw [ExecInternal.reports,quiet.results,ExecInternal.reports]

/-- The command has been enqueued and not been reported. -/
inductive Pending (exec : ExecInternal) (pid : ProcessId) (cmd : RunCmd) : Prop
  | waiting (waiting) (waits : exec.machine.waitingOn.lookup pid = some waiting) (same : waiting.cmd = cmd)
  | running (child) (runs : exec.machine.running.lookup pid = some (.running child))
      (hands : HandsOut exec cmd.pipes)
  | editing (edits : exec.machine.running.lookup pid = some .awaitingEdit)

theorem Pending.known (pending : Pending exec pid cmd) : exec.machine.Known pid := by
  cases pending with
  | waiting waiting waits => exact Or.inr (Or.inr (Or.inr (FiniteMap.mem_of_lookup waits)))
  | running child runs => exact Or.inr (Or.inr (Or.inl (FiniteMap.mem_of_lookup runs)))
  | editing edits => exact Or.inr (Or.inr (Or.inl (FiniteMap.mem_of_lookup edits)))

section Tasks
variable {queue tasks : List (Task ProcessId RunCmd)} {task : Task ProcessId RunCmd}
  {asked : ProcessId → RunCmd → Prop}

/-- Where a command is while the tasks of an event are handled. -/
inductive Fate (start : ExecInternal) (queue : List (Task ProcessId RunCmd)) (exec : ExecInternal)
    (pid : ProcessId) (cmd : RunCmd) : Prop
  | pending (same : reports pid exec = reports pid start) (pending : Pending exec pid cmd)
  | queued (same : reports pid exec = reports pid start) (queued : .start pid cmd ∈ queue)
  | reported (more : reports pid start < reports pid exec) (hands : HandsOut exec cmd.pipes)

structure Tending (asked : ProcessId → RunCmd → Prop) (start : ExecInternal)
    (queue : List (Task ProcessId RunCmd)) (exec : ExecInternal) : Prop where
  inv : Machine.Inv exec.machine
  queued : ∀ task ∈ queue, ∃ pid cmd, task = .start pid cmd ∧ asked pid cmd
  waits : ∀ pid waiting, exec.machine.waitingOn.lookup pid = some waiting → asked pid waiting.cmd
  running : ∀ pid state, start.machine.running.lookup pid = some state →
    exec.machine.running.lookup pid = some state
  reported : ∀ pid, reports pid exec = reports pid start ∨ ∃ cmd, asked pid cmd
  fate : ∀ pid cmd, asked pid cmd → Fate start queue exec pid cmd

theorem Fate.onward (fate : Fate start (task :: queue) exec pid cmd) (other : task ≠ .start pid cmd)
    (kept : KeepsTaken exec next) (same : reports pid next = reports pid exec)
    (runs : next.machine.running.lookup pid = exec.machine.running.lookup pid)
    (waits : ∀ waiting, exec.machine.waitingOn.lookup pid = some waiting →
      (∃ later, next.machine.waitingOn.lookup pid = some later ∧ later.cmd = waiting.cmd) ∨
        .start pid waiting.cmd ∈ tasks) : Fate start (queue ++ tasks) next pid cmd := by
  cases fate with
  | pending before pending =>
    have now := same.trans before
    cases pending with
    | waiting waiting found shape =>
      subst shape
      rcases waits waiting found with ⟨later,stays,cmd⟩ | released
      · exact .pending now (.waiting later stays cmd)
      · exact .queued now (List.mem_append_right _ released)
    | running child found hands => exact .pending now (.running child (runs.trans found) (hands.kept kept))
    | editing found => exact .pending now (.editing (runs.trans found))
  | queued before queued =>
    rcases List.mem_cons.mp queued with first | later
    · exact absurd first.symm other
    · exact .queued (same.trans before) (List.mem_append_left _ later)
  | reported more hands => exact .reported (same ▸ more) (hands.kept kept)

/-- What a task does to the commands that wait: each stays, or is let go. -/
structure LetsGo (machine next : Machine ProcessId RunCmd ProcessState) (tasks : List (Task ProcessId RunCmd)) :
    Prop where
  waits : ∀ pid waiting, machine.waitingOn.lookup pid = some waiting →
    (∃ later, next.waitingOn.lookup pid = some later ∧ later.cmd = waiting.cmd) ∨ .start pid waiting.cmd ∈ tasks
  before : ∀ pid later, next.waitingOn.lookup pid = some later →
    ∃ waiting, machine.waitingOn.lookup pid = some waiting ∧ later.cmd = waiting.cmd
  tasks : ∀ task ∈ tasks, ∃ pid waiting, task = .start pid waiting.cmd ∧
    machine.waitingOn.lookup pid = some waiting

theorem LetsGo.none {machine next : Machine ProcessId RunCmd ProcessState}
    (same : next.waitingOn = machine.waitingOn) : LetsGo machine next [] where
  waits pid waiting found := Or.inl ⟨waiting,by rw [same,found],rfl⟩
  before pid later found := ⟨later,by rw [← same,found],rfl⟩
  tasks := nofun

theorem LetsGo.finishes {machine next : Machine ProcessId RunCmd ProcessState} {status : ExitStatus}
    (inv : Machine.Inv machine) (finishes : Machine.Finishes machine pid status tasks next) :
    LetsGo machine next tasks where
  waits other waiting found := by
    rcases finishes.waiter found with ⟨_,stays⟩ | ⟨_,_,released⟩
    · exact Or.inl ⟨_,stays,rfl⟩
    · exact Or.inr ((finishes.mem_tasks inv _).mpr ⟨other,released⟩)
  before other later found := by
    obtain ⟨waiting,old,cmd,_⟩ := finishes.waiting found
    exact ⟨waiting,old,cmd⟩
  tasks task member := by
    obtain ⟨other,waiting,found,shape,_⟩ := finishes.task_starts inv member
    exact ⟨other,waiting,shape,found⟩

private theorem Tending.advance (tending : Tending asked start (.start pid cmd :: queue) exec)
    (unique : ∀ pid cmd cmd', asked pid cmd → asked pid cmd' → cmd = cmd') (toRun : pid ∈ exec.machine.toRun)
    (inv : Machine.Inv next.machine) (kept : KeepsTaken exec next)
    (sent : ∀ other, other ≠ pid → reports other next = reports other exec)
    (runs : ∀ other, other ≠ pid → next.machine.running.lookup other = exec.machine.running.lookup other)
    (letsGo : LetsGo exec.machine next.machine tasks)
    (own : Fate start (.start pid cmd :: queue) exec pid cmd → Fate start (queue ++ tasks) next pid cmd) :
    Tending asked start (queue ++ tasks) next where
  inv := inv
  queued := by
    intro task member
    rcases List.mem_append.mp member with old | fresh
    · exact tending.queued task (List.mem_cons_of_mem _ old)
    · obtain ⟨other,waiting,shape,found⟩ := letsGo.tasks task fresh
      exact ⟨other,waiting.cmd,shape,tending.waits other waiting found⟩
  waits other later found := by
    obtain ⟨waiting,old,same⟩ := letsGo.before other later found
    exact same ▸ tending.waits other waiting old
  running other state found := by
    have now := tending.running other state found
    have different : other ≠ pid := by
      intro same
      subst other
      exact (tending.inv.toRun_apart pid toRun).1 (FiniteMap.mem_of_lookup now)
    rw [runs other different,now]
  reported other := by
    by_cases same : other = pid
    · obtain ⟨_,_,shape,wanted⟩ := tending.queued _ (List.mem_cons_self ..)
      obtain ⟨rfl,rfl⟩ := Task.start.inj shape
      exact Or.inr ⟨cmd,same ▸ wanted⟩
    · rw [sent other same]
      exact tending.reported other
  fate other wanted asks := by
    by_cases same : other = pid
    · obtain ⟨_,_,shape,wanted'⟩ := tending.queued _ (List.mem_cons_self ..)
      obtain ⟨rfl,rfl⟩ := Task.start.inj shape
      subst other
      obtain rfl := unique pid _ _ wanted' asks
      exact own (tending.fate pid cmd asks)
    · refine (tending.fate other wanted asks).onward ?_ kept (sent other same) (runs other same) (letsGo.waits other)
      intro shape
      exact same (Task.start.inj shape).1.symm

private theorem Tending.finish {status : ExitStatus} (tending : Tending asked start (.start pid cmd :: queue) exec)
    (unique : ∀ pid cmd cmd', asked pid cmd → asked pid cmd' → cmd = cmd') (toRun : pid ∈ exec.machine.toRun)
    (finishes : Machine.Finishes exec.machine pid status tasks next.machine) (kept : KeepsTaken exec next)
    (sent : ∀ other, reports other next = reports other exec + if pid = other then 1 else 0)
    (hands : HandsOut next cmd.pipes) : Tending asked start (queue ++ tasks) next := by
  refine tending.advance unique toRun (finishes.inv tending.inv (Or.inl toRun)) kept ?_ ?_
    (.finishes tending.inv finishes) ?_
  · intro other different
    rw [sent,if_neg fun same => different same.symm,Nat.add_zero]
  · intro other different
    rw [finishes.running,Finmap.lookup_erase_ne different]
  · intro fate
    have more : reports pid start ≤ reports pid exec := by
      cases fate with
      | pending same => exact same.ge
      | queued same => exact same.ge
      | reported more => exact more.le
    have now := sent pid
    rw [if_pos rfl] at now
    exact .reported (by omega) hands

theorem processTask_tending (unique : ∀ pid cmd cmd', asked pid cmd → asked pid cmd' → cmd = cmd')
    (tending : Tending asked start (task :: queue) exec) (ok : processTask os task exec = .ok (.ok tasks,next)) :
    Tending asked start (queue ++ tasks) next := by
  have kept := (processTask_taken task).after ok
  cases processTask_cases ok with
  | refused pid cmd =>
    obtain ⟨_,_,shape,_⟩ := tending.queued _ (List.mem_cons_self ..)
    cases shape
  | started pid cmd state middle ran quiet toRun =>
    refine tending.advance unique toRun (tending.inv.started state toRun) kept ?_ ?_ (.none rfl) ?_
    · exact fun other _ => quiet.reports other
    · exact fun other different => Finmap.lookup_insert_of_ne _ different
    · intro fate
      have mine : (exec.machine.running.insert pid state).lookup pid = some state := Finmap.lookup_insert _
      have sent (same : reports pid exec = reports pid start) : Fate start (queue ++ []) { middle with
          machine := { exec.machine with
            toRun := exec.machine.toRun.erase pid
            running := exec.machine.running.insert pid state } } pid cmd := by
        refine .pending ((quiet.reports pid).trans same) ?_
        cases state with
        | running child => exact .running child mine ((run_handsOut ran).resolve_left nofun)
        | awaitingEdit => exact .editing mine
      cases fate with
      | pending same => exact sent same
      | queued same => exact sent same
      | reported more hands => exact .reported ((quiet.reports pid).symm ▸ more) (hands.kept kept)
  | done pid cmd exitCode middle tasks machine ran quiet completed =>
    obtain ⟨toRun,_,finishes⟩ := tending.inv.startCompleted_cases completed
    refine tending.finish unique toRun finishes kept ?_ ((run_handsOut ran).resolve_left nofun)
    intro other
    rw [reports_report,← quiet.reports other]
    rfl
  | failed pid cmd e middle tasks machine after ran quiet completed closed silent =>
    obtain ⟨toRun,_,finishes⟩ := tending.inv.startCompleted_cases completed
    have same : (report after pid 1).machine = machine := silent.machine
    rw [← same] at finishes
    have hands : HandsOut after cmd.pipes := pipeOutputAndClose_handsOut closed
    refine tending.finish unique toRun finishes kept ?_ (hands.kept (.same rfl))
    intro other
    rw [reports_report,silent.reports other,← quiet.reports other]
    rfl

theorem processTasks_tending (unique : ∀ pid cmd cmd', asked pid cmd → asked pid cmd' → cmd = cmd')
    (tending : Tending asked start tasks start) (ok : processTasks os tasks start = .ok (.ok (),next)) :
    Tending asked start [] next :=
  processTasks_queue (Tending asked start) (fun _ _ _ _ _ tending ok => processTask_tending unique tending ok)
    tending ok

theorem Tending.settled (tending : Tending asked start [] exec) (wanted : asked pid cmd) :
    (reports pid exec = reports pid start ∧ Pending exec pid cmd) ∨
      (reports pid start < reports pid exec ∧ HandsOut exec cmd.pipes) := by
  cases tending.fate pid cmd wanted with
  | pending same pending => exact Or.inl ⟨same,pending⟩
  | queued _ queued => cases queued
  | reported more hands => exact Or.inr ⟨more,hands⟩

private theorem requested_unique (fresh : ∀ pid cmd blockFor, event = .enqueue pid cmd blockFor →
      ¬exec.machine.Known pid) (pid : ProcessId) (cmd cmd' : RunCmd) (first : Requested exec event pid cmd)
    (second : Requested exec event pid cmd') : cmd = cmd' := by
  have waits {cmd : RunCmd} (known : ∃ waiting, exec.machine.waitingOn.lookup pid = some waiting ∧ waiting.cmd = cmd) :
      exec.machine.Known pid := by
    obtain ⟨waiting,found,_⟩ := known
    exact Or.inr (Or.inr (Or.inr (FiniteMap.mem_of_lookup found)))
  rcases first with ⟨blockFor,arrives⟩ | first
  · rcases second with ⟨blockFor',arrives'⟩ | second
    · obtain ⟨_,rfl,_⟩ := ExecEvent.enqueue.inj (arrives.symm.trans arrives')
      rfl
    · exact absurd (waits second) (fresh pid cmd blockFor arrives)
  · rcases second with ⟨blockFor',arrives'⟩ | second
    · exact absurd (waits first) (fresh pid cmd' blockFor' arrives')
    · obtain ⟨waiting,found,rfl⟩ := first
      obtain ⟨waiting',found',rfl⟩ := second
      rw [found] at found'
      rw [Option.some.inj found']

private theorem Tending.pending (tending : Tending (Requested exec event) start [] next)
    (kept : KeepsTaken exec next) (inv : Machine.Inv exec.machine)
    (apart : ∀ cmd blockFor, event ≠ .enqueue pid cmd blockFor) (sent : reports pid start = reports pid exec)
    (runs : start.machine.running.lookup pid = exec.machine.running.lookup pid) (pending : Pending exec pid cmd) :
    (reports pid next = reports pid exec ∧ Pending next pid cmd) ∨
      (reports pid exec < reports pid next ∧ HandsOut next cmd.pipes) := by
  have quiet (running : pid ∈ exec.machine.running) : reports pid next = reports pid exec := by
    rcases tending.reported pid with same | ⟨cmd',requested⟩
    · exact same.trans sent
    · rcases requested with ⟨blockFor,arrives⟩ | ⟨waiting,found,_⟩
      · exact absurd arrives (apart cmd' blockFor)
      · exact absurd (FiniteMap.mem_of_lookup found) (inv.running_apart pid running)
  cases pending with
  | waiting waiting found same =>
    rw [← sent]
    exact tending.settled (Or.inr ⟨waiting,found,same⟩)
  | running child found hands =>
    have still := tending.running pid _ (runs.trans found)
    exact Or.inl ⟨quiet (FiniteMap.mem_of_lookup found),.running child still (hands.kept kept)⟩
  | editing found =>
    have still := tending.running pid _ (runs.trans found)
    exact Or.inl ⟨quiet (FiniteMap.mem_of_lookup found),.editing still⟩

private theorem refused_reports {blockFor : OrderedMap ProcessId Condition}
    {machine : Machine ProcessId RunCmd ProcessState}
    (added : Machine.Enqueued exec.machine pid cmd blockFor tasks machine)
    (refused : ∃ entry ∈ blockFor.entries, exec.machine.Refuses entry)
    (processed : processTasks os tasks { exec with machine } = .ok (.ok (),next)) : next = report exec pid 1 := by
  obtain ⟨entry,member,refuses⟩ := refused
  cases added with
  | ready passed all => exact absurd (passed entry member) (Machine.refuses_not_passes refuses)
  | blocked _ passed => exact absurd (passed entry member) (Machine.refuses_not_passes refuses)
  | refused =>
    have done := processTasks_queue (fun queue last => queue = [.conditionFailed pid cmd] ∧ last = exec ∨
      queue = [] ∧ last = report exec pid 1) ?_ (Or.inl ⟨rfl,rfl⟩) processed
    · rcases done with ⟨left,_⟩ | ⟨_,same⟩
      · cases left
      · exact same
    · intro task rest last new next before one
      rcases before with ⟨shape,rfl⟩ | ⟨shape,_⟩
      · obtain ⟨rfl,rfl⟩ := List.cons.inj shape
        cases processTask_cases one
        exact Or.inr ⟨rfl,rfl⟩
      · cases shape

private theorem Tending.begins (inv : Machine.Inv start.machine)
    (queued : ∀ task ∈ tasks, ∃ pid cmd, task = .start pid cmd ∧ asked pid cmd)
    (waits : ∀ pid waiting, start.machine.waitingOn.lookup pid = some waiting → asked pid waiting.cmd)
    (all : ∀ pid cmd, asked pid cmd → (∃ waiting, start.machine.waitingOn.lookup pid = some waiting ∧
      waiting.cmd = cmd) ∨ .start pid cmd ∈ tasks) : Tending asked start tasks start where
  inv := inv
  queued := queued
  waits := waits
  running _ _ := id
  reported _ := Or.inl rfl
  fate pid cmd wanted := by
    rcases all pid cmd wanted with ⟨waiting,found,same⟩ | member
    · exact .pending rfl (.waiting waiting found same)
    · exact .queued rfl member

private theorem completed_tending {status : ExitStatus} (inv : Machine.Inv exec.machine)
    (arrives : ∀ pid cmd blockFor, event ≠ .enqueue pid cmd blockFor)
    (completed : exec.machine.completed pid status = .ok (tasks,start.machine))
    (processed : processTasks os tasks start = .ok (.ok (),next)) :
    Tending (Requested exec event) start [] next := by
  obtain ⟨running,_,finishes⟩ := inv.completed_cases completed
  have letsGo : LetsGo exec.machine start.machine tasks := .finishes inv finishes
  have unique : ∀ pid cmd cmd', Requested exec event pid cmd → Requested exec event pid cmd' → cmd = cmd' :=
    requested_unique fun pid cmd blockFor shape => absurd shape (arrives pid cmd blockFor)
  refine processTasks_tending unique (.begins (finishes.inv inv (Or.inr running)) ?_ ?_ ?_) processed
  · intro task member
    obtain ⟨other,waiting,shape,found⟩ := letsGo.tasks task member
    exact ⟨other,waiting.cmd,shape,Or.inr ⟨waiting,found,rfl⟩⟩
  · intro other later found
    obtain ⟨waiting,old,same⟩ := letsGo.before other later found
    exact Or.inr ⟨waiting,old,same.symm⟩
  · intro other cmd requested
    rcases requested with ⟨blockFor,shape⟩ | ⟨waiting,found,rfl⟩
    · exact absurd shape (arrives other cmd blockFor)
    · exact letsGo.waits other waiting found

private theorem enqueued_tending {blockFor : OrderedMap ProcessId Condition}
    {machine : Machine ProcessId RunCmd ProcessState} (inv : Machine.Inv exec.machine)
    (enqueued : exec.machine.enqueue pid cmd blockFor = .ok (tasks,machine))
    (accepted : ∀ entry ∈ blockFor.entries, ¬exec.machine.Refuses entry)
    (processed : processTasks os tasks { exec with machine } = .ok (.ok (),next)) :
    Tending (Requested exec (.enqueue pid cmd blockFor)) { exec with machine } [] next := by
  have call : exec.machine.call (.enqueue pid cmd blockFor) = .ok (tasks,machine) := enqueued
  have invariant := (inv.call_cases call).inv inv
  obtain ⟨fresh,added⟩ := Machine.enqueue_cases _ _ _ _ _ _ enqueued
  have unique : ∀ other cmd₁ cmd₂, Requested exec (.enqueue pid cmd blockFor) other cmd₁ →
      Requested exec (.enqueue pid cmd blockFor) other cmd₂ → cmd₁ = cmd₂ := by
    refine requested_unique ?_
    intro other cmd' blockFor' shape
    obtain ⟨rfl,_⟩ := ExecEvent.enqueue.inj shape
    exact fresh
  refine processTasks_tending unique ?_ processed
  cases added with
  | refused before entry after shape passed refuses => exact absurd refuses (accepted entry (by simp [shape]))
  | ready passed all =>
    refine .begins invariant ?_ ?_ ?_
    · intro task member
      exact ⟨pid,cmd,List.mem_singleton.mp member,Or.inl ⟨blockFor,rfl⟩⟩
    · exact fun other waiting found => Or.inr ⟨waiting,found,rfl⟩
    · intro other cmd' requested
      rcases requested with ⟨blockFor',shape⟩ | waits
      · obtain ⟨rfl,rfl,_⟩ := ExecEvent.enqueue.inj shape
        exact Or.inr (List.mem_singleton.mpr rfl)
      · exact Or.inl waits
  | blocked _ passed some after =>
    refine .begins invariant nofun ?_ ?_
    · intro other waiting found
      obtain ⟨conditions,_,shape⟩ := after.lookup other
      rw [shape] at found
      split at found
      · obtain rfl := Option.some.inj found
        rename_i same
        exact Or.inl ⟨blockFor,same ▸ rfl⟩
      · exact Or.inr ⟨waiting,found,rfl⟩
    · intro other cmd' requested
      obtain ⟨conditions,_,shape⟩ := after.lookup other
      rcases requested with ⟨blockFor',arrives⟩ | ⟨waiting,found,same⟩
      · obtain ⟨rfl,rfl,_⟩ := ExecEvent.enqueue.inj arrives
        exact Or.inl ⟨_,by rw [shape,if_pos rfl],rfl⟩
      · have different : other ≠ pid := by
          intro equal
          subst other
          exact fresh (Or.inr (Or.inr (Or.inr (FiniteMap.mem_of_lookup found))))
        exact Or.inl ⟨waiting,by rw [shape,if_neg different,found],same⟩

end Tasks

private theorem completed_reports {done : ProcessId}
    (inv : Machine.Inv exec.machine) (arrives : ∀ pid cmd blockFor, event ≠ .enqueue pid cmd blockFor)
    (running : done ∈ exec.machine.running) (tending : Tending (Requested exec event) start [] next)
    (sent : ∀ other, reports other start = reports other exec + if done = other then 1 else 0) :
    reports done exec < reports done next := by
  have now := sent done
  rw [if_pos rfl] at now
  rcases tending.reported done with same | ⟨cmd',⟨blockFor,shape⟩ | ⟨waiting,found,_⟩⟩
  · omega
  · exact absurd shape (arrives done cmd' blockFor)
  · exact absurd (FiniteMap.mem_of_lookup found) (inv.running_apart done running)

/-- An event that completes one pid, as the other commands and that one see it. -/
private theorem completes_pending {tasks : List (Task ProcessId RunCmd)} {done : ProcessId} {status : ExitStatus}
    (inv : Machine.Inv exec.machine) (kept : KeepsTaken exec next)
    (arrives : ∀ pid cmd blockFor, event ≠ .enqueue pid cmd blockFor) (completes : Completes exec event done)
    (completed : exec.machine.completed done status = .ok (tasks,start.machine))
    (sent : ∀ other, reports other start = reports other exec + if done = other then 1 else 0)
    (processed : processTasks os tasks start = .ok (.ok (),next)) (pending : Pending exec pid cmd) :
    (reports pid next = reports pid exec ∧ Pending next pid cmd) ∨
      (reports pid exec < reports pid next ∧ (HandsOut next cmd.pipes ∨
        Completes exec event pid ∧ exec.machine.running.lookup pid = some .awaitingEdit)) := by
  have tending := completed_tending inv arrives completed processed
  obtain ⟨running,_,finishes⟩ := inv.completed_cases completed
  by_cases same : done = pid
  · subst same
    have more := completed_reports inv arrives running tending sent
    cases pending with
    | waiting waiting found => exact absurd (FiniteMap.mem_of_lookup found) (inv.running_apart done running)
    | running child found hands => exact Or.inr ⟨more,Or.inl (hands.kept kept)⟩
    | editing found => exact Or.inr ⟨more,Or.inr ⟨completes,found⟩⟩
  · have quiet : reports pid start = reports pid exec := by rw [sent,if_neg same,Nat.add_zero]
    have runs : start.machine.running.lookup pid = exec.machine.running.lookup pid := by
      rw [finishes.running,Finmap.lookup_erase_ne fun equal => same equal.symm]
    exact (tending.pending kept inv (arrives pid) quiet runs pending).imp_right (And.imp_right Or.inl)

private theorem reports_completed (pid other : ProcessId) (code : Int)
    (machine : Machine ProcessId RunCmd ProcessState) :
    reports other (report { exec with machine } pid code) = reports other exec + if pid = other then 1 else 0 :=
  reports_report pid other code

private theorem reports_edited (pid other : ProcessId) (editId : Nat) (path : String) (data : Bytes)
    (machine : Machine ProcessId RunCmd ProcessState) :
    reports other (report { exec with
      waitingEdits := exec.waitingEdits.erase editId
      effects := exec.effects ++ [.written path data]
      machine } pid 0) = reports other exec + if pid = other then 1 else 0 := by
  rw [reports_report]
  congr 1
  simp [reports,results,List.filterMap_append,result]

theorem completes_reports (inv : Machine.Inv exec.machine) (ok : handle os event exec = .ok next)
    (completes : Completes exec event pid) : reports pid exec < reports pid next := by
  have done := handle_ok.mp ok
  cases event with
  | completed other exitCode =>
    subst completes
    have arrives : ∀ pid cmd blockFor, ExecEvent.completed other exitCode ≠ .enqueue pid cmd blockFor := nofun
    obtain ⟨tasks,machine,completed,processed⟩ := completed_cases done
    obtain ⟨running,_⟩ := inv.completed_cases completed
    have tending := completed_tending inv arrives completed processed
    exact completed_reports inv arrives running tending fun _ => reports_completed _ _ _ _
  | editComplete editId data =>
    have arrives : ∀ pid cmd blockFor, ExecEvent.editComplete editId data ≠ .enqueue pid cmd blockFor := nofun
    obtain ⟨path,found⟩ := completes
    obtain ⟨other,path',found',done⟩ := finishEdit_cases done
    rw [found] at found'
    obtain ⟨rfl,rfl⟩ := Prod.mk.inj (Option.some.inj found')
    obtain ⟨tasks,machine,completed,processed⟩ := completed_cases done
    obtain ⟨running,_⟩ := inv.completed_cases completed
    have tending := completed_tending inv arrives completed processed
    exact completed_reports inv arrives running tending fun _ => reports_edited _ _ _ _ _ _
  | _ => exact completes.elim

theorem handle_pending (inv : Machine.Inv exec.machine) (ok : handle os event exec = .ok next)
    (pending : Pending exec pid cmd) :
    (reports pid next = reports pid exec ∧ Pending next pid cmd) ∨
      (reports pid exec < reports pid next ∧ (HandsOut next cmd.pipes ∨
        Completes exec event pid ∧ exec.machine.running.lookup pid = some .awaitingEdit)) := by
  have kept := handle_taken ok
  cases handle_cases ok with
  | enqueued other cmd' blockFor tasks machine next enqueued processed =>
    obtain ⟨fresh,added⟩ := Machine.enqueue_cases _ _ _ _ _ _ enqueued
    have different : other ≠ pid := by
      intro same
      exact fresh (same ▸ pending.known)
    have running : machine.running = exec.machine.running := by
      cases added with
      | blocked _ _ _ after => exact after.running
      | _ => rfl
    by_cases refused : ∃ entry ∈ blockFor.entries, exec.machine.Refuses entry
    · obtain rfl := refused_reports added refused processed
      refine Or.inl ⟨by rw [reports_report,if_neg different,Nat.add_zero],?_⟩
      cases pending with
      | waiting waiting found same => exact .waiting waiting found same
      | running child found hands => exact .running child found (hands.kept kept)
      | editing found => exact .editing found
    · have tending := enqueued_tending inv enqueued (fun entry member refuses =>
        refused ⟨entry,member,refuses⟩) processed
      have apart (cmd : RunCmd) (blockFor' : OrderedMap ProcessId Condition) :
          ExecEvent.enqueue other cmd' blockFor ≠ .enqueue pid cmd blockFor' :=
        fun shape => different (ExecEvent.enqueue.inj shape).1
      exact (tending.pending kept inv apart rfl (by rw [running]) pending).imp_right (And.imp_right Or.inl)
  | completed other exitCode tasks machine next completed processed =>
    exact completes_pending inv kept nofun rfl completed (fun _ => reports_completed _ _ _ _) processed pending
  | edited editId data other path tasks machine next found completed processed =>
    exact completes_pending inv kept nofun ⟨path,found⟩ completed (fun _ => reports_edited _ _ _ _ _ _) processed
      pending
  | quiet _ next quiet =>
    refine Or.inl ⟨quiet.reports pid,?_⟩
    cases pending with
    | waiting waiting found same => exact .waiting waiting (by rw [quiet.machine,found]) same
    | running child found hands => exact .running child (by rw [quiet.machine,found]) (hands.kept kept)
    | editing found => exact .editing (by rw [quiet.machine,found])

theorem handle_refused {blockFor : OrderedMap ProcessId Condition}
    (ok : handle os (.enqueue pid cmd blockFor) exec = .ok next)
    (refused : ∃ entry ∈ blockFor.entries, exec.machine.Refuses entry) :
    reports pid exec < reports pid next ∧ next.openHandles = exec.openHandles := by
  obtain ⟨tasks,middle,called,processed⟩ := bind_ok.mp (handle_ok.mp ok)
  obtain ⟨_,machine,enqueued,same,rfl⟩ := onMachine_ok.mp called
  obtain rfl := Except.ok.inj same
  obtain ⟨_,added⟩ := Machine.enqueue_cases _ _ _ _ _ _ enqueued
  obtain rfl := refused_reports added refused processed
  refine ⟨?_,rfl⟩
  rw [reports_report,if_pos rfl]
  exact Nat.lt_succ_self _

theorem handle_enqueued {blockFor : OrderedMap ProcessId Condition} (inv : Machine.Inv exec.machine)
    (ok : handle os (.enqueue pid cmd blockFor) exec = .ok next) : ¬exec.machine.Known pid ∧
    ((reports pid next = reports pid exec ∧ Pending next pid cmd) ∨
      (reports pid exec < reports pid next ∧ (HandsOut next cmd.pipes ∨
        ∃ entry ∈ blockFor.entries, exec.machine.Refuses entry))) := by
  by_cases refused : ∃ entry ∈ blockFor.entries, exec.machine.Refuses entry
  · have sent := (handle_refused ok refused).1
    obtain ⟨tasks,middle,called,_⟩ := bind_ok.mp (handle_ok.mp ok)
    obtain ⟨_,machine,enqueued,_⟩ := onMachine_ok.mp called
    exact ⟨(Machine.enqueue_cases _ _ _ _ _ _ enqueued).1,Or.inr ⟨sent,Or.inr refused⟩⟩
  · obtain ⟨tasks,middle,called,processed⟩ := bind_ok.mp (handle_ok.mp ok)
    obtain ⟨_,machine,enqueued,same,rfl⟩ := onMachine_ok.mp called
    obtain rfl := Except.ok.inj same
    have tending := enqueued_tending inv enqueued (fun entry member refuses => refused ⟨entry,member,refuses⟩) processed
    exact ⟨(Machine.enqueue_cases _ _ _ _ _ _ enqueued).1,
      (tending.settled (Or.inl ⟨blockFor,rfl⟩)).imp_right (And.imp_right Or.inl)⟩

end Nak.ExecInternal
