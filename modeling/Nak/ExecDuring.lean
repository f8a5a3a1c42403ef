import Nak.MachineStages
import Nak.ExecFootprint

/-! What handling the tasks of one event does to the ends of the pipes, to the children and
to the commands that wait, whatever the tasks are. -/
namespace Nak.ExecInternal
open Library Action
variable {os : Os} {exec next start : ExecInternal} {tasks : List (Task ProcessId RunCmd)}

def Asked (tasks : List (Task ProcessId RunCmd)) (start : ExecInternal) (pid : ProcessId) (cmd : RunCmd) : Prop :=
  .start pid cmd ∈ tasks ∨ ∃ waiting, start.machine.waitingOn.lookup pid = some waiting ∧ waiting.cmd = cmd

def childrenOf : ProcessState → Nat
  | .running _ => 1
  | .awaitingEdit => 0

def active (machine : Machine ProcessId RunCmd ProcessState) (pid : ProcessId) : Nat :=
  ((machine.running.lookup pid).map childrenOf).getD 0

def childOf (pid : ProcessId) : Effect → Bool
  | .spawned other _ _ _ _ _ _ => other = pid
  | _ => false

def spawned (pid : ProcessId) (effects : List Effect) : Nat := effects.countP (childOf pid)

/-- A pid whose edit is outstanding is running for it, or has already failed. -/
def Edited (exec : ExecInternal) : Prop :=
  ∀ editId entry, exec.waitingEdits.lookup editId = some entry →
    entry.1 ∈ exec.machine.finished ∨ exec.machine.running.lookup entry.1 = some .awaitingEdit

inductive Caused (tasks : List (Task ProcessId RunCmd)) (start : ExecInternal) : Effect → Prop
  | closing (pid cmd effect) (asked : Asked tasks start pid cmd) (unfinished : pid ∉ start.machine.finished)
      (closing : Closing cmd.pipes effect) : Caused tasks start effect
  | spawned (pid cmd child path args stdin stdout stderr) (asked : Asked tasks start pid cmd)
      (of : stdin.handle.Of cmd.pipes.stdin.toGeneric ∧ stdout.handle.Of cmd.pipes.stdout.toGeneric ∧
        stderr.handle.Of cmd.pipes.stderr.toGeneric) :
      Caused tasks start (.spawned pid child path args stdin stdout stderr)
  | reported (pid code) : Caused tasks start (.sent (.commandDone pid code))

structure During (tasks : List (Task ProcessId RunCmd)) (start : ExecInternal) (queue : List (Task ProcessId RunCmd))
    (exec : ExecInternal) : Prop where
  inv : Machine.Inv exec.machine
  named : Named exec.openHandles
  onward : Machine.Onward start.machine exec.machine
  queued : ∀ pid cmd, .start pid cmd ∈ queue → Asked tasks start pid cmd
  kept : ∀ pipe ∈ start.openHandles, pipe ∈ exec.openHandles
  opened : ∀ pipe ∈ exec.openHandles, pipe ∈ start.openHandles ∨
    ∃ pid cmd, Asked tasks start pid cmd ∧ (cmd.pipes.input pipe ∨ cmd.pipes.output pipe)
  taken : ∀ pipe, Taken exec.openHandles pipe → Taken start.openHandles pipe ∨
    ∃ pid cmd, Asked tasks start pid cmd ∧ cmd.pipes.output pipe ∧ exec.machine.Ready pid
  effects : ∃ more, exec.effects = start.effects ++ more ∧ ∀ effect ∈ more, Caused tasks start effect
  children : ∀ pid, active exec.machine pid + spawned pid start.effects =
    active start.machine pid + spawned pid exec.effects
  edited : Edited start → Edited exec

theorem During.begins (inv : Machine.Inv start.machine) (named : Named start.openHandles) :
    During tasks start tasks start where
  inv := inv
  named := named
  onward := .refl
  queued _ _ := Or.inl
  kept _ := id
  opened _ := Or.inl
  taken _ := Or.inl
  effects := ⟨[],by rw [List.append_nil],by simp⟩
  children _ := rfl
  edited := id

theorem Footprint.childless {pid other : ProcessId} {pipes : WritePipes} (print : Footprint pid pipes exec next)
    (named : Named exec.openHandles) : spawned other next.effects = spawned other exec.effects := by
  obtain ⟨more,effects,closing⟩ := print.effects
  rw [spawned,effects,List.countP_append,spawned,Nat.add_eq_left,List.countP_eq_zero]
  intro effect member
  cases closing named effect member <;> simp [childOf]

theorem active_insert {machine : Machine ProcessId RunCmd ProcessState} {pid other : ProcessId} {state : ProcessState}
    {toRun : Finset ProcessId} (fresh : pid ∉ machine.running) :
    active { machine with toRun, running := machine.running.insert pid state } other =
      active machine other + if other = pid then childrenOf state else 0 := by
  unfold active
  rw [FiniteMap.lookup_insert_if]
  by_cases same : other = pid
  · subst same
    simp [Finmap.lookup_eq_none.mpr fresh]
  · simp [same]

theorem active_finishes {machine next : Machine ProcessId RunCmd ProcessState} {pid : ProcessId} {status : ExitStatus}
    (finishes : Machine.Finishes machine pid status tasks next) (other : ProcessId) :
    active next other = if other = pid then 0 else active machine other := by
  unfold active
  rw [finishes.running,FiniteMap.lookup_erase_if]
  by_cases same : other = pid <;> simp [same]

theorem active_toRun {machine : Machine ProcessId RunCmd ProcessState} (inv : Machine.Inv machine) {pid : ProcessId}
    (toRun : pid ∈ machine.toRun) : active machine pid = 0 := by
  rw [active,Finmap.lookup_eq_none.mpr (inv.toRun_apart pid toRun).1]
  rfl

private theorem During.released {queue new : List (Task ProcessId RunCmd)} {pid waiter : ProcessId} {cmd : RunCmd}
    {status : ExitStatus} {machine : Machine ProcessId RunCmd ProcessState} (during : During tasks start queue exec)
    (finishes : Machine.Finishes exec.machine pid status new machine) (member : .start waiter cmd ∈ new) :
    Asked tasks start waiter cmd := by
  obtain ⟨other,before,found,shape,_⟩ := finishes.task_starts during.inv member
  obtain ⟨rfl,rfl⟩ := Task.start.inj shape
  obtain ⟨first,old,same⟩ := during.onward.waiting _ before found
  exact Or.inr ⟨first,old,same.symm⟩

/-- One task: a command is run, the machine is told, and a result may be sent. -/
private theorem During.advance {task : Task ProcessId RunCmd} {queue new : List (Task ProcessId RunCmd)}
    {pid : ProcessId} {cmd : RunCmd} {middle : ExecInternal} {machine : Machine ProcessId RunCmd ProcessState}
    {call : Call ProcessId RunCmd ProcessState} (tail : List Effect)
    (during : During tasks start (task :: queue) exec) (asked : Asked tasks start pid cmd)
    (toRun : pid ∈ exec.machine.toRun) (print : Footprint pid cmd.pipes exec middle)
    (cases : Machine.CallCases exec.machine call new machine) (told : Machine.enqueuedPid call = none)
    (inv : Machine.Inv machine) (caused : ∀ effect ∈ tail, Caused tasks start effect)
    (children : ∀ other, active machine other = active exec.machine other + spawned other tail)
    (edited : Edited exec → Edited { middle with machine }) :
    During tasks start (queue ++ new) { middle with machine, effects := middle.effects ++ tail } where
  inv := inv
  named := print.ends.named during.named
  onward := during.onward.trans (cases.onward during.inv told)
  queued := by
    intro waiter cmd member
    rcases List.mem_append.mp member with old | fresh
    · exact during.queued waiter cmd (List.mem_cons_of_mem _ old)
    · cases cases with
      | enqueue => simp [Machine.enqueuedPid] at told
      | start => simp at fresh
      | startCompleted _ _ _ _ _ _ finishes => exact during.released finishes fresh
      | completed _ _ _ _ _ _ finishes => exact during.released finishes fresh
  kept pipe member := print.ends.kept pipe (during.kept pipe member)
  opened := by
    intro pipe member
    rcases print.ends.opened pipe member with old | used
    · exact during.opened pipe old
    · exact Or.inr ⟨pid,cmd,asked,used⟩
  taken := by
    intro pipe taken
    rcases print.ends.taken pipe taken with old | output
    · rcases during.taken pipe old with before | ⟨other,cmd,asked,output,ready⟩
      · exact Or.inl before
      · exact Or.inr ⟨other,cmd,asked,output,cases.ready ready⟩
    · exact Or.inr ⟨pid,cmd,asked,output,cases.ready (Or.inl toRun)⟩
  effects := by
    obtain ⟨before,effects,all⟩ := during.effects
    obtain ⟨more,appended,closing⟩ := print.effects
    refine ⟨before ++ (more ++ tail),by simp only [appended,effects,List.append_assoc],?_⟩
    intro effect member
    rcases List.mem_append.mp member with early | late
    · exact all effect early
    · rcases List.mem_append.mp late with ran | last
      · have unfinished : pid ∉ start.machine.finished := fun finished =>
          during.inv.finished_apart pid (during.onward.finished pid finished) (Or.inl toRun)
        exact .closing pid cmd effect asked unfinished (closing during.named effect ran)
      · exact caused effect last
  children := by
    intro other
    have before := during.children other
    have same : spawned other middle.effects = spawned other exec.effects := print.childless during.named
    have now := children other
    change _ = _ + spawned other (middle.effects ++ tail)
    simp only [spawned,List.countP_append] at *
    omega
  edited before := edited (during.edited before)

private theorem edited_onward {middle : ExecInternal} {pid : ProcessId} {pipes : WritePipes}
    {machine : Machine ProcessId RunCmd ProcessState} (edited : Edited exec)
    (print : Footprint pid pipes exec middle)
    (kept : ∀ other, other ∈ exec.machine.finished ∨ exec.machine.running.lookup other = some .awaitingEdit →
      other ∈ machine.finished ∨ machine.running.lookup other = some .awaitingEdit)
    (own : middle.waitingEdits = exec.waitingEdits ∨ pid ∈ machine.finished ∨
      machine.running.lookup pid = some .awaitingEdit) : Edited { middle with machine } := by
  intro editId entry found
  rcases own with same | done
  · exact kept _ (edited editId entry (same ▸ found))
  · rcases print.edits editId entry found with old | own
    · exact kept _ (edited editId entry old)
    · exact own ▸ done

theorem finishes_edits {machine last : Machine ProcessId RunCmd ProcessState} {pid : ProcessId}
    {status : ExitStatus} (finishes : Machine.Finishes machine pid status tasks last) (other : ProcessId)
    (before : other ∈ machine.finished ∨ machine.running.lookup other = some .awaitingEdit) :
    other ∈ last.finished ∨ last.running.lookup other = some .awaitingEdit := by
  rcases before with finished | running
  · exact Or.inl (finishes.kept finished)
  · by_cases same : other = pid
    · exact Or.inl (same ▸ finishes.done)
    · refine Or.inr ?_
      rw [finishes.running,Finmap.lookup_erase_ne same]
      exact running

theorem During.refused {pid : ProcessId} {cmd : RunCmd} {queue : List (Task ProcessId RunCmd)}
    (during : During tasks start (.conditionFailed pid cmd :: queue) exec) (code : Int) :
    During tasks start queue (report exec pid code) :=
  { during with
    queued := fun pid cmd member => during.queued pid cmd (List.mem_cons_of_mem _ member)
    effects := by
      obtain ⟨more,effects,all⟩ := during.effects
      refine ⟨more ++ [.sent (.commandDone pid code)],by simp only [report,effects,List.append_assoc],?_⟩
      intro effect member
      rcases List.mem_append.mp member with early | late
      · exact all effect early
      · exact List.mem_singleton.mp late ▸ .reported pid code
    children := by
      intro other
      have before := during.children other
      have none : spawned other (report exec pid code).effects = spawned other exec.effects := by
        rw [report,spawned,spawned,List.countP_append]
        rfl
      rw [none]
      exact before }

private theorem During.finish {task : Task ProcessId RunCmd} {queue new : List (Task ProcessId RunCmd)}
    {pid : ProcessId} {cmd : RunCmd} {middle : ExecInternal} {machine : Machine ProcessId RunCmd ProcessState}
    {status : ExitStatus} (during : During tasks start (task :: queue) exec) (asked : Asked tasks start pid cmd)
    (toRun : pid ∈ exec.machine.toRun) (print : Footprint pid cmd.pipes exec middle)
    (undisputed : exec.machine.Undisputed pid status)
    (finishes : Machine.Finishes exec.machine pid status new machine) (code : Int) :
    During tasks start (queue ++ new) (report { middle with machine } pid code) := by
  have cases : Machine.CallCases exec.machine (.startCompleted pid status) new machine :=
    .startCompleted pid status new machine toRun undisputed finishes
  have inv := finishes.inv during.inv (Or.inl toRun)
  have caused : ∀ effect ∈ [Effect.sent (.commandDone pid code)], Caused tasks start effect := by
    intro effect member
    exact List.mem_singleton.mp member ▸ .reported pid code
  have children (other : ProcessId) : active machine other =
      active exec.machine other + spawned other [Effect.sent (.commandDone pid code)] := by
    rw [active_finishes finishes]
    by_cases same : other = pid
    · simp [same,active_toRun during.inv toRun,spawned,childOf]
    · simp [same,spawned,childOf]
  have edited (before : Edited exec) : Edited { middle with machine } :=
    edited_onward before print (finishes_edits finishes) (Or.inr (Or.inl finishes.done))
  have after := During.advance _ during asked toRun print cases rfl inv caused children edited
  exact after

theorem processTask_during {task : Task ProcessId RunCmd} {queue new : List (Task ProcessId RunCmd)}
    (during : During tasks start (task :: queue) exec) (ok : processTask os task exec = .ok (.ok new,next)) :
    During tasks start (queue ++ new) next := by
  cases processTask_cases ok with
  | refused pid cmd =>
    rw [List.append_nil]
    exact during.refused 1
  | started pid cmd state middle ran quiet toRun =>
    have asked := during.queued pid cmd (List.mem_cons_self ..)
    have fresh : pid ∉ exec.machine.running := (during.inv.toRun_apart pid toRun).1
    have cases : Machine.CallCases exec.machine (.start pid state) [] _ := .start pid state toRun
    have inv := during.inv.started state toRun
    have keeps (other : ProcessId) (before : other ∈ exec.machine.finished ∨
        exec.machine.running.lookup other = some .awaitingEdit) : other ∈ exec.machine.finished ∨
        (exec.machine.running.insert pid state).lookup other = some .awaitingEdit := by
      refine before.imp_right fun running => ?_
      have different : other ≠ pid := by
        intro same
        obtain rfl := same
        exact fresh (FiniteMap.mem_of_lookup running)
      rw [Finmap.lookup_insert_of_ne _ different]
      exact running
    generalize shape : (Except.ok (RunResult.process state) : Except Error RunResult) = result at ran
    cases run_ends ran with
    | spawned before child path args stdin stdout stderr print edits of =>
      obtain rfl := (RunResult.process.inj (Except.ok.inj shape))
      refine During.advance [_] during asked toRun print cases rfl inv ?_ ?_ ?_
      · intro effect member
        rw [List.mem_singleton.mp member]
        exact .spawned pid cmd child path args stdin stdout stderr asked (of during.named)
      · intro other
        rw [active_insert fresh]
        by_cases same : pid = other
        · simp [same,spawned,childOf,childrenOf]
        · have different : other ≠ pid := fun equal => same equal.symm
          simp [same,different,spawned,childOf]
      · exact fun edited => edited_onward edited print keeps (Or.inl edits)
    | childless _ _ print none =>
      subst shape
      have waiting : state = .awaitingEdit := by
        cases state with
        | running child => exact absurd rfl (none child)
        | awaitingEdit => rfl
      subst waiting
      have after := During.advance [] during asked toRun print cases rfl inv (by simp) (by
        intro other
        rw [active_insert fresh]
        simp [spawned,childrenOf]) (fun edited =>
          edited_onward edited print keeps (Or.inr (Or.inr (Finmap.lookup_insert _))))
      simpa only [List.append_nil] using after
  | done pid cmd exitCode middle new machine ran quiet completed =>
    have asked := during.queued pid cmd (List.mem_cons_self ..)
    obtain ⟨toRun,undisputed,finishes⟩ := during.inv.startCompleted_cases completed
    generalize shape : (Except.ok (RunResult.alreadyDone exitCode) : Except Error RunResult) = result at ran
    cases run_ends ran with
    | spawned => cases shape
    | childless _ _ print none =>
      exact during.finish asked toRun print undisputed finishes 0
  | failed pid cmd e middle new machine after ran quiet completed closed silent =>
    have asked := during.queued pid cmd (List.mem_cons_self ..)
    obtain ⟨toRun,undisputed,finishes⟩ := during.inv.startCompleted_cases completed
    have closing : Footprint pid cmd.pipes { middle with machine } after := pipeOutputAndClose_footprint closed
    have same : after.machine = machine := silent.machine
    generalize shape : (Except.error e : Except Error RunResult) = result at ran
    cases run_ends ran with
    | spawned => cases shape
    | childless _ _ print none =>
      have whole : Footprint pid cmd.pipes exec after := print.trans ⟨closing.ends,closing.effects,closing.edits⟩
      subst same
      exact during.finish asked toRun whole undisputed finishes 1

theorem processTasks_during (inv : Machine.Inv start.machine) (named : Named start.openHandles)
    (ok : processTasks os tasks start = .ok (.ok (),next)) : During tasks start [] next :=
  processTasks_queue (During tasks start) (fun _ _ _ _ _ during ok => processTask_during during ok)
    (During.begins inv named) ok

end Nak.ExecInternal
