import Nak.Library.Log
import Nak.ExecStages

/-! In what order commands act and results are sent. A command acts from the moment `run` is
called for it; at that moment every pid its enqueue named has finished, and the result of a
finished pid has been sent at the end of every task and before the tasks of every event. -/
namespace Nak
open Library Action

def Effect.running? : Effect → Option ProcessId
  | .running pid _ => some pid
  | _ => none

def Task.pid {Id Cmd : Type} : Task Id Cmd → Id
  | .start pid _ => pid
  | .conditionFailed pid _ => pid

theorem Machine.Finishes.released_gone {Id Cmd State : Type} [DecidableEq Id] {machine next : Machine Id Cmd State}
    {pid : Id} {status : ExitStatus} {tasks : List (Task Id Cmd)} (inv : Machine.Inv machine)
    (finishes : Machine.Finishes machine pid status tasks next) {task : Task Id Cmd} (member : task ∈ tasks) :
    task.pid ∉ next.waitingOn := by
  obtain ⟨waiter,waiting,_,rfl,_,gone⟩ := finishes.task_starts inv member
  exact Finmap.lookup_eq_none.mp gone

theorem Machine.CallCases.released {Id Cmd State : Type} [DecidableEq Id] {machine next : Machine Id Cmd State}
    {call : Call Id Cmd State} {tasks : List (Task Id Cmd)} (inv : Machine.Inv machine)
    (cases : Machine.CallCases machine call tasks next) : ∀ task ∈ tasks, task.pid ∉ next.waitingOn := by
  intro task member
  cases cases with
  | enqueue pid cmd blockFor tasks next fresh enqueued =>
    have absent : pid ∉ machine.waitingOn := fun waits => fresh (Or.inr (Or.inr (Or.inr waits)))
    cases enqueued with
    | blocked => simp at member
    | _ =>
      rw [List.mem_singleton.mp member]
      exact absent
  | start => simp at member
  | startCompleted pid status tasks next toRun undisputed finishes => exact finishes.released_gone inv member
  | completed pid status tasks next running undisputed finishes => exact finishes.released_gone inv member

namespace ExecInternal
variable {os : Os} {exec next start : ExecInternal} {pid : ProcessId}

def lastRun (effects : List Effect) : Option ProcessId := (effects.filterMap Effect.running?).getLast?

def Announced (pid : ProcessId) (effects : List Effect) : Prop := ∃ code, .sent (.commandDone pid code) ∈ effects

theorem Announced.append {effects : List Effect} (announced : Announced pid effects) (more : List Effect) :
    Announced pid (effects ++ more) := by
  obtain ⟨code,member⟩ := announced
  exact ⟨code,List.mem_append_left _ member⟩

structure Acts (pid : ProcessId) (effect : Effect) : Prop where
  silent : effect.running? = none
  own : effect.actor (some pid) = some pid

def Acting (pid : ProcessId) (exec next : ExecInternal) : Prop :=
  ∃ more, next.effects = exec.effects ++ more ∧ ∀ effect ∈ more, Acts pid effect

theorem Acting.same (same : next.effects = exec.effects) : Acting pid exec next :=
  ⟨[],by rw [same,List.append_nil],by simp⟩

instance : IsPreorder ExecInternal (Acting pid) where
  refl _ := .same rfl
  trans _ _ _ first second := by
    obtain ⟨more,effects,acts⟩ := first
    obtain ⟨rest,appended,acts'⟩ := second
    refine ⟨more ++ rest,by rw [appended,effects,List.append_assoc],?_⟩
    intro effect member
    exact (List.mem_append.mp member).elim (acts effect) (acts' effect)

theorem cause_acting {effect : Effect} (acts : Acts pid effect) : Keeps (Acting pid) (cause effect) := by
  apply Keeps.modify
  intro exec
  refine ⟨[effect],rfl,?_⟩
  intro other member
  exact List.mem_singleton.mp member ▸ acts

theorem acting_taking : Taking os pid (Acting pid) := by
  refine .of_same (fun _ _ same _ => .same same.effects) ?_
  intro effect plain
  apply cause_acting
  cases plain <;> exact ⟨rfl,rfl⟩

theorem beginEditRequest_acting (path : String) (data : Bytes) :
    Keeps (Acting pid) (beginEditRequest os pid path data) := by
  unfold beginEditRequest editRequest send
  apply Keeps.bind Keeps.get
  intro exec
  apply Keeps.bind (Keeps.modify _ fun _ => .same rfl)
  intro _
  apply Keeps.bind (Keeps.propagate _)
  intro _
  exact cause_acting ⟨rfl,rfl⟩

theorem readContents_acting : Keeps (Acting pid) (readContents os pid) := by
  unfold readContents
  split
  · exact Keeps.propagate _
  · split
    · exact Keeps.raise _
    · exact Keeps.pure _

theorem run_acts {c : RunCmd} {result : Except Error RunResult} (ok : run os pid c exec = .ok (result,next)) :
    ∃ more, next.effects = exec.effects ++ .running pid c.cmd :: more ∧ ∀ effect ∈ more, Acts pid effect := by
  suffices acting : Acting pid { exec with effects := exec.effects ++ [.running pid c.cmd] } next by
    obtain ⟨more,effects,acts⟩ := acting
    exact ⟨more,by rw [effects,List.append_assoc,List.singleton_append],acts⟩
  by_cases edits : ∃ path, c.cmd = .edit path
  · obtain ⟨path,same⟩ := edits
    obtain ⟨cmd,pipes⟩ := c
    subst same
    obtain ⟨_,began,caused,ok⟩ := (cause_errorless _).continues ok
    obtain ⟨_,rfl⟩ := cause_ok caused
    refine Keeps.after ?_ ok
    apply Keeps.bind readContents_acting
    intro contents
    exact Keeps.bind (beginEditRequest_acting _ _) fun _ => Keeps.pure _
  · exact acting_taking.after_running (fun path same => edits ⟨path,same⟩) ok

theorem lastRun_running {effects more : List Effect} {cmd : Command} (acts : ∀ effect ∈ more, Acts pid effect) :
    lastRun (effects ++ .running pid cmd :: more) = some pid := by
  have silent : more.filterMap Effect.running? = [] := by
    rw [List.filterMap_eq_nil_iff]
    exact fun effect member => (acts effect member).silent
  simp [lastRun,List.filterMap_append,Effect.running?,silent]

theorem guarded_acts (effects : List Effect) {more : List Effect} {cmd : Command}
    (acts : ∀ effect ∈ more, Acts pid effect) :
    Guarded (fun before effect => effect.actor (lastRun (effects ++ before)) = some pid)
    (.running pid cmd :: more) := by
  intro before effect after split
  rcases before with _ | ⟨first,before⟩
  · obtain ⟨rfl,_⟩ := List.cons.inj split
    rfl
  · obtain ⟨rfl,rfl⟩ := List.cons.inj split
    have early : ∀ effect ∈ before, Acts pid effect := fun effect member => acts effect (List.mem_append_left _ member)
    rw [lastRun_running early]
    exact (acts effect (List.mem_append_right _ (List.mem_cons_self ..))).own

section Steps
variable {who : ProcessId → Prop} {task : Task ProcessId RunCmd} {queue tasks : List (Task ProcessId RunCmd)}

structure Works (exec : ExecInternal) (who : ProcessId → Prop) (tasks : List (Task ProcessId RunCmd))
    (next : ExecInternal) : Prop where
  machine : tasks = [] ∧ next.machine = exec.machine ∨
    ∃ call, Machine.CallCases exec.machine call tasks next.machine
  finished : ∀ pid ∈ next.machine.finished, pid ∈ exec.machine.finished ∨ Announced pid next.effects
  ran : ∀ pid cmd, .running pid cmd ∈ next.effects → .running pid cmd ∈ exec.effects ∨ next.machine.Known pid
  effects : ∃ more, next.effects = exec.effects ++ more ∧
    Guarded (fun before effect => ∀ pid, effect.actor (lastRun (exec.effects ++ before)) = some pid → who pid) more

theorem announced_report (exec : ExecInternal) (pid : ProcessId) (code : Int) :
    Announced pid (report exec pid code).effects :=
  ⟨code,List.mem_append_right _ (List.mem_singleton.mpr rfl)⟩

private theorem started_works {cmd : RunCmd} {more : List Effect} {call : Call ProcessId RunCmd ProcessState}
    (cases : Machine.CallCases exec.machine call tasks next.machine) (toRun : pid ∈ exec.machine.toRun)
    (finished : ∀ other ∈ next.machine.finished, other ∈ exec.machine.finished ∨ Announced other next.effects)
    (effects : next.effects = exec.effects ++ .running pid cmd.cmd :: more) (acts : ∀ effect ∈ more, Acts pid effect) :
    Works exec (· = pid) tasks next where
  machine := Or.inr ⟨call,cases⟩
  finished := finished
  ran := by
    intro other cmd' member
    rw [effects] at member
    rcases List.mem_append.mp member with old | new
    · exact Or.inl old
    · rcases List.mem_cons.mp new with same | later
      · obtain ⟨rfl,_⟩ := Effect.running.inj same
        exact Or.inr (cases.known (Or.inr (Or.inl toRun)))
      · exact absurd (acts _ later).silent nofun
  effects := by
    refine ⟨_,effects,(guarded_acts exec.effects acts).mono ?_⟩
    intro before effect acted other same
    exact Option.some.inj (same.symm.trans acted)

private theorem finished_works {cmd : RunCmd} {more : List Effect} {status : ExitStatus} {code : Int}
    {machine : Machine ProcessId RunCmd ProcessState} (inv : Machine.Inv exec.machine)
    (completed : exec.machine.startCompleted pid status = .ok (tasks,machine)) (told : next.machine = machine)
    (effects : next.effects = exec.effects ++ .running pid cmd.cmd :: more) (acts : ∀ effect ∈ more, Acts pid effect) :
    Works exec (· = pid) tasks (report next pid code) := by
  have call : exec.machine.call (.startCompleted pid status) = .ok (tasks,machine) := completed
  obtain ⟨toRun,_,finishes⟩ := inv.startCompleted_cases completed
  subst told
  have whole : (report next pid code).effects =
      exec.effects ++ .running pid cmd.cmd :: (more ++ [.sent (.commandDone pid code)]) := by simp [report,effects]
  refine started_works (inv.call_cases call) toRun ?_ whole ?_
  · intro other member
    change other ∈ next.machine.finished at member
    rw [finishes.finished] at member
    rcases Finmap.mem_insert.mp member with rfl | old
    · exact Or.inr (announced_report next other code)
    · exact Or.inl old
  · intro effect member
    rcases List.mem_append.mp member with old | new
    · exact acts effect old
    · rw [List.mem_singleton.mp new]
      exact ⟨rfl,rfl⟩

theorem processTask_works (inv : Machine.Inv exec.machine) (ok : processTask os task exec = .ok (.ok tasks,next)) :
    Works exec (· = task.pid) tasks next := by
  cases processTask_cases ok with
  | refused pid cmd =>
    refine ⟨Or.inl ⟨rfl,rfl⟩,fun _ => Or.inl,?_,⟨_,rfl,Guarded.nil.snoc ?_⟩⟩
    · intro other cmd' member
      rcases List.mem_append.mp member with old | new
      · exact Or.inl old
      · simp at new
    · exact fun other same => (Option.some.inj same).symm
  | started pid cmd state middle ran quiet toRun =>
    obtain ⟨more,effects,acts⟩ := run_acts ran
    exact started_works (.start pid state toRun) toRun (fun _ => Or.inl) effects acts
  | done pid cmd exitCode middle tasks machine ran quiet completed =>
    obtain ⟨more,effects,acts⟩ := run_acts ran
    exact finished_works inv completed rfl effects acts
  | failed pid cmd e middle tasks machine after ran quiet completed closed silent =>
    obtain ⟨more,effects,acts⟩ := run_acts ran
    have closing : Acting pid { middle with machine } after := (acting_taking.pipeOutputAndClose _ _ _).after closed
    obtain ⟨rest,appended,acts'⟩ := closing
    have whole : after.effects = exec.effects ++ .running pid cmd.cmd :: (more ++ rest) := by
      rw [appended,effects,List.append_assoc,List.cons_append]
    refine finished_works inv completed silent.machine whole ?_
    intro effect member
    exact (List.mem_append.mp member).elim (acts effect) (acts' effect)

private theorem Idle.works (idle : Idle exec next) : Works exec who [] next := by
  obtain ⟨machine,_,_,more,effects,none⟩ := idle
  refine ⟨Or.inl ⟨rfl,machine⟩,fun pid member => Or.inl (machine ▸ member),?_,⟨more,effects,?_⟩⟩
  · intro pid cmd member
    rw [effects] at member
    rcases List.mem_append.mp member with old | new
    · exact Or.inl old
    · exact absurd (none _ new .none) nofun
  · intro before effect after split pid same
    rw [none effect (by simp [split])] at same
    cases same

private theorem completed_works {status : ExitStatus} {before : List Effect} (start : ExecInternal) (code : Int)
    {machine : Machine ProcessId RunCmd ProcessState} (inv : Machine.Inv exec.machine)
    (completed : exec.machine.completed pid status = .ok (tasks,machine)) (told : start.machine = machine)
    (effects : start.effects = exec.effects ++ before) (none : ∀ effect ∈ before, ∀ last, effect.actor last = none) :
    Works exec (· ∈ exec.machine.running) tasks (report start pid code) := by
  have call : exec.machine.call (.completed pid status) = .ok (tasks,machine) := completed
  obtain ⟨running,_,finishes⟩ := inv.completed_cases completed
  subst told
  refine ⟨Or.inr ⟨_,inv.call_cases call⟩,?_,?_,⟨before ++ [.sent (.commandDone pid code)],?_,Guarded.snoc ?_ ?_⟩⟩
  · intro other member
    change other ∈ start.machine.finished at member
    rw [finishes.finished] at member
    rcases Finmap.mem_insert.mp member with rfl | old
    · exact Or.inr (announced_report start other code)
    · exact Or.inl old
  · intro other cmd member
    simp only [report,effects,List.mem_append,List.mem_singleton] at member
    rcases member with (old | new) | last
    · exact Or.inl old
    · have silent := none _ new .none
      simp [Effect.actor] at silent
    · cases last
  · simp [report,effects]
  · intro early effect late split other same
    rw [none effect (by simp [split])] at same
    cases same
  · intro other same
    exact Option.some.inj same ▸ running

private theorem enqueued_works {cmd : RunCmd} {blockFor : OrderedMap ProcessId Condition}
    {machine : Machine ProcessId RunCmd ProcessState} (inv : Machine.Inv exec.machine)
    (enqueued : exec.machine.enqueue pid cmd blockFor = .ok (tasks,machine)) :
    Works exec who tasks { exec with machine } := by
  have call : exec.machine.call (.enqueue pid cmd blockFor) = .ok (tasks,machine) := enqueued
  obtain ⟨_,added⟩ := Machine.enqueue_cases _ _ _ _ _ _ enqueued
  refine ⟨Or.inr ⟨_,inv.call_cases call⟩,?_,fun _ _ => Or.inl,⟨[],(List.append_nil _).symm,Guarded.nil⟩⟩
  intro other member
  cases added with
  | blocked _ _ _ after =>
    change other ∈ machine.finished at member
    exact Or.inl (after.finished ▸ member)
  | _ => exact Or.inl member

theorem Begins.works {event : ExecEvent} (begins : Begins exec event tasks start) (inv : Machine.Inv exec.machine) :
    Works exec (· ∈ exec.machine.running) tasks start := by
  cases begins with
  | enqueued pid cmd blockFor tasks machine enqueued => exact enqueued_works inv enqueued
  | completed pid exitCode tasks machine completed =>
    exact completed_works { exec with machine } exitCode inv completed rfl (List.append_nil _).symm (by simp)
  | edited editId data pid path tasks machine found completed =>
    refine completed_works { exec with
      waitingEdits := exec.waitingEdits.erase editId
      effects := exec.effects ++ [.written path data]
      machine } 0 inv completed rfl rfl ?_
    simp [Effect.actor]
  | idle event next idle => exact idle.works

end Steps

section Announcing
variable {who : ProcessId → Prop} {task : Task ProcessId RunCmd} {queue tasks : List (Task ProcessId RunCmd)}
  {base : List Effect} {blockFor : OrderedMap ProcessId Condition}

/-- The result of every finished pid has been sent, and only known commands have been run. -/
structure Told (exec : ExecInternal) : Prop where
  inv : Machine.Inv exec.machine
  announced : ∀ pid ∈ exec.machine.finished, Announced pid exec.effects
  ran : ∀ pid cmd, .running pid cmd ∈ exec.effects → exec.machine.Known pid

/-- What is caused for the pid comes after the results of all it is blocked for. -/
def Heeds (pid : ProcessId) (blockFor : OrderedMap ProcessId Condition) (before : List Effect) (effect : Effect) :
    Prop :=
  effect.actor (lastRun before) = some pid → ∀ other ∈ blockFor, Announced other before

/-- An accepted command, since it was enqueued: it waits and has no task, or all it was
blocked for has finished. -/
structure Heeding (base : List Effect) (pid : ProcessId) (blockFor : OrderedMap ProcessId Condition)
    (queue : List (Task ProcessId RunCmd)) (exec : ExecInternal) : Prop where
  told : Told exec
  stage : (∃ cmd, exec.machine.Waits pid cmd blockFor) ∧ (∀ task ∈ queue, task.pid ≠ pid) ∨
    exec.machine.AllFinished blockFor
  heeds : ∃ more, exec.effects = base ++ more ∧ Guarded (fun before => Heeds pid blockFor (base ++ before)) more

theorem told_new : Told new where
  inv := Machine.inv_new
  announced pid member := absurd member Finmap.notMem_empty
  ran pid cmd member := by cases member

theorem Works.inv (works : Works exec who tasks next) (inv : Machine.Inv exec.machine) : Machine.Inv next.machine := by
  rcases works.machine with ⟨_,same⟩ | ⟨call,cases⟩
  · exact same ▸ inv
  · exact cases.inv inv

theorem Told.works (told : Told exec) (works : Works exec who tasks next) : Told next where
  inv := works.inv told.inv
  announced := by
    intro pid member
    obtain ⟨more,effects,_⟩ := works.effects
    rcases works.finished pid member with old | now
    · exact effects ▸ (told.announced pid old).append more
    · exact now
  ran := by
    intro pid cmd member
    rcases works.ran pid cmd member with old | known
    · have before := told.ran pid cmd old
      rcases works.machine with ⟨_,same⟩ | ⟨call,cases⟩
      · exact same ▸ before
      · exact cases.known before
    · exact known

theorem Heeding.works (heeding : Heeding base pid blockFor queue exec) (works : Works exec who tasks next)
    (aside : (∃ cmd, exec.machine.Waits pid cmd blockFor) ∧ (∀ task ∈ queue, task.pid ≠ pid) → ¬who pid)
    {rest : List (Task ProcessId RunCmd)} (left : ∀ task ∈ rest, task ∈ queue) :
    Heeding base pid blockFor (rest ++ tasks) next where
  told := heeding.told.works works
  stage := by
    rcases works.machine with ⟨rfl,same⟩ | ⟨call,cases⟩
    · rw [List.append_nil,same]
      exact heeding.stage.imp_left fun waits => ⟨waits.1,fun task member => waits.2 task (left task member)⟩
    · rcases heeding.stage with ⟨⟨cmd,waits⟩,others⟩ | all
      · rcases cases.waits heeding.told.inv waits with still | ⟨satisfied,_⟩
        · refine Or.inl ⟨⟨cmd,still⟩,?_⟩
          intro task member same
          rcases List.mem_append.mp member with old | new
          · exact others task (left task old) same
          · obtain ⟨conditions,found,_⟩ := still
            exact cases.released heeding.told.inv task new (same ▸ FiniteMap.mem_of_lookup found)
        · exact Or.inr satisfied.allFinished
      · exact Or.inr fun other member => cases.finished_kept heeding.told.inv (all other member)
  heeds := by
    obtain ⟨early,effects,guarded⟩ := heeding.heeds
    obtain ⟨more,appended,acted⟩ := works.effects
    refine ⟨early ++ more,by rw [appended,effects,List.append_assoc],guarded.append (acted.mono ?_)⟩
    intro before effect acts same other member
    rw [← List.append_assoc,← effects] at same ⊢
    have all := heeding.stage.resolve_left fun waits => aside waits (acts pid same)
    exact (heeding.told.announced other (all other member)).append before

theorem processTasks_told (told : Told exec) (ok : processTasks os tasks exec = .ok (.ok (),next)) : Told next :=
  processTasks_queue (fun _ => Told) (fun _ _ _ _ _ told ok => told.works (processTask_works told.inv ok)) told ok

theorem processTasks_heeding (heeding : Heeding base pid blockFor tasks exec)
    (ok : processTasks os tasks exec = .ok (.ok (),next)) : Heeding base pid blockFor [] next := by
  refine processTasks_queue (Heeding base pid blockFor) ?_ heeding ok
  intro task rest exec new next heeding ok
  refine heeding.works (processTask_works heeding.told.inv ok) ?_ fun other => List.mem_cons_of_mem task
  intro waits same
  exact waits.2 task (List.mem_cons_self ..) same.symm

theorem handle_told {event : ExecEvent} (told : Told exec) (ok : handle os event exec = .ok next) : Told next := by
  obtain ⟨tasks,start,begins,processed⟩ := handle_begins ok
  exact processTasks_told (told.works (begins.works told.inv)) processed

theorem handle_heeding {event : ExecEvent} (heeding : Heeding base pid blockFor [] exec)
    (ok : handle os event exec = .ok next) : Heeding base pid blockFor [] next := by
  obtain ⟨tasks,start,begins,processed⟩ := handle_begins ok
  refine processTasks_heeding (heeding.works (begins.works heeding.told.inv) ?_ fun _ => id) processed
  intro waits running
  obtain ⟨⟨cmd,conditions,found,_⟩,_⟩ := waits
  exact heeding.told.inv.running_apart pid running (FiniteMap.mem_of_lookup found)

private theorem refused_unknown {entries : List (Task ProcessId RunCmd)}
    (ok : processTasks os entries exec = .ok (.ok (),next))
    (refused : ∀ task ∈ entries, ∃ pid cmd, task = .conditionFailed pid cmd) : next.machine = exec.machine := by
  have left := processTasks_queue (fun queue last => (∀ task ∈ queue, ∃ pid cmd, task = .conditionFailed pid cmd) ∧
    last.machine = exec.machine) ?_ ⟨refused,rfl⟩ ok
  · exact left.2
  · intro task rest last new next before one
    obtain ⟨all,same⟩ := before
    obtain ⟨pid,cmd,rfl⟩ := all task (List.mem_cons_self ..)
    cases processTask_cases one
    rw [List.append_nil]
    exact ⟨fun task member => all task (List.mem_cons_of_mem _ member),same⟩

theorem handle_enqueue_heeding {cmd : RunCmd} (told : Told exec)
    (ok : handle os (.enqueue pid cmd blockFor) exec = .ok next) :
    ¬next.machine.Known pid ∨ Heeding exec.effects pid blockFor [] next := by
  obtain ⟨tasks,middle,called,processed⟩ := bind_ok.mp (handle_ok.mp ok)
  obtain ⟨_,machine,enqueued,same,rfl⟩ := onMachine_ok.mp called
  obtain rfl := Except.ok.inj same
  have call : exec.machine.call (.enqueue pid cmd blockFor) = .ok (tasks,machine) := enqueued
  have cases := told.inv.call_cases call
  have works : Works exec (fun _ => False) tasks { exec with machine } := enqueued_works told.inv enqueued
  have told' := told.works works
  have heeds : ∃ more, exec.effects = exec.effects ++ more ∧
      Guarded (fun before => Heeds pid blockFor (exec.effects ++ before)) more :=
    ⟨[],(List.append_nil _).symm,Guarded.nil⟩
  obtain ⟨fresh,added⟩ := Machine.enqueue_cases _ _ _ _ _ _ enqueued
  cases added with
  | refused =>
    refine Or.inl fun known => fresh ?_
    have same := refused_unknown processed (by simp)
    exact same ▸ known
  | ready passed all =>
    have satisfied := (Machine.honoured_of_passes passed).satisfied all
    exact Or.inr (processTasks_heeding ⟨told',Or.inr satisfied.allFinished,heeds⟩ processed)
  | blocked _ passed some after =>
    obtain ⟨conditions,_,shape⟩ := after.lookup pid
    rw [if_pos rfl] at shape
    rcases cases.waiting_before shape with ⟨before,old,_⟩ | ⟨_,same,_,waits⟩
    · exact absurd (Or.inr (Or.inr (Or.inr (FiniteMap.mem_of_lookup old)))) fresh
    · obtain ⟨_,_,rfl⟩ := Call.enqueue.inj same
      exact Or.inr (processTasks_heeding ⟨told',Or.inl ⟨⟨_,waits⟩,by simp⟩,heeds⟩ processed)

theorem reachable_told (reachable : system.Reachable exec) : Told exec := by
  refine reachable.invariant Told ?_ ?_
  · intro _ same
    obtain rfl := same
    exact told_new
  · exact fun exec label next told taken => handle_told told taken

/-- What the pid was blocked for when it was last enqueued, and the events before that. -/
def LastEnqueued (trace : List (Os × ExecEvent)) (pid : ProcessId) (blockFor : OrderedMap ProcessId Condition)
    (past : List (Os × ExecEvent)) : Prop :=
  ∃ os cmd later, trace = past ++ (os,.enqueue pid cmd blockFor) :: later ∧
    ∀ label ∈ later, ∀ cmd blockFor, label.2 ≠ .enqueue pid cmd blockFor

private theorem known_before (run : system.Reachable exec) {label : Os × ExecEvent}
    (taken : system.step exec label next)
    (known : next.machine.Known pid) (aside : ∀ cmd blockFor, label.2 ≠ .enqueue pid cmd blockFor) :
    exec.machine.Known pid := by
  have handled := handle_handled (reachable_machine run) (reachable_named run) taken
  refine (handled.known pid known).resolve_right fun arrives => ?_
  obtain ⟨cmd,blockFor,arrives⟩ := arrives
  exact aside cmd blockFor arrives

private theorem known_enqueued {trace : List (Os × ExecEvent)} (run : system.Run trace exec)
    (known : exec.machine.Known pid) : ∃ blockFor past, LastEnqueued trace pid blockFor past := by
  induction run with
  | initial start =>
    obtain rfl := start
    simp [Machine.Known,new,Machine.new,Machine.Unfinished,Finmap.notMem_empty] at known
  | step before taken ih =>
    rename_i trace exec label next
    by_cases arrives : ∃ cmd blockFor, label.2 = .enqueue pid cmd blockFor
    · obtain ⟨cmd,blockFor,arrives⟩ := arrives
      exact ⟨blockFor,trace,label.1,cmd,[],by rw [← arrives],by simp⟩
    · have aside (cmd) (blockFor) (same : label.2 = .enqueue pid cmd blockFor) : False := arrives ⟨cmd,blockFor,same⟩
      obtain ⟨blockFor,past,os,cmd,later,rfl,last⟩ := ih (known_before before.reachable taken known aside)
      refine ⟨blockFor,past,os,cmd,later ++ [label],by simp,?_⟩
      intro other member
      rcases List.mem_append.mp member with old | new
      · exact last other old
      · exact List.mem_singleton.mp new ▸ aside

/-- Since its last enqueue a pid is unknown, or it heeds that enqueue. -/
private theorem run_heeding {trace past : List (Os × ExecEvent)} {base : ExecInternal} (run : system.Run trace exec)
    (enqueued : LastEnqueued trace pid blockFor past) (earlier : system.Run past base) :
    ¬exec.machine.Known pid ∨ Heeding base.effects pid blockFor [] exec := by
  obtain ⟨os,cmd,later,split,last⟩ := enqueued
  induction run generalizing later with
  | initial => simp at split
  | step before taken ih =>
    rename_i trace exec label next
    rcases List.eq_nil_or_concat later with rfl | ⟨late,other,rfl⟩
    · obtain ⟨rfl,same⟩ := List.append_inj' split rfl
      obtain rfl := List.singleton_inj.mp same
      obtain rfl := before.unique system_deterministic earlier
      exact handle_enqueue_heeding (reachable_told before.reachable) taken
    · rw [List.concat_eq_append,← List.cons_append,← List.append_assoc] at split
      obtain ⟨rfl,same⟩ := List.append_inj' split rfl
      obtain rfl := List.singleton_inj.mp same
      rw [List.concat_eq_append] at last
      have aside (label) (member : label ∈ late) := last label (List.mem_append_left _ member)
      rcases ih late rfl aside with unknown | heeding
      · refine Or.inl fun known => unknown (known_before before.reachable taken known ?_)
        exact last label (List.mem_append_right _ (List.mem_singleton.mpr rfl))
      · exact Or.inr (handle_heeding heeding taken)

/-- A command that is run has been enqueued, and the results of all that it was blocked for
when it was last enqueued have been sent when `run` is called for it and when anything else
is caused for it since. -/
theorem prerequisites_announced {trace : List (Os × ExecEvent)} {command : Command} (run : system.Run trace exec)
    (ran : .running pid command ∈ exec.effects) :
    (∃ blockFor past, LastEnqueued trace pid blockFor past) ∧
    ∀ blockFor past base, LastEnqueued trace pid blockFor past → system.Run past base →
      (∀ before command after, exec.effects = before ++ .running pid command :: after →
        ∀ other ∈ blockFor, Announced other before) ∧
      ∃ more, exec.effects = base.effects ++ more ∧
        Guarded (fun before => Heeds pid blockFor (base.effects ++ before)) more := by
  have known := (reachable_told run.reachable).ran pid command ran
  refine ⟨known_enqueued run known,fun blockFor past base enqueued earlier => ?_⟩
  have heeding := (run_heeding run enqueued earlier).resolve_left fun unknown => unknown known
  obtain ⟨more,effects,guarded⟩ := heeding.heeds
  refine ⟨?_,more,effects,guarded⟩
  have fresh : ¬base.machine.Known pid := by
    obtain ⟨os,cmd,later,rfl,_⟩ := enqueued
    obtain ⟨state,_,before,taken,_⟩ := run.cut
    obtain rfl := before.unique system_deterministic earlier
    obtain ⟨_,_,called,_⟩ := bind_ok.mp (handle_ok.mp taken)
    obtain ⟨_,_,accepted,_⟩ := onMachine_ok.mp called
    exact (Machine.enqueue_cases _ _ _ _ _ _ accepted).1
  intro before command after split
  rw [effects] at split
  rcases List.append_eq_append_iff.mp split with ⟨early,rfl,shape⟩ | ⟨late,old,shape⟩
  · exact guarded early _ after shape rfl
  · rcases late with _ | ⟨first,late⟩
    · rw [List.append_nil] at old
      have now := guarded [] _ after shape.symm rfl
      rwa [List.append_nil,old] at now
    · obtain ⟨rfl,_⟩ := List.cons.inj shape
      exact absurd ((reachable_told earlier.reachable).ran pid command (by simp [old])) fresh

private def begun : List (Os × ExecEvent) :=
  [(.working,.enqueue ⟨0⟩ ⟨.unknown "make" [],⟨1⟩,⟨2⟩,⟨3⟩⟩ ∅),
    (.working,.enqueue ⟨1⟩ ⟨.setDirectory "/tmp",⟨4⟩,⟨5⟩,⟨6⟩⟩ (AList.insert ⟨0⟩ (some .success) ∅))]

/-- A command that waits for the second one, and the completion of the first. -/
private def chained : List (Os × ExecEvent) := begun ++
  (.working,.enqueue ⟨2⟩ ⟨.getDirectory,⟨7⟩,⟨8⟩,⟨9⟩⟩ (AList.insert ⟨1⟩ (some .success) ∅)) ::
    [(.working,.completed ⟨0⟩ 0)]

theorem prerequisites_announced_chained : ∃ exec, system.Run chained exec ∧ ∃ before after,
    exec.effects = before ++ .running ⟨2⟩ .getDirectory :: after ∧ Announced ⟨1⟩ before := by
  obtain ⟨exec,run,ran⟩ := System.ends_run new (fun exec label => handle label.1 label.2 exec) (fun _ _ => True)
    (fun exec => .running ⟨2⟩ .getDirectory ∈ exec.effects)
    (show System.ends new _ _ _ chained = true by decide +kernel)
  have run : system.Run chained exec := run.unrestricted
  obtain ⟨base,_,earlier,_⟩ := run.cut
  have enqueued : LastEnqueued chained ⟨2⟩ (AList.insert ⟨1⟩ (some .success) ∅) begun := ⟨_,_,_,rfl,by simp⟩
  obtain ⟨announced,_⟩ := (prerequisites_announced run ran).2 _ _ _ enqueued earlier
  obtain ⟨before,after,split⟩ := List.append_of_mem ran
  exact ⟨exec,run,before,after,split,announced before _ after split ⟨1⟩ (by decide)⟩

end Announcing
end ExecInternal
end Nak
