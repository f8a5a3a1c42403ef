import Nak.ExecCascade

/-! The answer to an edit request. The command of the edit finishes with it, unless the file
cannot be written or something that the answer sets off fails. -/
namespace Nak.ExecInternal
open Library Action
variable {os : Os} {exec next start : ExecInternal} {pid : ProcessId} {editId : Nat} {path : String} {data : Bytes}
  {task : Task ProcessId RunCmd} {queue tasks : List (Task ProcessId RunCmd)}

structure NewEdits (exec next : ExecInternal) : Prop where
  ids : exec.editIds.nextId ≤ next.editIds.nextId
  entries : ∀ editId ∈ next.waitingEdits, editId ∈ exec.waitingEdits ∨
    exec.editIds.nextId ≤ editId ∧ editId < next.editIds.nextId

theorem NewEdits.same (edits : next.waitingEdits = exec.waitingEdits) (ids : next.editIds = exec.editIds) :
    NewEdits exec next where
  ids := by rw [ids]
  entries editId member := Or.inl (by rwa [← edits])

instance : IsPreorder ExecInternal NewEdits where
  refl _ := .same rfl rfl
  trans exec middle next first second := by
    refine ⟨first.ids.trans second.ids,?_⟩
    intro editId member
    rcases second.entries editId member with old | ⟨le,lt⟩
    · exact (first.entries editId old).imp_right fun new => ⟨new.1,new.2.trans_le second.ids⟩
    · exact Or.inr ⟨first.ids.trans le,lt⟩

theorem newEdits_taking : Taking os pid NewEdits := by
  refine .of_same (fun _ _ same ids => .same same.waitingEdits ids) ?_
  intro effect _
  exact Keeps.modify _ fun _ => .same rfl rfl

theorem beginEditRequest_newEdits (path : String) (data : Bytes) :
    Keeps NewEdits (beginEditRequest os pid path data) := by
  unfold beginEditRequest editRequest send
  constructor
  intro exec result next ok
  rw [get_bind] at ok
  obtain ⟨_,asked,changed,ok⟩ := (Errorless.modify _).continues ok
  obtain ⟨_,rfl⟩ := Prod.mk.inj (Except.ok.inj changed)
  have asks : NewEdits exec { exec with
      editIds := exec.editIds.next.2
      waitingEdits := exec.waitingEdits.insert exec.editIds.next.1 (pid,path) } := by
    refine ⟨Nat.le_succ _,?_⟩
    intro editId member
    rcases Finmap.mem_insert.mp member with rfl | old
    · exact Or.inr ⟨le_rfl,Nat.lt_succ_self _⟩
    · exact Or.inl old
  have sending : Keeps NewEdits (do
      Action.propagate (os.send (.editRequest pid exec.editIds.next.1 path data))
      cause (.sent (.editRequest pid exec.editIds.next.1 path data)) : Exec Unit) :=
    Keeps.bind (Keeps.propagate _) fun _ => Keeps.modify _ fun _ => .same rfl rfl
  exact IsTrans.trans _ _ _ asks (sending.after ok)

theorem run_newEdits {c : RunCmd} {result : Except Error RunResult} (ok : run os pid c exec = .ok (result,next)) :
    NewEdits exec next := by
  have began : NewEdits exec { exec with effects := exec.effects ++ [.running pid c.cmd] } := .same rfl rfl
  refine IsTrans.trans _ _ _ began ?_
  obtain ⟨cmd,pipes⟩ := c
  by_cases edits : ∃ path, cmd = .edit path
  · obtain ⟨path,rfl⟩ := edits
    obtain ⟨_,_,caused,ok⟩ := (cause_errorless _).continues ok
    obtain ⟨_,rfl⟩ := cause_ok caused
    refine Keeps.after ?_ ok
    rw [readContents_eq]
    apply Keeps.bind (Keeps.propagate _)
    intro contents
    exact Keeps.bind (beginEditRequest_newEdits _ _) fun _ => Keeps.pure _
  · exact newEdits_taking.after_running (fun path same => edits ⟨path,same⟩) ok

theorem processTask_newEdits (ok : processTask os task exec = .ok (.ok tasks,next)) : NewEdits exec next := by
  cases processTask_cases ok with
  | refused => exact .same rfl rfl
  | started pid cmd state middle ran =>
    have kept := run_newEdits ran
    exact ⟨kept.ids,kept.entries⟩
  | done pid cmd exitCode middle tasks machine ran =>
    have kept := run_newEdits ran
    exact ⟨kept.ids,kept.entries⟩
  | failed pid cmd e middle tasks machine after ran quiet completed closed =>
    have taking : Taking os pid NewEdits := newEdits_taking
    have kept := run_newEdits ran
    have told : NewEdits exec { middle with machine } := ⟨kept.ids,kept.entries⟩
    have done := IsTrans.trans _ _ _ told ((taking.pipeOutputAndClose _ _ _).after closed)
    exact ⟨done.ids,done.entries⟩

theorem processTasks_newEdits (ok : processTasks os tasks exec = .ok (.ok (),next)) : NewEdits exec next :=
  processTasks_queue (fun _ => NewEdits exec)
    (fun _ _ _ _ _ kept ok => IsTrans.trans _ _ _ kept (processTask_newEdits ok)) (Std.Refl.refl exec) ok

def Numbered (exec : ExecInternal) : Prop := ∀ editId ∈ exec.waitingEdits, editId < exec.editIds.nextId

theorem NewEdits.numbered (edits : NewEdits exec next) (numbered : Numbered exec) : Numbered next := by
  intro editId member
  rcases edits.entries editId member with old | ⟨_,lt⟩
  · exact (numbered editId old).trans_le edits.ids
  · exact lt

theorem reachable_numbered (reachable : system.Reachable exec) : Numbered exec := by
  refine reachable.invariant Numbered ?_ ?_
  · intro _ same
    obtain rfl := same
    intro editId member
    exact absurd member Finmap.notMem_empty
  · intro exec label next numbered taken
    obtain ⟨os,event⟩ := label
    change handle os event exec = .ok next at taken
    obtain ⟨tasks,start,begins,processed⟩ := handle_begins taken
    refine (processTasks_newEdits processed).numbered ?_
    cases begins with
    | edited editId data pid path tasks machine found completed =>
      intro other member
      exact numbered other (Finmap.mem_erase.mp member).2
    | idle event next idle =>
      intro editId member
      rw [idle.waitingEdits] at member
      rw [idle.editIds]
      exact numbered editId member
    | _ => exact numbered

def written (exec : ExecInternal) (editId : Nat) (path : String) (data : Bytes) : ExecInternal := { exec with
  waitingEdits := exec.waitingEdits.erase editId
  effects := exec.effects ++ [.written path data] }

/-- When `completed` returns. -/
structure Completable (os : Os) (exec : ExecInternal) (pid : ProcessId) (exitCode : Int) : Prop where
  sent : os.send (.commandDone pid exitCode) = .ok ()
  running : pid ∈ exec.machine.running
  undisputed : exec.machine.Undisputed pid (.fromExitCode exitCode)
  startsAll : ∀ tasks machine, exec.machine.Finishes pid (.fromExitCode exitCode) tasks machine →
    StartsAll os tasks (report { exec with machine } pid exitCode)

theorem completed_returns {exitCode : Int} (inv : Machine.Inv exec.machine) :
    Returns (completed os pid exitCode) exec ↔ Completable os exec pid exitCode := by
  have lined {tasks machine} (finishes : exec.machine.Finishes pid (.fromExitCode exitCode) tasks machine)
      (running : pid ∈ exec.machine.running) : Machine.Inv machine ∧ machine.Lined tasks :=
    ⟨finishes.inv inv (Or.inr running),finishes.lined_tasks inv⟩
  constructor
  · intro given
    obtain ⟨value,next,ok⟩ := given
    obtain ⟨_,_,sent,_⟩ := bind_ok.mp ok
    obtain ⟨_,_,sent⟩ := unwrap_ok.mp sent
    obtain ⟨tasks,machine,completed,processed⟩ := completed_cases ok
    obtain ⟨running,undisputed,finishes⟩ := inv.completed_cases completed
    refine ⟨(commandResult_ok.mp sent).1,running,undisputed,?_⟩
    intro tasks' machine' finishes'
    obtain ⟨rfl,rfl⟩ := finishes.unique finishes'
    obtain ⟨inv',lined⟩ := lined finishes running
    exact (processTasks_startsAll inv' lined).mp ⟨next,processed⟩
  · intro completable
    obtain ⟨sent,running,undisputed,startsAll⟩ := completable
    obtain ⟨tasks,machine,completed,finishes⟩ := inv.completed_finishes pid _ running undisputed
    obtain ⟨inv',lined⟩ := lined finishes running
    obtain ⟨next,processed⟩ := (processTasks_startsAll inv' lined).mpr (startsAll tasks machine finishes)
    refine ⟨(),next,bind_ok.mpr ⟨(),_,unwrap_ok.mpr ⟨(),rfl,commandResult_ok.mpr ⟨sent,rfl⟩⟩,?_⟩⟩
    exact bind_ok.mpr ⟨tasks,_,onMachine_ok.mpr ⟨tasks,machine,completed,rfl,rfl⟩,processed⟩

theorem finishEdit_returns (found : exec.waitingEdits.lookup editId = some (pid,path)) :
    Returns (finishEdit os editId data) exec ↔ os.create = .ok () ∧ os.writeAll = .ok () ∧
      Returns (completed os pid 0) (written exec editId path data) := by
  unfold finishEdit
  rw [returns_get,found,returns_lift]
  constructor
  · intro given
    obtain ⟨_,same,rest⟩ := given
    obtain rfl := Except.ok.inj same
    obtain ⟨_,_,create,rest⟩ := returns_bind.mp (returns_modify.mp rest)
    obtain ⟨created,rfl⟩ := Prod.mk.inj (Except.ok.inj create)
    obtain ⟨_,_,write,rest⟩ := returns_bind.mp rest
    obtain ⟨_,_,write⟩ := unwrap_ok.mp write
    obtain ⟨filled,rfl⟩ := Prod.mk.inj (Except.ok.inj write)
    exact ⟨created,filled,returns_cause.mp rest⟩
  · intro given
    obtain ⟨created,filled,rest⟩ := given
    refine ⟨(pid,path),rfl,returns_modify.mpr (returns_bind.mpr ⟨(),_,by rw [created]; rfl,?_⟩)⟩
    refine returns_bind.mpr ⟨(),_,unwrap_ok.mpr ⟨(),rfl,by rw [filled]; rfl⟩,returns_cause.mpr rest⟩

/-- The waiter has nothing else to wait for, or must not be started any more. -/
def Unblocks (machine : Machine ProcessId RunCmd ProcessState) (pid : ProcessId) (status : ExitStatus)
    (waiter : ProcessId) : Prop :=
  ∃ waiting, machine.waitingOn.lookup waiter = some waiting ∧ (FiniteMap.len (waiting.conditions.erase pid) = 0 ∨
    ∃ cond, waiting.conditions.lookup pid = some cond ∧ Contradicted cond status)

/-- The command of the edit is over: it has been reported once, whoever waited only for it has
been dealt with, and the edit is forgotten. -/
structure Concluded (os : Os) (exec : ExecInternal) (editId : Nat) (pid : ProcessId) (next : ExecInternal) : Prop where
  finished : ∃ code more, next.effects = exec.effects ++ more ∧ results pid more = [code] ∧
    (¬(os.create = .ok () ∧ os.writeAll = .ok ()) → code ≠ 0) ∧
    next.machine.finished.lookup pid = some (.fromExitCode code) ∧
    ∀ waiter, Unblocks exec.machine pid (.fromExitCode code) waiter →
      waiter ∈ next.machine.finished ∨ waiter ∈ next.machine.running
  forgotten : editId ∉ next.waitingEdits

/-- What handling the tasks keeps of a pid that has finished. -/
structure Remains (pid : ProcessId) (status : ExitStatus) (start : ExecInternal) (queue : List (Task ProcessId RunCmd))
    (exec : ExecInternal) : Prop where
  inv : Machine.Inv exec.machine
  lined : exec.machine.Lined queue
  finished : exec.machine.finished.lookup pid = some status
  silent : results pid exec.effects = results pid start.effects

theorem Remains.step {status : ExitStatus} (remains : Remains pid status start (task :: queue) exec)
    (ok : processTask os task exec = .ok (.ok tasks,next)) : Remains pid status start (queue ++ tasks) next := by
  obtain ⟨inv,lined,finished,silent⟩ := remains
  have deals := processTask_deals ok
  refine ⟨processTask_inv inv ok,deals.lined inv lined,deals.finished inv finished,?_⟩
  obtain ⟨_,shape,toRun⟩ := lined.starts _ (List.mem_cons_self ..)
  have other : task.pid ≠ pid := by
    intro same
    exact inv.finished_apart pid (FiniteMap.mem_of_lookup finished) (Or.inl (same ▸ toRun))
  rw [← silent]
  cases processTask_cases ok with
  | refused => cases shape
  | started other cmd state middle ran quiet => exact quiet.results pid
  | done other cmd exitCode middle tasks machine ran quiet =>
    rw [results_report,if_neg (by assumption),List.append_nil]
    exact quiet.results pid
  | failed other cmd e middle tasks machine after ran quiet completed closed silent' =>
    rw [results_report,if_neg (by assumption),List.append_nil,silent'.results pid]
    exact quiet.results pid

theorem processTasks_remains {status : ExitStatus} (remains : Remains pid status start tasks start)
    (ok : processTasks os tasks start = .ok (.ok (),next)) : Remains pid status start [] next :=
  processTasks_queue (Remains pid status start) (fun _ _ _ _ _ remains ok => remains.step ok) remains ok

theorem finishEdit_concludes (reachable : system.Reachable exec)
    (found : exec.waitingEdits.lookup editId = some (pid,path)) (filled : os.create = .ok () ∧ os.writeAll = .ok ())
    (ok : finishEdit os editId data exec = .ok (.ok (),next)) : Concluded os exec editId pid next := by
  have inv := reachable_machine reachable
  obtain ⟨_,_,found',done⟩ := finishEdit_cases ok
  obtain ⟨rfl,rfl⟩ := Prod.mk.inj (Option.some.inj (found.symm.trans found'))
  obtain ⟨tasks,machine,completed,processed⟩ := completed_cases done
  obtain ⟨running,undisputed,finishes⟩ := inv.completed_cases completed
  have inv' := finishes.inv inv (Or.inr running)
  have named := reachable_named reachable
  obtain ⟨reached,queued⟩ := (reachable_drained reachable).called (.completed pid _) completed
  have drained : next.machine.Drained := processTasks_drains (by exact reached) (by exact queued) processed
  have during := processTasks_during (by exact inv') (by exact named) processed
  have began : machine.finished.lookup pid = some (.fromExitCode 0) := by
    rw [finishes.finished]
    exact Finmap.lookup_insert _
  have remains := processTasks_remains (by exact ⟨inv',finishes.lined_tasks inv,began,rfl⟩) processed
  obtain ⟨rest,effects,_⟩ := during.effects
  constructor
  · refine ⟨0,[.written path data,.sent (.commandDone pid 0)] ++ rest,?_,?_,absurd filled,remains.finished,?_⟩
    · rw [effects]
      simp [report]
    · have silent := remains.silent
      rw [effects,results,List.filterMap_append] at silent
      have none : rest.filterMap (result pid) = [] := List.append_right_eq_self.mp silent
      rw [results,List.filterMap_append,none,List.append_nil]
      simp [List.filterMap_cons,result]
    · intro waiter unblocks
      obtain ⟨waiting,waits,last | ⟨cond,listed,against⟩⟩ := unblocks
      · have released : (exec.machine.released pid waiter).isSome := by simp [Machine.released,waits,last]
        have ready : machine.Ready waiter := Or.inl ((finishes.toRun waiter).mpr (Or.inr released))
        rcases during.onward.ready waiter ready with toRun | running | finished
        · rw [drained.2] at toRun
          simp at toRun
        · exact Or.inr running
        · exact Or.inl finished
      · exact absurd against (undisputed waiter waiting cond waits listed)
  · intro member
    have numbered := reachable_numbered reachable editId (FiniteMap.mem_of_lookup found)
    rcases (processTasks_newEdits processed).entries editId member with old | ⟨late,_⟩
    · exact (Finmap.mem_erase.mp old).1 rfl
    · exact absurd numbered (Nat.not_lt.mpr late)

/-- The file can be written, the command runs and can be reported, its waiters accept its
success, and the commands that this starts are prepared. -/
structure Concludable (os : Os) (exec : ExecInternal) (editId : Nat) (pid : ProcessId) (data : Bytes) : Prop where
  created : os.create = .ok ()
  filled : os.writeAll = .ok ()
  sent : os.send (.commandDone pid 0) = .ok ()
  running : pid ∈ exec.machine.running
  undisputed : exec.machine.Undisputed pid .success
  prepared : AllPrepared os exec (.editComplete editId data)

theorem answer_awake {status : ExitStatus} {machine : Machine ProcessId RunCmd ProcessState}
    (inv : Machine.Inv exec.machine) (found : exec.waitingEdits.lookup editId = some (pid,path))
    (running : pid ∈ exec.machine.running) (finishes : exec.machine.Finishes pid status tasks machine) :
    Awake os exec (.editComplete editId data) tasks [] machine := by
  have begins : Awake os exec (.editComplete editId data) [] [] exec.machine := .begins inv
  have ended : Over os exec (.editComplete editId data) pid := .completed pid ⟨path,found⟩
  refine begins.finish (fun _ => id) (fun _ => id) (fun _ => Or.inl) begins.due ?_ (Or.inr running) ended finishes ?_
  · intro toRun
    exact absurd running (inv.toRun_apart pid toRun).1
  · exact finishes.lined_tasks inv

theorem Concludable.finishes (inv : Machine.Inv exec.machine)
    (found : exec.waitingEdits.lookup editId = some (pid,path)) (able : Concludable os exec editId pid data) :
    Returns (finishEdit os editId data) exec := by
  obtain ⟨created,filled,sent,running,undisputed,prepared⟩ := able
  refine (finishEdit_returns found).mpr ⟨created,filled,(completed_returns (by exact inv)).mpr ?_⟩
  refine ⟨sent,running,undisputed,?_⟩
  intro tasks machine finishes
  exact prepared.startsAll (answer_awake inv found running finishes) rfl

theorem Concluded.able (reachable : system.Reachable exec) (even : Os.Even os)
    (found : exec.waitingEdits.lookup editId = some (pid,path))
    (ok : finishEdit os editId data exec = .ok (.ok (),next))
    (concluded : Concluded os exec editId pid next) : Concludable os exec editId pid data := by
  have inv := reachable_machine reachable
  obtain ⟨created,filled,returns⟩ := (finishEdit_returns found).mp ⟨(),next,ok⟩
  obtain ⟨sent,running,undisputed,_⟩ := (completed_returns (by exact inv)).mp returns
  refine ⟨created,filled,sent,running,undisputed,?_⟩
  obtain ⟨_,_,found',done⟩ := finishEdit_cases ok
  obtain ⟨rfl,rfl⟩ := Prod.mk.inj (Option.some.inj (found.symm.trans found'))
  obtain ⟨tasks,machine,completed,processed⟩ := completed_cases done
  obtain ⟨_,_,finishes⟩ := inv.completed_cases completed
  obtain ⟨reached,queued⟩ := (reachable_drained reachable).called (.completed pid _) completed
  have drained : next.machine.Drained := processTasks_drains (by exact reached) (by exact queued) processed
  have awake : Awake os exec (.editComplete editId data) tasks [] machine := answer_awake inv found running finishes
  have begins : Checked os exec (.editComplete editId data) tasks []
      (report { written exec editId path data with machine } pid 0) :=
    ⟨awake,spent_start rfl,by simp,.nil,by simp⟩
  obtain ⟨ran,checked⟩ := processTasks_queue (fun queue exec' =>
    ∃ ran, Checked os exec (.editComplete editId data) queue ran exec')
    (fun _ _ _ _ _ checked ok => checked.elim fun _ checked => checked.step even ok) ⟨[],begins⟩ processed
  refine checked.all drained.2 ?_ nofun
  intro other completes
  obtain ⟨path',found'⟩ := completes
  obtain ⟨rfl,_⟩ := Prod.mk.inj (Option.some.inj (found.symm.trans found'))
  obtain ⟨code,_,_,_,_,finished,_⟩ := concluded.finished
  exact FiniteMap.mem_of_lookup finished

/-- The answer to an outstanding edit finishes its command when the commands that it sets off
are prepared, and only then unless the request of an edit depends on its number. -/
theorem edit_concludes_iff (reachable : system.Reachable exec)
    (found : exec.waitingEdits.lookup editId = some (pid,path)) :
    (Concludable os exec editId pid data →
      ∃ next, handle os (.editComplete editId data) exec = .ok next ∧ Concluded os exec editId pid next) ∧
    (Os.Even os → (∃ next, handle os (.editComplete editId data) exec = .ok next ∧ Concluded os exec editId pid next) →
      Concludable os exec editId pid data) := by
  constructor
  · intro able
    obtain ⟨value,next,ok⟩ := able.finishes (reachable_machine reachable) found
    exact ⟨next,handle_ok.mpr ok,finishEdit_concludes reachable found ⟨able.created,able.filled⟩ ok⟩
  · intro even given
    obtain ⟨next,ok,concluded⟩ := given
    exact concluded.able reachable even found (handle_ok.mp ok)

private def entering : Waiting ProcessId RunCmd :=
  ⟨⟨.setDirectory "/tmp",⟨4⟩,⟨5⟩,⟨6⟩⟩,(∅ : FiniteMap ProcessId Condition).insert ⟨0⟩ (some .success)⟩

private def listingNext : Waiting ProcessId RunCmd :=
  ⟨⟨.unknown "ls" [],⟨7⟩,⟨8⟩,⟨9⟩⟩,(∅ : FiniteMap ProcessId Condition).insert ⟨1⟩ none⟩

/-- A directory is to be entered when the notes are edited, and then to be listed. -/
private def editingNotes : List (Os × ExecEvent) :=
  [(.working,.enqueue ⟨0⟩ ⟨.edit "notes",⟨1⟩,⟨2⟩,⟨3⟩⟩ ∅),
    (.working,.enqueue ⟨1⟩ entering.cmd (AList.insert ⟨0⟩ (some .success) ∅)),
    (.working,.enqueue ⟨2⟩ listingNext.cmd (AList.insert ⟨1⟩ none ∅))]

private structure EditingNotes (exec : ExecInternal) : Prop where
  found : exec.waitingEdits.lookup 0 = some (⟨0⟩,"notes")
  running : ⟨0⟩ ∈ exec.machine.running
  handles : exec.openHandles = ∅
  waitingOn : exec.machine.waitingOn =
    ((∅ : FiniteMap ProcessId (Waiting ProcessId RunCmd)).insert ⟨1⟩ entering).insert ⟨2⟩ listingNext

private theorem editing_notes : ∃ exec,
    editingNotes.foldlM (fun exec label => handle label.1 label.2 exec) new = .ok exec ∧ EditingNotes exec ∧
    handle { Os.working with create := .error ⟨.other,"Permission denied"⟩ } (.editComplete 0 []) exec =
      .error .unwrap ∧
    handle { Os.working with writeAll := .error ⟨.other,"No space left on device"⟩ } (.editComplete 0 []) exec =
      .error .unwrap :=
  ⟨_,rfl,⟨rfl,Finmap.mem_iff.mpr ⟨.awaitingEdit,rfl⟩,rfl,rfl⟩,rfl,rfl⟩

private theorem EditingNotes.waits (notes : EditingNotes exec) {waiter : ProcessId} {waiting : Waiting ProcessId RunCmd}
    (found : exec.machine.waitingOn.lookup waiter = some waiting) :
    waiter = ⟨1⟩ ∧ waiting = entering ∨ waiter = ⟨2⟩ ∧ waiting = listingNext := by
  rw [notes.waitingOn] at found
  by_cases second : waiter = ⟨2⟩
  · subst second
    rw [Finmap.lookup_insert] at found
    exact Or.inr ⟨rfl,(Option.some.inj found).symm⟩
  · rw [Finmap.lookup_insert_of_ne _ second] at found
    by_cases first : waiter = ⟨1⟩
    · subst first
      rw [Finmap.lookup_insert] at found
      exact Or.inl ⟨rfl,(Option.some.inj found).symm⟩
    · rw [Finmap.lookup_insert_of_ne _ first] at found
      cases found

private theorem EditingNotes.due (notes : EditingNotes exec) {cmd : RunCmd}
    (due : Due .working exec (.editComplete 0 []) pid cmd) :
    pid = ⟨1⟩ ∧ cmd = entering.cmd ∨ pid = ⟨2⟩ ∧ cmd = listingNext.cmd := by
  cases due with
  | enqueued _ _ blockFor arrives => cases arrives
  | released _ waiting waits =>
    rcases notes.waits waits with ⟨rfl,rfl⟩ | ⟨rfl,rfl⟩
    · exact Or.inl ⟨rfl,rfl⟩
    · exact Or.inr ⟨rfl,rfl⟩

private theorem EditingNotes.able (notes : EditingNotes exec) : Concludable .working exec 0 ⟨0⟩ [] := by
  have undisputed : exec.machine.Undisputed ⟨0⟩ .success := by
    intro waiter waiting cond waits listed
    rcases notes.waits waits with ⟨rfl,rfl⟩ | ⟨rfl,rfl⟩
    · obtain rfl : some ExitStatus.success = cond := Option.some.inj listed
      decide
    · cases listed
  have agreed : exec.machine.Undisputed ⟨1⟩ .success := by
    intro waiter waiting cond waits listed
    rcases notes.waits waits with ⟨rfl,rfl⟩ | ⟨rfl,rfl⟩
    · cases listed
    · obtain rfl : (none : Condition) = cond := Option.some.inj listed
      exact id
  refine ⟨rfl,rfl,rfl,notes.running,undisputed,?_,?_⟩
  · intro pid cmd due
    rcases notes.due due with ⟨rfl,rfl⟩ | ⟨rfl,rfl⟩
    · refine ⟨?_,agreed,rfl⟩
      rw [notes.handles]
      exact ⟨rfl,rfl,by decide⟩
    · unfold Prepared
      rw [notes.handles]
      exact ⟨rfl,⟨rfl,rfl,by decide⟩,_,rfl⟩
  · intro pid cmd pid' cmd' due due' different
    have apart : Apart .working (⟨1⟩,entering.cmd) (⟨2⟩,listingNext.cmd) := by
      refine ⟨fun _ => False.elim,fun pipe taken taken' => ?_⟩
      obtain ⟨_,rfl | rfl⟩ := taken
      · exact absurd taken'.2 (by decide)
      · exact absurd taken'.2 (by decide)
    rcases notes.due due with ⟨rfl,rfl⟩ | ⟨rfl,rfl⟩
    · rcases notes.due due' with ⟨rfl,rfl⟩ | ⟨rfl,rfl⟩
      · exact absurd rfl different
      · exact apart
    · rcases notes.due due' with ⟨rfl,rfl⟩ | ⟨rfl,rfl⟩
      · exact apart.symm
      · exact absurd rfl different

/-- The directory waits for the edit, and its listing for the directory. -/
theorem edit_concludes_iff_notes : ∃ exec, system.Reachable exec ∧
    exec.waitingEdits.lookup 0 = some (⟨0⟩,"notes") ∧ Unblocks exec.machine ⟨0⟩ .success ⟨1⟩ ∧
    Due .working exec (.editComplete 0 []) ⟨2⟩ listingNext.cmd ∧ Concludable .working exec 0 ⟨0⟩ [] ∧
    ∃ next, handle .working (.editComplete 0 []) exec = .ok next ∧ Concluded .working exec 0 ⟨0⟩ next := by
  obtain ⟨exec,ok,notes,_⟩ := editing_notes
  have reachable : system.Reachable exec := ⟨_,System.feed_run new _ ok⟩
  have first : exec.machine.waitingOn.lookup ⟨1⟩ = some entering := by rw [notes.waitingOn]; rfl
  have second : exec.machine.waitingOn.lookup ⟨2⟩ = some listingNext := by rw [notes.waitingOn]; rfl
  obtain ⟨next,handled,concluded⟩ := (edit_concludes_iff reachable notes.found).1 notes.able
  have even : Os.Even .working := fun _ _ _ _ _ _ _ => rfl
  have able := (edit_concludes_iff reachable notes.found).2 even ⟨next,handled,concluded⟩
  refine ⟨exec,reachable,notes.found,⟨entering,first,Or.inl rfl⟩,?_,able,next,handled,concluded⟩
  apply Due.released _ listingNext second
  intro other listed
  obtain rfl : other = ⟨1⟩ := by
    rcases Finmap.mem_insert.mp listed with rfl | none
    · rfl
    · exact absurd none Finmap.notMem_empty
  refine .atOnce _ entering.cmd (.released _ entering first fun other listed => ?_) trivial
  rcases Finmap.mem_insert.mp listed with rfl | none
  · exact .completed _ ⟨"notes",notes.found⟩
  · exact absurd none Finmap.notMem_empty

/-- A file that cannot be created or not be written ends the executor. -/
theorem edit_concludes_fails : ∃ exec, system.Reachable exec ∧ exec.waitingEdits.lookup 0 = some (⟨0⟩,"notes") ∧
    handle { Os.working with create := .error ⟨.other,"Permission denied"⟩ } (.editComplete 0 []) exec =
      .error .unwrap ∧
    handle { Os.working with writeAll := .error ⟨.other,"No space left on device"⟩ } (.editComplete 0 []) exec =
      .error .unwrap := by
  obtain ⟨exec,ok,notes,fails⟩ := editing_notes
  exact ⟨exec,⟨_,System.feed_run new _ ok⟩,notes.found,fails⟩

end Nak.ExecInternal
