import Nak.ExecSpawn
import Nak.ExecFootprint

/-! When a command can be started: the ends of its pipes are free, and when it is done at once
no waiter contradicts it and its result can be sent. -/
namespace Nak.ExecInternal
open Library Action
variable {os : Os} {exec next : ExecInternal} {pid : ProcessId}

def ReadFree (os : Os) (handles : Handles) (pipe : ReadPipe) : Prop :=
  match handles.lookup pipe.toGeneric with
  | some pair => pair.read.isSome
  | none => os.allocPipe pipe.toGeneric = .ok ()

def WriteFree (os : Os) (handles : Handles) (pipe : WritePipe) : Prop :=
  match handles.lookup pipe.toGeneric with
  | some pair => pair.write.isSome
  | none => os.allocPipe pipe.toGeneric = .ok ()

def OutputsFree (os : Os) (handles : Handles) (pipes : WritePipes) : Prop :=
  WriteFree os handles pipes.stdout ∧ WriteFree os handles pipes.stderr ∧ pipes.stderr ≠ pipes.stdout

theorem allocPipe_returns {pipe : GenericPipe} : Returns (allocPipe os pipe) exec ↔ os.allocPipe pipe = .ok () := by
  unfold allocPipe
  cases os.allocPipe pipe with
  | ok => exact iff_of_true ⟨_,_,rfl⟩ rfl
  | error e =>
    refine iff_of_false ?_ (by simp)
    intro given
    obtain ⟨_,_,ok⟩ := given
    cases ok

theorem takeEnd_returns {α : Type} {side : PipeSide α} {pipe : GenericPipe} :
    Returns (takeEnd os side pipe) exec ↔
      match exec.openHandles.lookup pipe with
      | some pair => (side.handle pair).isSome
      | none => os.allocPipe pipe = .ok () := by
  unfold takeEnd
  rw [returns_get]
  cases found : exec.openHandles.lookup pipe with
  | none =>
    rw [if_neg (Finmap.lookup_eq_none.mp found),returns_bind]
    constructor
    · intro given
      obtain ⟨_,_,made,_⟩ := given
      exact allocPipe_returns.mp ⟨_,_,made⟩
    · intro made
      obtain ⟨number,middle,made⟩ := (@allocPipe_returns os exec _).mpr made
      exact ⟨number,middle,made,_,_,rfl⟩
  | some pair =>
    rw [if_pos (FiniteMap.mem_of_lookup found),returns_lift]
    cases held : side.handle pair with
    | none =>
      refine iff_of_false ?_ (by simp [held])
      intro given
      obtain ⟨_,same,rest⟩ := given
      obtain rfl := Option.some.inj ((Outcome.expect_ok _ _ _).mp same)
      obtain ⟨_,missing,_⟩ := returns_lift.mp rest
      rw [held] at missing
      cases missing
    | some handle =>
      refine iff_of_true ⟨pair,rfl,returns_lift.mpr ⟨handle,?_,_,_,rfl⟩⟩ (by simp [held])
      rw [held]
      rfl

theorem readEnd_returns {pipe : ReadPipe} : Returns (readEnd os pipe) exec ↔ ReadFree os exec.openHandles pipe := by
  rw [readEnd_eq,takeEnd_returns]
  rfl

theorem writeEnd_returns {pipe : WritePipe} :
    Returns (writeEnd os pipe) exec ↔ WriteFree os exec.openHandles pipe := by
  rw [writeEnd_eq,takeEnd_returns]
  rfl

theorem readEnd_frees {pipe : ReadPipe} {handle : InputPipe} (ok : readEnd os pipe exec = .ok (.ok handle,next))
    (other : WritePipe) : WriteFree os next.openHandles other ↔ WriteFree os exec.openHandles other := by
  have free := readEnd_returns.mp ⟨_,_,ok⟩
  unfold ReadFree at free
  unfold WriteFree
  rcases readEnd_cases ok with ⟨write,found,rfl⟩ | ⟨absent,_,rfl⟩
  · by_cases same : other.toGeneric = pipe.toGeneric
    · rw [same,Finmap.lookup_insert,found]
    · rw [Finmap.lookup_insert_of_ne _ same]
  · rw [Finmap.lookup_eq_none.mpr absent] at free
    by_cases same : other.toGeneric = pipe.toGeneric
    · rw [same,Finmap.lookup_insert,Finmap.lookup_eq_none.mpr absent]
      exact iff_of_true rfl free
    · rw [Finmap.lookup_insert_of_ne _ same]

theorem WritePipe.toGeneric_inj {pipe other : WritePipe} (same : pipe.toGeneric = other.toGeneric) : pipe = other := by
  obtain ⟨val⟩ := pipe
  obtain ⟨val'⟩ := other
  obtain rfl : val = val' := congrArg GenericPipe.val same
  rfl

theorem writeEnd_frees {pipe : WritePipe} {handle : OutputPipe} (ok : writeEnd os pipe exec = .ok (.ok handle,next))
    (other : WritePipe) :
    WriteFree os next.openHandles other ↔ WriteFree os exec.openHandles other ∧ other ≠ pipe := by
  obtain ⟨⟨read,taken⟩,kept⟩ := writeEnd_takes ok
  by_cases same : other = pipe
  · subst same
    simp [WriteFree,taken]
  · have different : other.toGeneric ≠ pipe.toGeneric := fun equal => same (WritePipe.toGeneric_inj equal)
    simp only [WriteFree,kept _ different,same,ne_eq,not_false_eq_true,and_true]

theorem pipeAndClose_ok (pipe : WritePipe) (handle : OutputPipe) (data : Bytes) :
    ∃ effect, pipeAndClose pipe handle data exec = .ok (.ok (),{ exec with effects := exec.effects ++ [effect] }) := by
  unfold pipeAndClose
  split
  · exact ⟨_,rfl⟩
  · exact ⟨_,rfl⟩

theorem pipeOutputAndClose_returns {pipes : WritePipes} {stdout stderr : Bytes} :
    Returns (pipeOutputAndClose os pipes stdout stderr) exec ↔ OutputsFree os exec.openHandles pipes := by
  unfold pipeOutputAndClose OutputsFree
  rw [returns_bind]
  constructor
  · intro given
    obtain ⟨handle,middle,first,rest⟩ := given
    obtain ⟨effect,closed⟩ := @pipeAndClose_ok middle pipes.stdout handle stdout
    obtain ⟨_,_,same,rest⟩ := returns_bind.mp rest
    obtain ⟨_,rfl⟩ := Prod.mk.inj (Except.ok.inj (closed.symm.trans same))
    obtain ⟨handle',last,second,_⟩ := returns_bind.mp rest
    have free := (@writeEnd_returns os { middle with effects := middle.effects ++ [effect] } _).mp ⟨_,_,second⟩
    exact ⟨writeEnd_returns.mp ⟨_,_,first⟩,(writeEnd_frees first _).mp free⟩
  · intro free
    obtain ⟨stdoutFree,others⟩ := free
    obtain ⟨handle,middle,first⟩ := (@writeEnd_returns os exec _).mpr stdoutFree
    obtain ⟨effect,closed⟩ := @pipeAndClose_ok middle pipes.stdout handle stdout
    refine ⟨handle,middle,first,returns_bind.mpr ⟨_,_,closed,?_⟩⟩
    obtain ⟨handle',last,second⟩ := (@writeEnd_returns os { middle with effects := middle.effects ++ [effect] } _).mpr
      ((writeEnd_frees first _).mpr others)
    obtain ⟨effect',closed'⟩ := @pipeAndClose_ok last pipes.stderr handle' stderr
    exact returns_bind.mpr ⟨handle',last,second,_,_,closed'⟩

def contents (os : Os) (pid : ProcessId) : Except Error Bytes :=
  match os.openFile pid with
  | .ok () => os.readToEnd pid
  | .error e => if e.kind ≠ .notFound then .error e else .ok []

theorem readContents_eq : readContents os pid = .propagate (contents os pid) := by
  unfold readContents contents
  cases os.openFile pid with
  | ok => rfl
  | error e =>
    dsimp only
    split <;> rfl

def EditAsked (os : Os) (exec : ExecInternal) (pid : ProcessId) (path : String) : Prop :=
  ∃ data, contents os pid = .ok data ∧ os.send (.editRequest pid exec.editIds.nextId path data) = .ok ()

/-- A command that is done at once is accepted by its waiters, and its result can be sent. -/
structure Reportable (os : Os) (exec : ExecInternal) (pid : ProcessId) (status : ExitStatus) (code : Int) : Prop where
  undisputed : exec.machine.Undisputed pid status
  sent : os.send (.commandDone pid code) = .ok ()

def statusOf {α : Type} : Except Error α → ExitStatus
  | .ok _ => .success
  | .error _ => .failure

/-- The command can be started, and be reported when that is the end of it. -/
def Startable (os : Os) (exec : ExecInternal) (pid : ProcessId) (c : RunCmd) : Prop :=
  match c.cmd with
  | .unknown _ _ => ReadFree os exec.openHandles c.pipes.stdin ∧ OutputsFree os exec.openHandles c.pipes ∧
      ∃ child, os.spawn pid = .ok child
  | .setDirectory _ => OutputsFree os exec.openHandles c.pipes ∧
      Reportable os exec pid (statusOf (os.setCurrentDir pid)) 0
  | .getDirectory => OutputsFree os exec.openHandles c.pipes ∧ Reportable os exec pid (statusOf (os.currentDir pid)) 0
  | .edit path => ¬EditAsked os exec pid path →
      OutputsFree os exec.openHandles c.pipes ∧ Reportable os exec pid .failure 1

theorem startCompleted_returns {status : ExitStatus} (inv : Machine.Inv exec.machine)
    (toRun : pid ∈ exec.machine.toRun) :
    (∃ tasks machine, exec.machine.startCompleted pid status = .ok (tasks,machine)) ↔
      exec.machine.Undisputed pid status := by
  constructor
  · intro given
    obtain ⟨_,_,completed⟩ := given
    exact (inv.startCompleted_cases completed).2.1
  · intro undisputed
    obtain ⟨tasks,machine,completed,_⟩ := inv.startCompleted_finishes pid status toRun undisputed
    exact ⟨tasks,machine,completed⟩

theorem onMachine_returns {call : Machine ProcessId RunCmd ProcessState →
      Outcome (List (Task ProcessId RunCmd) × Machine ProcessId RunCmd ProcessState)}
    {rest : List (Task ProcessId RunCmd) → Exec (List (Task ProcessId RunCmd))} :
    Returns (do let tasks ← onMachine call; rest tasks) exec ↔
      ∃ tasks machine, call exec.machine = .ok (tasks,machine) ∧ Returns (rest tasks) { exec with machine } := by
  rw [returns_bind]
  constructor
  · intro given
    obtain ⟨_,_,called,rest⟩ := given
    obtain ⟨tasks,machine,called,same,rfl⟩ := onMachine_ok.mp called
    obtain rfl := Except.ok.inj same
    exact ⟨_,machine,called,rest⟩
  · intro given
    obtain ⟨tasks,machine,called,rest⟩ := given
    exact ⟨tasks,_,onMachine_ok.mpr ⟨tasks,machine,called,rfl,rfl⟩,rest⟩

theorem commandResult_returns {code : Int} :
    Returns (commandResult os pid code) exec ↔ os.send (.commandDone pid code) = .ok () := by
  constructor
  · intro given
    obtain ⟨_,_,ok⟩ := given
    exact (commandResult_ok.mp ok).1
  · intro sent
    exact ⟨(),_,commandResult_ok.mpr ⟨sent,rfl⟩⟩

section Arms
variable (inv : Machine.Inv exec.machine) (toRun : pid ∈ exec.machine.toRun)
include inv toRun

theorem done_returns {code : Int} : Returns (do
      let newTasks ← onMachine fun machine => machine.startCompleted pid (.fromExitCode code)
      (commandResult os pid 0).unwrap
      pure newTasks) exec ↔ Reportable os exec pid (.fromExitCode code) 0 := by
  rw [onMachine_returns]
  constructor
  · intro given
    obtain ⟨tasks,machine,completed,rest⟩ := given
    obtain ⟨_,_,sent,_⟩ := returns_bind.mp rest
    obtain ⟨_,_,sent⟩ := unwrap_ok.mp sent
    exact ⟨(startCompleted_returns inv toRun).mp ⟨tasks,machine,completed⟩,commandResult_returns.mp ⟨_,_,sent⟩⟩
  · intro reportable
    obtain ⟨tasks,machine,completed⟩ := (startCompleted_returns inv toRun).mpr reportable.undisputed
    have sent := (@commandResult_ok os { exec with machine } _ pid 0).mpr ⟨reportable.sent,rfl⟩
    exact ⟨tasks,machine,completed,returns_bind.mpr ⟨(),_,unwrap_ok.mpr ⟨(),rfl,sent⟩,_,_,rfl⟩⟩

theorem failed_returns {pipes : WritePipes} {text : Bytes} : Returns (do
      let newTasks ← onMachine fun machine => machine.startCompleted pid .failure
      pipeOutputAndClose os pipes [] text
      commandResult os pid 1
      pure newTasks) exec ↔ OutputsFree os exec.openHandles pipes ∧ Reportable os exec pid .failure 1 := by
  rw [onMachine_returns]
  constructor
  · intro given
    obtain ⟨tasks,machine,completed,rest⟩ := given
    obtain ⟨_,_,closed,rest⟩ := returns_bind.mp rest
    obtain ⟨_,_,sent,_⟩ := returns_bind.mp rest
    have free := (@pipeOutputAndClose_returns os { exec with machine } pipes [] text).mp ⟨_,_,closed⟩
    exact ⟨free,(startCompleted_returns inv toRun).mp ⟨tasks,machine,completed⟩,commandResult_returns.mp ⟨_,_,sent⟩⟩
  · intro given
    obtain ⟨free,undisputed,sent⟩ := given
    obtain ⟨tasks,machine,completed⟩ := (startCompleted_returns inv toRun).mpr undisputed
    obtain ⟨_,after,closed⟩ := (@pipeOutputAndClose_returns os { exec with machine } pipes [] text).mpr free
    have reported := (@commandResult_ok os after _ pid 1).mpr ⟨sent,rfl⟩
    exact ⟨tasks,machine,completed,returns_bind.mpr ⟨_,after,closed,returns_bind.mpr ⟨(),_,reported,_,_,rfl⟩⟩⟩

omit inv in
theorem start_returns {state : ProcessState} :
    Returns (onMachine fun machine => do pure ([],← machine.start pid state)) exec := by
  have started : (do pure ([],← exec.machine.start pid state)) = Except.ok (([] : List (Task ProcessId RunCmd)),
      { exec.machine with
        toRun := exec.machine.toRun.erase pid
        running := exec.machine.running.insert pid state }) := by
    rw [Machine.start,Outcome.assert_true toRun]
    rfl
  exact ⟨[],_,onMachine_ok.mpr ⟨[],_,started,rfl,rfl⟩⟩

end Arms

theorem returns_cause {β : Type} {effect : Effect} {rest : Unit → Exec β} : Returns (cause effect >>= rest) exec ↔
    Returns (rest ()) { exec with effects := exec.effects ++ [effect] } := Iff.rfl

theorem result_returns {α β : Type} {act : Exec α} {rest : Except Error α → Exec β} :
    Returns (do let result ← act.result; rest result) exec ↔
      ∃ result middle, act exec = .ok (result,middle) ∧ Returns (rest result) middle := by
  rw [returns_bind]
  constructor
  · intro given
    obtain ⟨_,middle,ran,rest⟩ := given
    obtain ⟨_,same,ran⟩ := result_ok.mp ran
    obtain rfl := Except.ok.inj same
    exact ⟨_,middle,ran,rest⟩
  · intro given
    obtain ⟨result,middle,ran,rest⟩ := given
    exact ⟨result,middle,result_ok.mpr ⟨result,rfl,ran⟩,rest⟩

theorem closing_returns {pipes : WritePipes} {stdout stderr : Bytes} {code : Int} :
    Returns (do pipeOutputAndClose os pipes stdout stderr; pure (.alreadyDone code) : Exec RunResult) exec ↔
      OutputsFree os exec.openHandles pipes := by
  rw [returns_bind,← @pipeOutputAndClose_returns os exec pipes stdout stderr]
  constructor
  · intro given
    obtain ⟨_,_,closed,_⟩ := given
    exact ⟨_,_,closed⟩
  · intro given
    obtain ⟨_,_,closed⟩ := given
    exact ⟨_,_,closed,_,_,rfl⟩

theorem run_unknown_returns {path : String} {args : List String} {pipes : WritePipes} :
    Returns (run os pid ⟨.unknown path args,pipes⟩) exec ↔ ReadFree os exec.openHandles pipes.stdin ∧
      OutputsFree os exec.openHandles pipes ∧ ∃ child, os.spawn pid = .ok child := by
  unfold run
  rw [returns_bind]
  constructor
  · intro given
    obtain ⟨_,_,caused,rest⟩ := given
    obtain ⟨_,rfl⟩ := cause_ok caused
    obtain ⟨stdin,first,read,rest⟩ := returns_bind.mp rest
    obtain ⟨stdout,second,write,rest⟩ := returns_bind.mp rest
    obtain ⟨stderr,third,write',rest⟩ := returns_bind.mp rest
    obtain ⟨child,_,spawn,_⟩ := returns_bind.mp rest
    have stdinFree := readEnd_returns.mp ⟨_,_,read⟩
    have stdoutFree := (readEnd_frees read _).mp (writeEnd_returns.mp ⟨_,_,write⟩)
    obtain ⟨stderrFree,different⟩ := (writeEnd_frees write _).mp (writeEnd_returns.mp ⟨_,_,write'⟩)
    refine ⟨stdinFree,⟨stdoutFree,(readEnd_frees read _).mp stderrFree,different⟩,child,?_⟩
    exact (Prod.mk.inj (Except.ok.inj spawn)).1
  · intro given
    obtain ⟨stdinFree,⟨stdoutFree,stderrFree,different⟩,child,spawn⟩ := given
    obtain ⟨stdin,first,read⟩ := (@readEnd_returns os { exec with
      effects := exec.effects ++ [.running pid (.unknown path args)] } _).mpr stdinFree
    obtain ⟨stdout,second,write⟩ := writeEnd_returns.mpr ((readEnd_frees read _).mpr stdoutFree)
    obtain ⟨stderr,third,write'⟩ := writeEnd_returns.mpr
      ((writeEnd_frees write _).mpr ⟨(readEnd_frees read _).mpr stderrFree,different⟩)
    refine ⟨(),_,rfl,returns_bind.mpr ⟨stdin,first,read,returns_bind.mpr ⟨stdout,second,write,?_⟩⟩⟩
    refine returns_bind.mpr ⟨stderr,third,write',returns_bind.mpr ⟨child,third,?_,_,_,rfl⟩⟩
    rw [spawn]
    rfl

theorem run_setDirectory_returns {dir : String} {pipes : WritePipes} :
    Returns (run os pid ⟨.setDirectory dir,pipes⟩) exec ↔ OutputsFree os exec.openHandles pipes := by
  unfold run
  rw [returns_cause]
  cases os.setCurrentDir pid with
  | ok => exact returns_cause.trans closing_returns
  | error e => exact closing_returns

theorem run_getDirectory_returns {pipes : WritePipes} :
    Returns (run os pid ⟨.getDirectory,pipes⟩) exec ↔ OutputsFree os exec.openHandles pipes := by
  unfold run
  rw [returns_cause]
  cases os.currentDir pid with
  | ok dir => exact closing_returns
  | error e => exact closing_returns

theorem run_edit (path : String) (pipes : WritePipes) :
    ∃ result middle, run os pid ⟨.edit path,pipes⟩ exec = .ok (result,middle) ∧
      middle.openHandles = exec.openHandles ∧
      (EditAsked os exec pid path → result = .ok (.process .awaitingEdit)) ∧
      (¬EditAsked os exec pid path → ∃ e, result = .error e) := by
  let start : ExecInternal := { exec with effects := exec.effects ++ [.running pid (.edit path)] }
  have began : cause (.running pid (.edit path)) exec = .ok (.ok (),start) := rfl
  unfold run EditAsked
  rw [ok_bind began,readContents_eq]
  cases contents os pid with
  | error e => exact ⟨_,_,rfl,rfl,by simp,fun _ => ⟨e,rfl⟩⟩
  | ok data =>
    have read : propagate (Except.ok data : Except Error Bytes) start = .ok (.ok data,start) := rfl
    let asked : ExecInternal := { start with
      editIds := ⟨exec.editIds.nextId + 1⟩
      waitingEdits := exec.waitingEdits.insert exec.editIds.nextId (pid,path) }
    have asks : beginEditRequest os pid path data start =
      send os (.editRequest pid exec.editIds.nextId path data) asked := rfl
    unfold send at asks
    cases sent : os.send (.editRequest pid exec.editIds.nextId path data) with
    | error e =>
      rw [sent,raised_bind (by rfl)] at asks
      refine ⟨.error e,asked,(ok_bind read).trans (raised_bind asks),rfl,?_,fun _ => ⟨e,rfl⟩⟩
      intro given
      obtain ⟨_,same,accepted⟩ := given
      obtain rfl := Except.ok.inj same
      rw [sent] at accepted
      cases accepted
    | ok =>
      rw [sent,ok_bind (by rfl)] at asks
      exact ⟨_,_,(ok_bind read).trans (ok_bind asks),rfl,fun _ => rfl,fun absent => absurd ⟨data,rfl,sent⟩ absent⟩

section Task
variable {c : RunCmd} (inv : Machine.Inv exec.machine) (toRun : pid ∈ exec.machine.toRun)
include inv toRun

private theorem done_task {status : ExitStatus} {runs : Prop} (returns : Returns (run os pid c) exec ↔ runs)
    (answers : ∀ result middle, run os pid c exec = .ok (result,middle) →
      ∃ code, result = .ok (.alreadyDone code) ∧ .fromExitCode code = status) :
    Returns (processTask os (.start pid c)) exec ↔ runs ∧ Reportable os exec pid status 0 := by
  refine result_returns.trans ?_
  rw [← returns]
  constructor
  · intro given
    obtain ⟨result,middle,ran,rest⟩ := given
    obtain ⟨code,rfl,rfl⟩ := answers _ _ ran
    have quiet := ((quiet_frame os).run pid c).after ran
    obtain ⟨undisputed,sent⟩ := (done_returns (by rwa [quiet.machine]) (by rwa [quiet.machine])).mp rest
    rw [quiet.machine] at undisputed
    exact ⟨⟨_,_,ran⟩,undisputed,sent⟩
  · intro given
    obtain ⟨⟨value,middle,ran⟩,undisputed,sent⟩ := given
    obtain ⟨code,same,rfl⟩ := answers _ _ ran
    have quiet := ((quiet_frame os).run pid c).after ran
    refine ⟨_,middle,ran,?_⟩
    rw [same]
    refine (done_returns (by rwa [quiet.machine]) (by rwa [quiet.machine])).mpr ⟨?_,sent⟩
    rwa [quiet.machine]

/-- A command that is to run is dealt with exactly when it can be started. -/
theorem startable_iff : Returns (processTask os (.start pid c)) exec ↔ Startable os exec pid c := by
  obtain ⟨cmd,pipes⟩ := c
  cases cmd with
  | unknown path args =>
    rw [Startable,← run_unknown_returns]
    constructor
    · intro given
      obtain ⟨result,middle,ran,_⟩ := result_returns.mp given
      cases run_cases ran with
      | spawned _ _ child => exact ⟨_,_,ran⟩
      | unspawned _ _ e fails =>
        obtain ⟨_,_,ok⟩ := given
        exact absurd ok (unspawned_panics fails)
    · intro given
      obtain ⟨value,middle,ran⟩ := given
      have quiet := ((quiet_frame os).run pid _).after ran
      refine result_returns.mpr ⟨_,middle,ran,?_⟩
      have cases := run_cases ran
      generalize shape : (.ok value : Except Error RunResult) = result at cases
      cases cases with
      | spawned _ _ child =>
        obtain rfl := Except.ok.inj shape
        exact start_returns (by rwa [quiet.machine])
      | unspawned => cases shape
  | setDirectory dir =>
    refine done_task inv toRun run_setDirectory_returns ?_
    intro result middle ran
    cases run_cases ran with
    | directorySet _ set => exact ⟨0,rfl,by rw [set]; rfl⟩
    | directoryUnset _ e set => exact ⟨1,rfl,by rw [set]; rfl⟩
  | getDirectory =>
    refine done_task inv toRun run_getDirectory_returns ?_
    intro result middle ran
    cases run_cases ran with
    | directoryRead dir got => exact ⟨0,rfl,by rw [got]; rfl⟩
    | directoryUnread e got => exact ⟨1,rfl,by rw [got]; rfl⟩
  | edit path =>
    obtain ⟨result,middle,ran,same,asked,unasked⟩ := @run_edit os exec pid path pipes
    have quiet := ((quiet_frame os).run pid _).after ran
    refine result_returns.trans ⟨?_,?_⟩
    · intro given absent
      obtain ⟨_,_,ran',rest⟩ := given
      obtain ⟨rfl,rfl⟩ := Prod.mk.inj (Except.ok.inj (ran.symm.trans ran'))
      obtain ⟨e,rfl⟩ := unasked absent
      obtain ⟨free,undisputed,sent⟩ := (failed_returns (by rwa [quiet.machine]) (by rwa [quiet.machine])).mp rest
      rw [quiet.machine] at undisputed
      rw [same] at free
      exact ⟨free,undisputed,sent⟩
    · intro startable
      refine ⟨result,middle,ran,?_⟩
      by_cases asks : EditAsked os exec pid path
      · rw [asked asks]
        exact start_returns (by rwa [quiet.machine])
      · obtain ⟨e,rfl⟩ := unasked asks
        obtain ⟨free,undisputed,sent⟩ := startable asks
        refine (failed_returns (by rwa [quiet.machine]) (by rwa [quiet.machine])).mpr ⟨?_,?_,sent⟩
        · rwa [same]
        · rwa [quiet.machine]

end Task

end Nak.ExecInternal
