import Nak.MachineCommute
import Nak.ExecDrains
import Nak.ExecStarts
import Nak.ExecHandled

/-! The commands that an event sets off, seen from the state before it. They can be started one
after the other when each finds its ends free before the event and no two take the same end. -/
namespace Nak.ExecInternal
open Library Action
variable {os : Os} {base exec next : ExecInternal} {event : ExecEvent} {pid : ProcessId} {cmd : RunCmd}
  {queue tasks : List (Task ProcessId RunCmd)} {ran : List (ProcessId × RunCmd)}

/-- With the ends that are free before the event the command can be started, and be reported
when that is the end of it. -/
def Prepared (os : Os) (base : ExecInternal) (pid : ProcessId) (c : RunCmd) : Prop :=
  match c.cmd with
  | .unknown _ _ => ReadFree os base.openHandles c.pipes.stdin ∧ OutputsFree os base.openHandles c.pipes ∧
      ∃ child, os.spawn pid = .ok child
  | .setDirectory _ => OutputsFree os base.openHandles c.pipes ∧
      Reportable os base pid (statusOf (os.setCurrentDir pid)) 0
  | .getDirectory => OutputsFree os base.openHandles c.pipes ∧ Reportable os base pid (statusOf (os.currentDir pid)) 0
  | .edit path => EditFails os pid path → OutputsFree os base.openHandles c.pipes ∧ Reportable os base pid .failure 1

def TakesInput (c : RunCmd) (pipe : ReadPipe) : Prop :=
  match c.cmd with
  | .unknown _ _ => pipe = c.pipes.stdin
  | _ => False

/-- An edit takes its output ends only to report that it has failed. -/
def TakesOutput (os : Os) (pid : ProcessId) (c : RunCmd) (pipe : WritePipe) : Prop :=
  (∀ path, c.cmd = .edit path → EditFails os pid path) ∧ (pipe = c.pipes.stdout ∨ pipe = c.pipes.stderr)

/-- No end is for both commands. -/
structure Apart (os : Os) (one two : ProcessId × RunCmd) : Prop where
  inputs : ∀ pipe, TakesInput one.2 pipe → ¬TakesInput two.2 pipe
  outputs : ∀ pipe, TakesOutput os one.1 one.2 pipe → ¬TakesOutput os two.1 two.2 pipe

theorem Apart.symm {one two : ProcessId × RunCmd} (apart : Apart os one two) : Apart os two one where
  inputs pipe taken other := apart.inputs pipe other taken
  outputs pipe taken other := apart.outputs pipe other taken

theorem Apart.of_pipes {one two : ProcessId × RunCmd}
    (inputs : ∀ pipe, TakesInput one.2 pipe → ¬TakesInput two.2 pipe)
    (outputs : ∀ pipe, TakesOutput os one.1 one.2 pipe → ¬(pipe = two.2.pipes.stdout ∨ pipe = two.2.pipes.stderr)) :
    Apart os one two :=
  ⟨inputs,fun pipe taken own => outputs pipe taken own.2⟩

instance : Std.Symm (Apart os) where
  symm _ _ := Apart.symm

/-- Whether the frontend can be asked for an edit of a file is the same for every edit of it. -/
def Os.Even (os : Os) : Prop :=
  ∀ pid path editId editId' data data', os.send (.editRequest pid editId path data) = .ok () →
    os.send (.editRequest pid editId' path data') = .ok ()

theorem unasked_fails {path : String} (unasked : ¬EditAsked os exec pid path) : EditFails os pid path := by
  unfold EditAsked contents at unasked
  cases opened : os.openFile pid with
  | error e =>
    rw [opened] at unasked
    by_cases other : e.kind = .notFound
    · right; right
      cases sent : os.send (.editRequest pid exec.editIds.nextId path []) with
      | error e' => exact ⟨_,_,e',sent⟩
      | ok => exact absurd ⟨[],by simp [other],sent⟩ unasked
    · exact Or.inl ⟨e,opened,other⟩
  | ok =>
    right
    cases read : os.readToEnd pid with
    | error e => exact Or.inl ⟨opened,e,rfl⟩
    | ok data =>
      right
      cases sent : os.send (.editRequest pid exec.editIds.nextId path data) with
      | error e' => exact ⟨_,_,e',sent⟩
      | ok => exact absurd ⟨data,by rw [opened]; exact read,sent⟩ unasked

theorem Os.Even.unasked (even : Os.Even os) {path : String} (fails : EditFails os pid path) :
    ¬EditAsked os exec pid path := by
  rintro ⟨data,read,sent⟩
  unfold contents at read
  rcases fails with ⟨e,opened,other⟩ | ⟨opened,e,unread⟩ | ⟨editId,data',e,unsent⟩
  · rw [opened] at read
    simp [other] at read
  · rw [opened] at read
    simp only [unread] at read
    cases read
  · rw [even pid path _ editId _ data' sent] at unsent
    cases unsent

theorem readEnd_takes {pipe : ReadPipe} {handle : InputPipe} (ok : readEnd os pipe exec = .ok (.ok handle,next))
    (other : ReadPipe) : ReadFree os next.openHandles other ↔ ReadFree os exec.openHandles other ∧ other ≠ pipe := by
  unfold ReadFree
  by_cases same : other = pipe
  · subst same
    rcases readEnd_cases ok with ⟨write,_,rfl⟩ | ⟨_,_,rfl⟩
    · simp
    · simp
  · have different : other.toGeneric ≠ pipe.toGeneric := by
      obtain ⟨val⟩ := other
      obtain ⟨val'⟩ := pipe
      exact fun equal => same (congrArg ReadPipe.mk (congrArg GenericPipe.val equal))
    rw [and_iff_left same]
    rcases readEnd_cases ok with ⟨write,_,rfl⟩ | ⟨_,_,rfl⟩
    · rw [Finmap.lookup_insert_of_ne _ different]
    · rw [Finmap.lookup_insert_of_ne _ different]

theorem writeEnd_spares {pipe : WritePipe} {handle : OutputPipe} (ok : writeEnd os pipe exec = .ok (.ok handle,next))
    (other : ReadPipe) : ReadFree os next.openHandles other ↔ ReadFree os exec.openHandles other := by
  have free := writeEnd_returns.mp ⟨_,_,ok⟩
  unfold WriteFree at free
  unfold ReadFree
  by_cases same : other.toGeneric = pipe.toGeneric
  · rcases writeEnd_cases ok with ⟨read,found,rfl⟩ | ⟨absent,_,rfl⟩
    · rw [same,Finmap.lookup_insert,found]
    · rw [Finmap.lookup_eq_none.mpr absent] at free
      rw [same,Finmap.lookup_insert,Finmap.lookup_eq_none.mpr absent]
      exact iff_of_true rfl free
  · rw [(writeEnd_takes ok).2 _ same]

/-- The ends that are free afterwards are those that were free before and are not taken. -/
structure Frees (os : Os) (inputs : ReadPipe → Prop) (outputs : WritePipe → Prop) (before after : Handles) :
    Prop where
  reads : ∀ pipe, ReadFree os after pipe ↔ ReadFree os before pipe ∧ ¬inputs pipe
  writes : ∀ pipe, WriteFree os after pipe ↔ WriteFree os before pipe ∧ ¬outputs pipe

namespace Frees
variable {inputs inputs' : ReadPipe → Prop} {outputs outputs' : WritePipe → Prop} {before middle after : Handles}

theorem same : Frees os (fun _ => False) (fun _ => False) before before := ⟨by simp,by simp⟩

theorem trans (first : Frees os inputs outputs before middle) (second : Frees os inputs' outputs' middle after) :
    Frees os (fun pipe => inputs pipe ∨ inputs' pipe) (fun pipe => outputs pipe ∨ outputs' pipe) before after where
  reads pipe := by rw [second.reads,first.reads,not_or,and_assoc]
  writes pipe := by rw [second.writes,first.writes,not_or,and_assoc]

theorem taking (frees : Frees os inputs outputs before after) (reads : ∀ pipe, inputs pipe ↔ inputs' pipe)
    (writes : ∀ pipe, outputs pipe ↔ outputs' pipe) : Frees os inputs' outputs' before after where
  reads pipe := (frees.reads pipe).trans (and_congr_right fun _ => not_congr (reads pipe))
  writes pipe := (frees.writes pipe).trans (and_congr_right fun _ => not_congr (writes pipe))

theorem input {pipe : ReadPipe} {handle : InputPipe} (ok : readEnd os pipe exec = .ok (.ok handle,next)) :
    Frees os (· = pipe) (fun _ => False) exec.openHandles next.openHandles where
  reads := readEnd_takes ok
  writes other := by simp [readEnd_frees ok]

theorem output {pipe : WritePipe} {handle : OutputPipe} (ok : writeEnd os pipe exec = .ok (.ok handle,next)) :
    Frees os (fun _ => False) (· = pipe) exec.openHandles next.openHandles where
  reads other := by simp [writeEnd_spares ok]
  writes := writeEnd_frees ok

theorem outputAndClose {pipes : WritePipes} {stdout stderr : Bytes}
    (ok : pipeOutputAndClose os pipes stdout stderr exec = .ok (.ok (),next)) :
    Frees os (fun _ => False) (fun pipe => pipe = pipes.stdout ∨ pipe = pipes.stderr) exec.openHandles
      next.openHandles := by
  obtain ⟨first,middle,taken,ok⟩ := bind_ok.mp ok
  obtain ⟨_,_,closed,ok⟩ := bind_ok.mp ok
  obtain ⟨effect,same⟩ := @pipeAndClose_ok middle pipes.stdout first stdout
  obtain ⟨_,rfl⟩ := Prod.mk.inj (Except.ok.inj (same.symm.trans closed))
  obtain ⟨second,last,taken',closed'⟩ := bind_ok.mp ok
  obtain ⟨effect',same'⟩ := @pipeAndClose_ok last pipes.stderr second stderr
  obtain ⟨_,rfl⟩ := Prod.mk.inj (Except.ok.inj (same'.symm.trans closed'))
  have freed := output taken
  have freed' := output taken'
  exact (freed.trans freed').taking (by simp) fun _ => Iff.rfl

theorem closing {pipes : WritePipes} {stdout stderr : Bytes} {code : Int} {result : Except Error RunResult}
    (ok : (do pipeOutputAndClose os pipes stdout stderr; pure (.alreadyDone code) : Exec RunResult) exec =
      .ok (result,next)) :
    Frees os (fun _ => False) (fun pipe => pipe = pipes.stdout ∨ pipe = pipes.stderr) exec.openHandles
      next.openHandles := by
  obtain ⟨_,last,closed,ok⟩ := (pipeOutputAndClose_errorless os _ _ _).continues ok
  obtain ⟨_,rfl⟩ := Prod.mk.inj (Except.ok.inj ok)
  exact outputAndClose closed

end Frees

private theorem run_frees {result : Except Error RunResult} (ok : run os pid cmd exec = .ok (result,next))
    (spawns : ∀ path args e, cmd.cmd = .unknown path args → result ≠ .error e) :
    Frees os (TakesInput cmd) (fun pipe => (∀ path, cmd.cmd ≠ .edit path) ∧
      (pipe = cmd.pipes.stdout ∨ pipe = cmd.pipes.stderr)) exec.openHandles next.openHandles := by
  obtain ⟨command,pipes⟩ := cmd
  cases command with
  | unknown path args =>
    obtain ⟨_,_,caused,ok⟩ := (cause_errorless _).continues ok
    obtain ⟨_,rfl⟩ := cause_ok caused
    obtain ⟨stdin,first,read,ok⟩ := (readEnd_errorless os _).continues ok
    obtain ⟨stdout,second,write,ok⟩ := (writeEnd_errorless os _).continues ok
    obtain ⟨stderr,third,write',ok⟩ := (writeEnd_errorless os _).continues ok
    cases spawn : os.spawn pid with
    | error e =>
      rw [spawn] at ok
      exact absurd (Prod.mk.inj (Except.ok.inj ok)).1.symm (spawns path args e rfl)
    | ok child =>
      rw [spawn] at ok
      obtain ⟨_,rfl⟩ := Prod.mk.inj (Except.ok.inj ok)
      have taken := ((Frees.input read).trans (.output write)).trans (.output write')
      exact taken.taking (by simp [TakesInput]) (by simp)
  | setDirectory dir =>
    obtain ⟨_,_,caused,ok⟩ := (cause_errorless _).continues ok
    obtain ⟨_,rfl⟩ := cause_ok caused
    cases set : os.setCurrentDir pid with
    | ok =>
      simp only [set] at ok
      obtain ⟨_,_,caused,ok⟩ := (cause_errorless _).continues ok
      obtain ⟨_,rfl⟩ := cause_ok caused
      exact (Frees.closing ok).taking (by simp [TakesInput]) (by simp)
    | error e =>
      simp only [set] at ok
      exact (Frees.closing ok).taking (by simp [TakesInput]) (by simp)
  | getDirectory =>
    obtain ⟨_,_,caused,ok⟩ := (cause_errorless _).continues ok
    obtain ⟨_,rfl⟩ := cause_ok caused
    cases got : os.currentDir pid with
    | ok dir =>
      simp only [got] at ok
      exact (Frees.closing ok).taking (by simp [TakesInput]) (by simp)
    | error e =>
      simp only [got] at ok
      exact (Frees.closing ok).taking (by simp [TakesInput]) (by simp)
  | edit path =>
    obtain ⟨_,_,same,ends,_⟩ := @run_edit os exec pid path pipes
    obtain ⟨_,rfl⟩ := Prod.mk.inj (Except.ok.inj (ok.symm.trans same))
    rw [ends]
    exact Frees.same.taking (by simp [TakesInput]) (by simp)

theorem run_editing {path : String} {result : Except Error RunResult} (edit : cmd.cmd = .edit path)
    (ran : run os pid cmd exec = .ok (result,next)) :
    (EditAsked os exec pid path → result = .ok (.process .awaitingEdit)) ∧
      (¬EditAsked os exec pid path → ∃ e, result = .error e) := by
  obtain ⟨command,pipes⟩ := cmd
  obtain rfl : command = .edit path := edit
  obtain ⟨_,_,same,_,asks⟩ := @run_edit os exec pid path pipes
  obtain ⟨rfl,_⟩ := Prod.mk.inj (Except.ok.inj (ran.symm.trans same))
  exact asks

theorem processTask_frees (ok : processTask os (.start pid cmd) exec = .ok (.ok tasks,next)) :
    Frees os (TakesInput cmd) (fun pipe => (∀ path, cmd.cmd = .edit path → ¬EditAsked os exec pid path) ∧
      (pipe = cmd.pipes.stdout ∨ pipe = cmd.pipes.stderr)) exec.openHandles next.openHandles := by
  have fine {result : RunResult} {middle : ExecInternal} (ran : run os pid cmd exec = .ok (.ok result,middle)) :
      Frees os (TakesInput cmd) (fun pipe => (∀ path, cmd.cmd = .edit path → ¬EditAsked os exec pid path) ∧
        (pipe = cmd.pipes.stdout ∨ pipe = cmd.pipes.stderr)) exec.openHandles middle.openHandles := by
    refine (run_frees ran nofun).taking (fun _ => Iff.rfl) fun pipe => and_congr_left fun _ => ?_
    refine forall_congr' fun path => ⟨fun other edit => absurd edit other,fun unasked edit => ?_⟩
    obtain ⟨e,shape⟩ := (run_editing edit ran).2 (unasked edit)
    cases shape
  cases processTask_cases ok with
  | started _ _ state middle ran =>
    have freed := fine ran
    exact freed
  | done _ _ exitCode middle tasks machine ran =>
    have freed := fine ran
    exact freed
  | failed _ _ e middle tasks machine after ran quiet completed closed silent =>
    obtain ⟨path,edit⟩ : ∃ path, cmd.cmd = .edit path := by
      have cases := run_cases ran
      obtain ⟨command,pipes⟩ := cmd
      cases cases with
      | unspawned path args e fails => exact absurd ok (unspawned_panics fails)
      | unedited path => exact ⟨path,rfl⟩
    have unasked (other : String) (edit' : cmd.cmd = .edit other) : ¬EditAsked os exec pid other := by
      intro asked
      cases (run_editing edit' ran).1 asked
    have first := run_frees ran fun path args e spawns => by rw [edit] at spawns; cases spawns
    have second := Frees.outputAndClose closed
    refine (first.trans second).taking (by simp) fun pipe => ?_
    rw [and_iff_right unasked]
    exact or_iff_right fun taken => taken.1 path edit

/-- What the event has left of the machine while its tasks are dealt with, with the commands
that it has started so far. -/
structure Awake (os : Os) (base : ExecInternal) (event : ExecEvent) (queue : List (Task ProcessId RunCmd))
    (ran : List (ProcessId × RunCmd)) (machine : Machine ProcessId RunCmd ProcessState) : Prop where
  inv : Machine.Inv machine
  lined : machine.Lined queue
  queued : ∀ waiter cmd, .start waiter cmd ∈ queue → Due os base event waiter cmd
  due : ∀ entry ∈ ran, Due os base event entry.1 entry.2
  started : ∀ entry ∈ ran, entry.1 ∈ machine.running ∨ entry.1 ∈ machine.finished
  waiting : ∀ waiter waiting, machine.waitingOn.lookup waiter = some waiting →
    ∃ before, base.machine.waitingOn.lookup waiter = some before ∧ waiting.cmd = before.cmd ∧
      (∀ other ∈ waiting.conditions, other ∈ before.conditions) ∧
      ∀ other ∈ before.conditions, other ∈ waiting.conditions ∨ Over os base event other
  undisputed : ∀ other, other ∉ machine.finished → ∀ status,
    (machine.Undisputed other status ↔ base.machine.Undisputed other status)
  left : ∀ waiter ∈ base.machine.waitingOn, waiter ∈ machine.waitingOn ∨ waiter ∈ machine.toRun ∨
    ∃ cmd, (waiter,cmd) ∈ ran

namespace Awake
variable {machine after : Machine ProcessId RunCmd ProcessState} {ran' : List (ProcessId × RunCmd)}
  {queue' : List (Task ProcessId RunCmd)} {status : ExitStatus}

theorem begins (inv : Machine.Inv base.machine) : Awake os base event [] [] base.machine where
  inv := inv
  lined := ⟨by simp,by simp⟩
  queued := by simp
  due := by simp
  started := by simp
  waiting _ waiting found := ⟨waiting,found,rfl,fun _ => id,fun _ => Or.inl⟩
  undisputed _ _ _ := Iff.rfl
  left _ := Or.inl

theorem finish (awake : Awake os base event queue ran machine) (fewer : ∀ task ∈ queue', task ∈ queue)
    (more : ∀ entry ∈ ran, entry ∈ ran') (new : ∀ entry ∈ ran', entry ∈ ran ∨ entry.1 = pid)
    (due : ∀ entry ∈ ran', Due os base event entry.1 entry.2)
    (own : pid ∈ machine.toRun → ∃ cmd, (pid,cmd) ∈ ran') (ready : pid ∈ machine.toRun ∨ pid ∈ machine.running)
    (ended : Over os base event pid) (finishes : machine.Finishes pid status tasks after)
    (lined : after.Lined (queue' ++ tasks)) : Awake os base event (queue' ++ tasks) ran' after where
  inv := finishes.inv awake.inv ready
  lined := lined
  queued := by
    intro waiter cmd member
    rcases List.mem_append.mp member with old | new
    · exact awake.queued waiter cmd (fewer _ old)
    · obtain ⟨other,released⟩ := (finishes.mem_tasks awake.inv _).mp new
      obtain ⟨waiting,found,shape⟩ := Machine.released_start released
      obtain ⟨rfl,rfl⟩ := Task.start.inj shape
      obtain ⟨before,waits,same,_,kept⟩ := awake.waiting waiter waiting found
      rw [same]
      apply Due.released waiter before waits
      intro other listed
      rcases kept other listed with left | ended'
      · by_cases self : other = pid
        · exact self ▸ ended
        · rcases finishes.waiter found with ⟨_,waits⟩ | ⟨last,_⟩
          · rw [finishes.gone released] at waits
            cases waits
          · have absent := (FiniteMap.len_eq_zero _).mp last other
            rw [Finmap.lookup_erase_ne self] at absent
            exact absurd left (Finmap.lookup_eq_none.mp absent)
      · exact ended'
  due := due
  started := by
    intro entry member
    by_cases self : entry.1 = pid
    · exact Or.inr (self ▸ finishes.done)
    · rcases awake.started entry ((new entry member).resolve_right self) with running | finished
      · rw [finishes.running]
        exact Or.inl (Finmap.mem_erase.mpr ⟨self,running⟩)
      · exact Or.inr (finishes.kept finished)
  waiting := by
    intro waiter waiting found
    obtain ⟨middle,old,cmd,conditions,_⟩ := finishes.waiting found
    obtain ⟨before,waits,same,less,kept⟩ := awake.waiting waiter middle old
    refine ⟨before,waits,cmd.trans same,?_,?_⟩
    · intro other listed
      rw [conditions] at listed
      exact less other (Finmap.mem_erase.mp listed).2
    · intro other listed
      rcases kept other listed with left | past
      · by_cases self : other = pid
        · exact Or.inr (self ▸ ended)
        · exact Or.inl (by rw [conditions]; exact Finmap.mem_erase.mpr ⟨self,left⟩)
      · exact Or.inr past
  undisputed := by
    intro other unfinished status
    have different : other ≠ pid := fun same => unfinished (same ▸ finishes.done)
    rw [finishes.undisputed_iff different]
    exact awake.undisputed other (fun member => unfinished (finishes.kept member)) status
  left := by
    intro waiter waits
    rcases awake.left waiter waits with still | toRun | ⟨cmd,member⟩
    · obtain ⟨waiting,found⟩ := Finmap.mem_iff.mp still
      rcases finishes.waiter found with ⟨_,waits⟩ | ⟨last,_⟩
      · exact Or.inl (FiniteMap.mem_of_lookup waits)
      · exact Or.inr (Or.inl ((finishes.toRun waiter).mpr (Or.inr (by simp [Machine.released,found,last]))))
    · by_cases self : waiter = pid
      · subst self
        exact Or.inr (Or.inr (own toRun))
      · exact Or.inr (Or.inl ((finishes.toRun waiter).mpr (Or.inl ⟨toRun,self⟩)))
    · exact Or.inr (Or.inr ⟨cmd,more _ member⟩)

theorem step {task : Task ProcessId RunCmd} (awake : Awake os base event (task :: queue) ran exec.machine)
    (ok : processTask os task exec = .ok (.ok tasks,next)) :
    ∃ cmd, task = .start task.pid cmd ∧ task.pid ∈ exec.machine.toRun ∧
      Awake os base event (queue ++ tasks) (ran ++ [(task.pid,cmd)]) next.machine := by
  obtain ⟨cmd,shape,toRun⟩ := awake.lined.starts task (List.mem_cons_self ..)
  have due : Due os base event task.pid cmd := awake.queued _ _ (shape ▸ List.mem_cons_self ..)
  have lined := (processTask_deals ok).lined awake.inv awake.lined
  have all : ∀ entry ∈ ran ++ [(task.pid,cmd)], Due os base event entry.1 entry.2 := by
    intro entry member
    rcases List.mem_append.mp member with old | new
    · exact awake.due entry old
    · rw [List.mem_singleton.mp new]
      exact due
  have new : ∀ entry ∈ ran ++ [(task.pid,cmd)], entry ∈ ran ∨ entry.1 = task.pid := by
    intro entry member
    exact (List.mem_append.mp member).imp_right fun last => congrArg Prod.fst (List.mem_singleton.mp last)
  have listed : (task.pid,cmd) ∈ ran ++ [(task.pid,cmd)] := List.mem_append_right _ (List.mem_singleton_self _)
  refine ⟨cmd,shape,toRun,?_⟩
  have ends {machine} {status : ExitStatus} (ended : Over os base event task.pid)
      (finishes : exec.machine.Finishes task.pid status tasks machine) (same : next.machine = machine) :
      Awake os base event (queue ++ tasks) (ran ++ [(task.pid,cmd)]) next.machine := by
    subst same
    exact awake.finish (fun _ => List.mem_cons_of_mem _) (fun _ => List.mem_append_left _) new all
      (fun _ => ⟨cmd,listed⟩) (Or.inl toRun) ended finishes lined
  rw [shape] at ok
  generalize task.pid = pid at *
  cases processTask_cases ok with
  | started _ _ state middle ran' quiet toRun =>
    refine ⟨awake.inv.started state toRun,lined,?_,all,?_,awake.waiting,awake.undisputed,?_⟩
    · intro waiter cmd member
      rw [List.append_nil] at member
      exact awake.queued waiter cmd (List.mem_cons_of_mem _ member)
    · intro entry member
      rcases new entry member with old | self
      · exact (awake.started entry old).imp_left fun running => Finmap.mem_insert.mpr (Or.inr running)
      · exact Or.inl (Finmap.mem_insert.mpr (Or.inl self))
    · intro waiter waits
      rcases awake.left waiter waits with still | toRun | ⟨cmd',member⟩
      · exact Or.inl still
      · by_cases self : waiter = pid
        · exact Or.inr (Or.inr ⟨cmd,self ▸ listed⟩)
        · exact Or.inr (Or.inl (Finset.mem_erase.mpr ⟨self,toRun⟩))
      · exact Or.inr (Or.inr ⟨cmd',List.mem_append_left _ member⟩)
  | done _ _ exitCode middle tasks machine ran' quiet completed =>
    obtain ⟨_,_,finishes⟩ := awake.inv.startCompleted_cases completed
    exact ends (run_over (run_cases ran') due (by nofun)) finishes rfl
  | failed _ _ e middle tasks machine after ran' quiet completed closed silent =>
    obtain ⟨_,_,finishes⟩ := awake.inv.startCompleted_cases completed
    exact ends (run_over (run_cases ran') due (by nofun)) finishes silent.machine

end Awake

/-- The ends that are free are those that were free before the event and that no command started
since has taken. -/
structure Spent (os : Os) (base : ExecInternal) (ran : List (ProcessId × RunCmd)) (exec : ExecInternal) : Prop where
  reads : ∀ pipe, ReadFree os exec.openHandles pipe ↔
    ReadFree os base.openHandles pipe ∧ ∀ entry ∈ ran, ¬TakesInput entry.2 pipe
  spared : ∀ pipe, WriteFree os base.openHandles pipe → (∀ entry ∈ ran, ¬TakesOutput os entry.1 entry.2 pipe) →
    WriteFree os exec.openHandles pipe
  untaken : Os.Even os → ∀ pipe, WriteFree os exec.openHandles pipe →
    WriteFree os base.openHandles pipe ∧ ∀ entry ∈ ran, ¬TakesOutput os entry.1 entry.2 pipe

namespace Spent

theorem begins : Spent os base [] base where
  reads _ := by simp
  spared _ free _ := free
  untaken _ _ free := ⟨free,by simp⟩

theorem step (spent : Spent os base ran exec) (ok : processTask os (.start pid cmd) exec = .ok (.ok tasks,next)) :
    Spent os base (ran ++ [(pid,cmd)]) next := by
  obtain ⟨reads,writes⟩ := processTask_frees ok
  constructor
  · intro pipe
    rw [reads,spent.reads,and_assoc]
    simp [or_imp,forall_and]
  · intro pipe free untaken
    refine (writes pipe).mpr ⟨spent.spared pipe free fun entry member =>
      untaken entry (List.mem_append_left _ member),?_⟩
    intro taken
    apply untaken (pid,cmd) (List.mem_append_right _ (List.mem_singleton_self _))
    exact ⟨fun path edit => unasked_fails (taken.1 path edit),taken.2⟩
  · intro even pipe free
    obtain ⟨free,kept⟩ := (writes pipe).mp free
    obtain ⟨before,untaken⟩ := spent.untaken even pipe free
    refine ⟨before,fun entry member => ?_⟩
    rcases List.mem_append.mp member with old | new
    · exact untaken entry old
    · rw [List.mem_singleton.mp new]
      exact fun taken => kept ⟨fun path edit => even.unasked (taken.1 path edit),taken.2⟩

variable (spent : Spent os base ran exec)
include spent

/-- A command that is prepared and shares no end with those before it can be started. -/
theorem startable (prepared : Prepared os base pid cmd) (apart : ∀ entry ∈ ran, Apart os entry (pid,cmd))
    (undisputed : ∀ status, base.machine.Undisputed pid status → exec.machine.Undisputed pid status) :
    Startable os exec pid cmd := by
  have outputs (fails : ∀ path, cmd.cmd = .edit path → EditFails os pid path)
      (free : OutputsFree os base.openHandles cmd.pipes) : OutputsFree os exec.openHandles cmd.pipes := by
    obtain ⟨stdout,stderr,different⟩ := free
    have still (pipe : WritePipe) (own : pipe = cmd.pipes.stdout ∨ pipe = cmd.pipes.stderr)
        (free : WriteFree os base.openHandles pipe) : WriteFree os exec.openHandles pipe :=
      spent.spared pipe free fun entry member taken => (apart entry member).outputs pipe taken ⟨fails,own⟩
    exact ⟨still _ (Or.inl rfl) stdout,still _ (Or.inr rfl) stderr,different⟩
  have reportable {status : ExitStatus} {code : Int} (before : Reportable os base pid status code) :
      Reportable os exec pid status code := ⟨undisputed status before.undisputed,before.sent⟩
  obtain ⟨command,pipes⟩ := cmd
  cases command with
  | unknown path args =>
    obtain ⟨stdin,free,spawns⟩ := prepared
    refine ⟨(spent.reads _).mpr ⟨stdin,fun entry member taken => ?_⟩,outputs nofun free,spawns⟩
    exact (apart entry member).inputs _ taken rfl
  | setDirectory dir => exact ⟨outputs nofun prepared.1,reportable prepared.2⟩
  | getDirectory => exact ⟨outputs nofun prepared.1,reportable prepared.2⟩
  | edit path =>
    intro unasked
    have fails : EditFails os pid path := unasked_fails unasked
    obtain ⟨free,before⟩ := prepared fails
    refine ⟨outputs (fun other same => ?_) free,reportable before⟩
    obtain rfl := Command.edit.inj same
    exact fails

theorem prepared (even : Os.Even os) (startable : Startable os exec pid cmd)
    (undisputed : ∀ status, exec.machine.Undisputed pid status → base.machine.Undisputed pid status) :
    Prepared os base pid cmd ∧ ∀ entry ∈ ran, Apart os entry (pid,cmd) := by
  have outputs (free : OutputsFree os exec.openHandles cmd.pipes) : OutputsFree os base.openHandles cmd.pipes ∧
      ∀ entry ∈ ran, ∀ pipe, TakesOutput os entry.1 entry.2 pipe →
      ¬(pipe = cmd.pipes.stdout ∨ pipe = cmd.pipes.stderr) := by
    obtain ⟨stdout,stderr,different⟩ := free
    obtain ⟨stdout,untaken⟩ := spent.untaken even _ stdout
    obtain ⟨stderr,untaken'⟩ := spent.untaken even _ stderr
    refine ⟨⟨stdout,stderr,different⟩,fun entry member pipe taken own => ?_⟩
    rcases own with rfl | rfl
    · exact untaken entry member taken
    · exact untaken' entry member taken
  have reportable {status : ExitStatus} {code : Int} (after : Reportable os exec pid status code) :
      Reportable os base pid status code := ⟨undisputed status after.undisputed,after.sent⟩
  obtain ⟨command,pipes⟩ := cmd
  cases command with
  | unknown path args =>
    obtain ⟨stdin,free,spawns⟩ := startable
    obtain ⟨stdin,untaken⟩ := (spent.reads _).mp stdin
    obtain ⟨free,others⟩ := outputs free
    refine ⟨⟨stdin,free,spawns⟩,fun entry member => .of_pipes ?_ (others entry member)⟩
    rintro pipe taken rfl
    exact untaken entry member taken
  | setDirectory dir =>
    obtain ⟨free,others⟩ := outputs startable.1
    exact ⟨⟨free,reportable startable.2⟩,fun entry member => .of_pipes (fun _ _ => id) (others entry member)⟩
  | getDirectory =>
    obtain ⟨free,others⟩ := outputs startable.1
    exact ⟨⟨free,reportable startable.2⟩,fun entry member => .of_pipes (fun _ _ => id) (others entry member)⟩
  | edit path =>
    constructor
    · intro fails
      obtain ⟨free,after⟩ := startable (even.unasked fails)
      exact ⟨(outputs free).1,reportable after⟩
    · intro entry member
      refine ⟨fun _ _ => id,fun pipe taken own => ?_⟩
      obtain ⟨free,_⟩ := startable (even.unasked (own.1 path rfl))
      exact (outputs free).2 entry member pipe taken own.2

end Spent

/-- All commands that the event starts are prepared, and no two share an end. -/
structure AllPrepared (os : Os) (base : ExecInternal) (event : ExecEvent) : Prop where
  prepared : ∀ pid cmd, Due os base event pid cmd → Prepared os base pid cmd
  apart : ∀ pid cmd pid' cmd', Due os base event pid cmd → Due os base event pid' cmd' → pid ≠ pid' →
    Apart os (pid,cmd) (pid',cmd')

/-- Every command that the tasks start, one after the other, can be started when its turn comes. -/
def StartsAll (os : Os) (tasks : List (Task ProcessId RunCmd)) (start : ExecInternal) : Prop :=
  ∀ pid cmd rest middle, Reaches (processTask os) tasks start (.start pid cmd :: rest) middle →
    Startable os middle pid cmd

theorem reaches_lined (inv : Machine.Inv base.machine) (lined : base.machine.Lined tasks)
    (reaches : Reaches (processTask os) tasks base queue next) :
    Machine.Inv next.machine ∧ next.machine.Lined queue := by
  induction reaches with
  | start => exact ⟨inv,lined⟩
  | step before dealt ih => exact ⟨processTask_inv ih.1 dealt,(processTask_deals dealt).lined ih.1 ih.2⟩

theorem processTasks_startsAll (inv : Machine.Inv base.machine) (lined : base.machine.Lined tasks) :
    (∃ next, processTasks os tasks base = .ok (.ok (),next)) ↔ StartsAll os tasks base := by
  rw [processTasks_returns_iff]
  constructor
  · intro dealt pid cmd rest middle reaches
    obtain ⟨inv,lined⟩ := reaches_lined inv lined reaches
    obtain ⟨_,_,toRun⟩ := lined.starts _ (List.mem_cons_self ..)
    exact (startable_iff inv toRun).mp (dealt _ _ _ reaches)
  · intro starts task rest middle reaches
    obtain ⟨inv,lined⟩ := reaches_lined inv lined reaches
    obtain ⟨cmd,shape,toRun⟩ := lined.starts _ (List.mem_cons_self ..)
    rw [shape] at reaches ⊢
    exact (startable_iff inv toRun).mpr (starts _ _ _ _ reaches)

section All
variable {start : ExecInternal} (awake : Awake os base event tasks [] start.machine)
  (handles : start.openHandles = base.openHandles)
include awake handles

omit awake in
theorem spent_start : Spent os base [] start := by
  have spent : Spent os base [] base := .begins
  constructor
  · rw [handles]
    exact spent.reads
  · rw [handles]
    exact spent.spared
  · rw [handles]
    exact spent.untaken

theorem AllPrepared.startsAll (all : AllPrepared os base event) : StartsAll os tasks start := by
  have reached (queue last) (reaches : Reaches (processTask os) tasks start queue last) :
      ∃ ran, Awake os base event queue ran last.machine ∧ Spent os base ran last := by
    induction reaches with
    | start => exact ⟨[],awake,spent_start handles⟩
    | @step task _ _ _ _ before dealt ih =>
      obtain ⟨ran,awake,spent⟩ := ih
      obtain ⟨cmd,shape,_,after⟩ := awake.step dealt
      rw [shape] at dealt
      exact ⟨_,after,spent.step dealt⟩
  intro pid cmd rest middle reaches
  obtain ⟨ran,awake,spent⟩ := reached _ _ reaches
  obtain ⟨_,_,toRun⟩ := awake.lined.starts _ (List.mem_cons_self ..)
  have due : Due os base event pid cmd := awake.queued pid cmd (List.mem_cons_self ..)
  have unfinished : pid ∉ middle.machine.finished :=
    fun finished => awake.inv.finished_apart pid finished (Or.inl toRun)
  refine spent.startable (all.prepared pid cmd due) ?_ fun status => (awake.undisputed pid unfinished status).mpr
  intro entry member
  refine all.apart entry.1 entry.2 pid cmd (awake.due entry member) due ?_
  rintro rfl
  exact (awake.started entry member).elim (awake.inv.toRun_apart _ toRun).1 unfinished

end All

/-- What the commands that have been started show of the state before the event. -/
structure Checked (os : Os) (base : ExecInternal) (event : ExecEvent) (queue : List (Task ProcessId RunCmd))
    (ran : List (ProcessId × RunCmd)) (exec : ExecInternal) : Prop where
  awake : Awake os base event queue ran exec.machine
  spent : Spent os base ran exec
  prepared : ∀ entry ∈ ran, Prepared os base entry.1 entry.2
  apart : ran.Pairwise (Apart os)
  ended : ∀ entry ∈ ran, EndsAtOnce os entry.1 entry.2.cmd → entry.1 ∈ exec.machine.finished

theorem started_goes {state : ProcessState} {middle : ExecInternal} (even : Os.Even os)
    (ran : run os pid cmd exec = .ok (.ok (.process state),middle)) : ¬EndsAtOnce os pid cmd.cmd := by
  obtain ⟨command,pipes⟩ := cmd
  cases run_cases ran with
  | spawned path args child spawn =>
    rintro ⟨e,fails⟩
    rw [spawn] at fails
    cases fails
  | editing path =>
    intro fails
    obtain ⟨_,_,same,_,_,unasked⟩ := @run_edit os exec pid path pipes
    obtain ⟨e,shape⟩ := unasked (even.unasked fails)
    obtain ⟨rfl,_⟩ := Prod.mk.inj (Except.ok.inj (ran.symm.trans same))
    cases shape

theorem Checked.step (even : Os.Even os) {task : Task ProcessId RunCmd}
    (checked : Checked os base event (task :: queue) ran exec) (ok : processTask os task exec = .ok (.ok tasks,next)) :
    ∃ ran, Checked os base event (queue ++ tasks) ran next := by
  obtain ⟨awake,spent,prepared,apart,ended⟩ := checked
  obtain ⟨cmd,shape,toRun,later⟩ := awake.step ok
  have deals := processTask_deals ok
  rw [shape] at ok
  generalize task.pid = pid at *
  have unfinished : pid ∉ exec.machine.finished := fun finished => awake.inv.finished_apart pid finished (Or.inl toRun)
  have startable : Startable os exec pid cmd := (startable_iff awake.inv toRun).mp ⟨_,_,ok⟩
  obtain ⟨ready,others⟩ := spent.prepared even startable fun status => (awake.undisputed pid unfinished status).mp
  refine ⟨_,later,spent.step ok,?_,?_,?_⟩
  · intro entry member
    rcases List.mem_append.mp member with old | new
    · exact prepared entry old
    · rw [List.mem_singleton.mp new]
      exact ready
  · refine List.pairwise_append.mpr ⟨apart,List.pairwise_singleton _ _,fun entry member last listed => ?_⟩
    rw [List.mem_singleton.mp listed]
    exact others entry member
  · intro entry member ends
    rcases List.mem_append.mp member with old | new
    · obtain ⟨status,found⟩ := Finmap.mem_iff.mp (ended entry old ends)
      exact FiniteMap.mem_of_lookup (deals.finished awake.inv found)
    · rw [List.mem_singleton.mp new] at ends ⊢
      cases processTask_cases ok with
      | started _ _ state middle ran' => exact absurd ends (started_goes even ran')
      | done _ _ exitCode middle tasks machine ran' quiet completed =>
        exact (awake.inv.startCompleted_cases completed).2.2.done
      | failed _ _ e middle tasks machine after ran' quiet completed closed silent =>
        have finished := (awake.inv.startCompleted_cases completed).2.2.done
        rwa [← show (report after pid 1).machine = machine from silent.machine] at finished

/-- Once no task is left, every command that the event starts has been started. -/
theorem Checked.all (checked : Checked os base event [] ran exec) (none : exec.machine.toRun = ∅)
    (completed : ∀ pid, Completes base event pid → pid ∈ exec.machine.finished)
    (answers : ∀ pid cmd blockFor, event ≠ .enqueue pid cmd blockFor) : AllPrepared os base event := by
  obtain ⟨awake,spent,prepared,apart,ended⟩ := checked
  have listed {pid : ProcessId} {cmd : RunCmd} (due : Due os base event pid cmd) : (pid,cmd) ∈ ran := by
    refine @Due.rec os base event (fun pid cmd _ => (pid,cmd) ∈ ran) (fun pid _ => pid ∈ exec.machine.finished)
      ?_ ?_ ?_ ?_ pid cmd due
    · exact fun pid cmd blockFor arrives => absurd arrives (answers pid cmd blockFor)
    · intro waiter before waits met finished
      rcases awake.left waiter (FiniteMap.mem_of_lookup waits) with still | toRun | ⟨cmd,member⟩
      · obtain ⟨waiting,found⟩ := Finmap.mem_iff.mp still
        obtain ⟨before',waits',_,less,_⟩ := awake.waiting waiter waiting found
        obtain rfl := Option.some.inj (waits.symm.trans waits')
        refine absurd ((FiniteMap.len_eq_zero _).mpr fun other => ?_) (awake.inv.pending waiter waiting found)
        by_contra some
        obtain ⟨cond,condition⟩ := Option.ne_none_iff_exists'.mp some
        refine awake.inv.finished_apart other (finished other (less other (FiniteMap.mem_of_lookup condition))) ?_
        exact awake.inv.unfinished waiter waiting other cond found condition
      · rw [none] at toRun
        exact absurd toRun (Finset.notMem_empty _)
      · have due : Due os base event waiter cmd := awake.due _ member
        cases due with
        | enqueued _ _ blockFor arrives => exact absurd arrives (answers _ _ _)
        | released _ waiting waits' =>
          obtain rfl := Option.some.inj (waits.symm.trans waits')
          exact member
    · exact fun pid completes => completed pid completes
    · exact fun pid cmd due ends member => ended _ member ends
  refine ⟨fun pid cmd due => prepared _ (listed due),fun pid cmd pid' cmd' due due' different => ?_⟩
  exact apart.forall (listed due) (listed due') fun same => different (congrArg Prod.fst same)

end Nak.ExecInternal
