import Nak.ExecAnswers
import Nak.ExecTaken

/-! Who holds the ends of the pipes. Where no end is meant for two, a command that is run
finds its own in place, so an event loop whose system calls succeed never panics. -/
namespace Nak
open Library Action

namespace Machine
variable {Id Cmd State : Type} [DecidableEq Id] {machine next : Machine Id Cmd State} {pid other : Id}

/-- No command that waits minds how another ends. -/
def Unconditional (machine : Machine Id Cmd State) : Prop :=
  ∀ waiter waiting pid cond, machine.waitingOn.lookup waiter = some waiting →
    waiting.conditions.lookup pid = some cond → cond = none

theorem Unconditional.undisputed (unconditional : machine.Unconditional) (pid : Id) (status : ExitStatus) :
    machine.Undisputed pid status := by
  intro waiter waiting cond found listed
  obtain rfl := unconditional waiter waiting pid cond found listed
  exact id

theorem Finishes.unconditional {status : ExitStatus} {tasks : List (Task Id Cmd)}
    (finishes : Finishes machine pid status tasks next) (unconditional : machine.Unconditional) :
    next.Unconditional := by
  intro waiter waiting other cond found listed
  obtain ⟨before,old,_,left,_⟩ := finishes.waiting found
  rw [left,FiniteMap.lookup_erase_if] at listed
  split at listed
  · cases listed
  · exact unconditional waiter before other cond old listed

theorem Blocked.unconditional {cmd : Cmd} {blockFor : OrderedMap Id Condition}
    (after : Blocked machine pid cmd blockFor next) (unconditional : machine.Unconditional)
    (trusting : ∀ entry ∈ blockFor.entries, entry.2 = none) : next.Unconditional := by
  intro waiter waiting other cond found listed
  obtain ⟨conditions,same,lookup⟩ := after.lookup waiter
  rw [lookup] at found
  split at found
  · obtain rfl := Option.some.inj found
    rw [same,residual] at listed
    split at listed
    · cases listed
    · exact trusting ⟨other,cond⟩ (AList.mem_lookup_iff.mp listed)
  · exact unconditional waiter waiting other cond found listed

def HasRun (machine : Machine Id Cmd State) (pid : Id) : Prop := pid ∈ machine.running ∨ pid ∈ machine.finished

theorem Inv.not_hasRun (inv : Inv machine) (toRun : pid ∈ machine.toRun) : ¬machine.HasRun pid := by
  intro ran
  rcases ran with running | finished
  · exact (inv.toRun_apart pid toRun).1 running
  · exact inv.finished_apart pid finished (Or.inl toRun)

theorem Finishes.hasRun {status : ExitStatus} {tasks : List (Task Id Cmd)}
    (finishes : Finishes machine pid status tasks next) : next.HasRun other ↔ machine.HasRun other ∨ other = pid := by
  simp only [HasRun,finishes.running,finishes.finished,Finmap.mem_erase,Finmap.mem_insert]
  tauto

theorem hasRun_started {state : State} : HasRun { machine with
    toRun := machine.toRun.erase pid
    running := machine.running.insert pid state } other ↔ machine.HasRun other ∨ other = pid := by
  simp only [HasRun,Finmap.mem_insert]
  tauto

/-- What a pid does to the others when it starts or finishes: whoever is started now has waited. -/
structure Advances (machine : Machine Id Cmd State) (pid : Id) (tasks : List (Task Id Cmd))
    (next : Machine Id Cmd State) : Prop where
  inv : Inv next
  unconditional : machine.Unconditional → next.Unconditional
  known : ∀ other, next.Known other ↔ machine.Known other
  waiting : ∀ waiter waiting, next.waitingOn.lookup waiter = some waiting →
    ∃ before, machine.waitingOn.lookup waiter = some before ∧ waiting.cmd = before.cmd
  released : ∀ waiter cmd, .start waiter cmd ∈ tasks →
    ∃ before, machine.waitingOn.lookup waiter = some before ∧ cmd = before.cmd
  hasRun : ∀ other, next.HasRun other ↔ machine.HasRun other ∨ other = pid

theorem Finishes.advances {status : ExitStatus} {tasks : List (Task Id Cmd)}
    (finishes : Finishes machine pid status tasks next) (inv : Inv machine)
    (ready : pid ∈ machine.toRun ∨ pid ∈ machine.running) : Advances machine pid tasks next where
  inv := finishes.inv inv ready
  unconditional := finishes.unconditional
  known other := by
    refine ⟨fun known => ?_,finishes.known⟩
    rcases known with finished | toRun | running | waiting
    · rw [finishes.finished,Finmap.mem_insert] at finished
      rcases finished with rfl | old
      · exact Or.inr (ready.imp id Or.inl)
      · exact Or.inl old
    · rcases (finishes.toRun other).mp toRun with ⟨old,_⟩ | released
      · exact Or.inr (Or.inl old)
      · obtain ⟨task,released⟩ := Option.isSome_iff_exists.mp released
        obtain ⟨before,found,_⟩ := released_start released
        exact Or.inr (Or.inr (Or.inr (FiniteMap.mem_of_lookup found)))
    · rw [finishes.running] at running
      exact Or.inr (Or.inr (Or.inl (Finmap.mem_erase.mp running).2))
    · obtain ⟨waiting,found⟩ := Finmap.mem_iff.mp waiting
      obtain ⟨before,old,_⟩ := finishes.waiting found
      exact Or.inr (Or.inr (Or.inr (FiniteMap.mem_of_lookup old)))
  waiting waiter waiting found := by
    obtain ⟨before,old,same,_⟩ := finishes.waiting found
    exact ⟨before,old,same⟩
  released waiter cmd member := by
    obtain ⟨other,before,found,shape,_⟩ := finishes.task_starts inv member
    obtain ⟨rfl,rfl⟩ := Task.start.inj shape
    exact ⟨before,found,rfl⟩
  hasRun other := finishes.hasRun

theorem Deals.advances {cmd : Cmd} {tasks : List (Task Id Cmd)} (deals : machine.Deals (.start pid cmd) tasks next)
    (inv : Inv machine) : Advances machine pid tasks next := by
  cases deals with
  | called _ _ call _ _ takes called =>
    have cases := inv.call_cases called
    have after := cases.inv inv
    cases cases with
    | enqueue => cases takes
    | start other state toRun =>
      obtain rfl := Option.some.inj takes
      refine ⟨after,id,fun waiter => ?_,fun waiter waiting found => ⟨waiting,found,rfl⟩,by simp,fun waiter =>
        hasRun_started⟩
      simp only [Known,Unfinished,Finset.mem_erase,Finmap.mem_insert]
      by_cases same : waiter = other
      · subst same
        simp [toRun]
      · simp [same]
    | startCompleted other status tasks next toRun undisputed finishes =>
      obtain rfl := Option.some.inj takes
      exact finishes.advances inv (Or.inl toRun)
    | completed => cases takes

end Machine

namespace ExecInternal
variable {os : Os} {exec next start : ExecInternal} {pid : ProcessId} {pipe : GenericPipe}

/-- The read end of the pipe has been handed out, or there is none as with a file to write to. -/
def ReadTaken (handles : Handles) (pipe : GenericPipe) : Prop := ∃ write, handles.lookup pipe = some ⟨none,write⟩

def KeepsReads (exec next : ExecInternal) : Prop :=
  ∀ pipe, ReadTaken next.openHandles pipe → ReadTaken exec.openHandles pipe

theorem KeepsReads.same (same : next.openHandles = exec.openHandles) : KeepsReads exec next := by
  intro pipe taken
  rwa [← same]

instance : IsPreorder ExecInternal KeepsReads where
  refl _ _ := id
  trans _ _ _ first second pipe taken := first pipe (second pipe taken)

theorem ReadTaken.inserted {handles : Handles} {other : GenericPipe} {pair : Pair}
    (taken : ReadTaken (handles.insert other pair) pipe) : ReadTaken handles pipe ∨ pipe = other ∧
    pair.read = none := by
  obtain ⟨write,found⟩ := taken
  rw [FiniteMap.lookup_insert_if] at found
  split at found
  · rename_i same
    exact Or.inr ⟨same,congrArg Pair.read (Option.some.inj found)⟩
  · exact Or.inl ⟨write,found⟩

section Reads
variable (os)

theorem writeEnd_reads (pipe : WritePipe) : Keeps KeepsReads (writeEnd os pipe) where
  after := by
    intro exec value next ok other taken
    cases value with
    | error e => exact absurd ok (writeEnd_errorless os pipe).never
    | ok handle =>
      rcases writeEnd_cases ok with ⟨read,found,rfl⟩ | ⟨_,_,rfl⟩
      · rcases taken.inserted with old | ⟨rfl,gone⟩
        · exact old
        · obtain rfl : read = none := gone
          exact ⟨_,found⟩
      · rcases taken.inserted with old | ⟨_,gone⟩
        · exact old
        · cases gone

theorem cause_reads (effect : Effect) : Keeps KeepsReads (cause effect) := Keeps.modify _ fun _ => .same rfl

theorem pipeAndClose_reads (pipe : WritePipe) (handle : OutputPipe) (data : Bytes) :
    Keeps KeepsReads (pipeAndClose pipe handle data) := by
  unfold pipeAndClose
  split
  · exact cause_reads _
  · exact cause_reads _

theorem pipeOutputAndClose_reads (pipes : WritePipes) (stdout stderr : Bytes) :
    Keeps KeepsReads (pipeOutputAndClose os pipes stdout stderr) := by
  apply Keeps.bind (writeEnd_reads os _)
  intro handle
  apply Keeps.bind (pipeAndClose_reads _ _ _)
  intro _
  apply Keeps.bind (writeEnd_reads os _)
  intro handle
  exact pipeAndClose_reads _ _ _

theorem readContents_reads (pid : ProcessId) : Keeps KeepsReads (readContents os pid) := by
  rw [readContents_eq]
  exact Keeps.propagate _

theorem beginEditRequest_reads (pid : ProcessId) (path : String) (data : Bytes) :
    Keeps KeepsReads (beginEditRequest os pid path data) := by
  apply Keeps.bind Keeps.get
  intro exec
  apply Keeps.bind (Keeps.modify _ fun _ => .same rfl)
  intro _
  exact Keeps.bind (Keeps.propagate _) fun _ => cause_reads _

end Reads

theorem readEnd_reads {input : ReadPipe} {handle : InputPipe} (ok : readEnd os input exec = .ok (.ok handle,next))
    (taken : ReadTaken next.openHandles pipe) : ReadTaken exec.openHandles pipe ∨ pipe = input.toGeneric := by
  rcases readEnd_cases ok with ⟨write,found,rfl⟩ | ⟨absent,_,rfl⟩
  · exact taken.inserted.imp_right And.left
  · exact taken.inserted.imp_right And.left

theorem run_reads {c : RunCmd} {result : Except Error RunResult} (ok : run os pid c exec = .ok (result,next))
    (taken : ReadTaken next.openHandles pipe) : ReadTaken exec.openHandles pipe ∨ c.pipes.input pipe := by
  obtain ⟨cmd,pipes⟩ := c
  obtain ⟨_,began,caused,ok⟩ := (cause_errorless _).continues ok
  have same : KeepsReads exec began := (cause_reads _).after caused
  have closing (code : Int) (stdout stderr : Bytes) : Keeps KeepsReads
      (do pipeOutputAndClose os pipes stdout stderr; pure (.alreadyDone code) : Exec RunResult) :=
    Keeps.bind (pipeOutputAndClose_reads os _ _ _) fun _ => Keeps.pure _
  have spared {act : Exec RunResult} (keeps : Keeps KeepsReads act) (ok : act began = .ok (result,next)) :
      ReadTaken exec.openHandles pipe ∨ pipes.input pipe := Or.inl (same pipe (keeps.after ok pipe taken))
  cases cmd with
  | unknown path args =>
    obtain ⟨stdin,middle,first,ok⟩ := (readEnd_errorless os _).continues ok
    have rest : Keeps KeepsReads (do
        let stdout ← writeEnd os pipes.stdout
        let stderr ← writeEnd os pipes.stderr
        let handle ← .propagate (os.spawn pid)
        cause (.spawned pid handle path args stdin stdout stderr)
        pure (.process (.running handle)) : Exec RunResult) :=
      Keeps.bind (writeEnd_reads os _) fun _ => Keeps.bind (writeEnd_reads os _) fun _ =>
        Keeps.bind (Keeps.propagate _) fun _ => Keeps.bind (cause_reads _) fun _ => Keeps.pure _
    rcases readEnd_reads first (rest.after ok pipe taken) with old | own
    · exact Or.inl (same pipe old)
    · exact Or.inr own
  | setDirectory dir =>
    refine spared ?_ ok
    cases os.setCurrentDir pid with
    | ok => exact Keeps.bind (cause_reads _) fun _ => closing _ _ _
    | error e => exact closing _ _ _
  | getDirectory =>
    refine spared ?_ ok
    cases os.currentDir pid with
    | ok dir => exact closing _ _ _
    | error e => exact closing _ _ _
  | edit path =>
    refine spared ?_ ok
    exact Keeps.bind (readContents_reads os pid) fun _ => Keeps.bind (beginEditRequest_reads os _ _ _) fun _ =>
      Keeps.pure _

def Piped (handles : Handles) : Prop :=
  ∀ pipe handle write, handles.lookup pipe = some ⟨some handle,write⟩ → handle.handle.id? = some pipe

theorem Piped.insert {handles : Handles} {pair : Pair} (piped : Piped handles)
    (new : ∀ handle, pair.read = some handle → handle.handle.id? = some pipe) : Piped (handles.insert pipe pair) := by
  intro other handle write found
  rw [FiniteMap.lookup_insert_if] at found
  split at found
  · rename_i same
    subst same
    exact new handle (congrArg Pair.read (Option.some.inj found))
  · exact piped other handle write found

def KeepsPiped (exec next : ExecInternal) : Prop := Piped exec.openHandles → Piped next.openHandles

instance : IsPreorder ExecInternal KeepsPiped where
  refl _ := id
  trans _ _ _ first second piped := second (first piped)

theorem readEnd_piped {input : ReadPipe} {handle : InputPipe} (piped : Piped exec.openHandles)
    (ok : readEnd os input exec = .ok (.ok handle,next)) :
    handle.handle.id? = some input.toGeneric ∧ Piped next.openHandles := by
  rcases readEnd_cases ok with ⟨write,found,rfl⟩ | ⟨_,rfl,rfl⟩
  · exact ⟨piped _ _ _ found,piped.insert nofun⟩
  · exact ⟨rfl,piped.insert nofun⟩

theorem piped_frame (os : Os) : Frame os KeepsPiped where
  readEnd pipe := by
    constructor
    intro exec value next ok piped
    cases value with
    | error e => exact absurd ok (readEnd_errorless os pipe).never
    | ok handle => exact (readEnd_piped piped ok).2
  writeEnd pipe := by
    constructor
    intro exec value next ok piped
    cases value with
    | error e => exact absurd ok (writeEnd_errorless os pipe).never
    | ok handle =>
      rcases writeEnd_cases ok with ⟨read,found,rfl⟩ | ⟨_,_,rfl⟩
      · refine piped.insert fun handle held => ?_
        obtain rfl : read = some handle := held
        exact piped _ _ _ found
      · refine piped.insert fun handle held => ?_
        obtain rfl := Option.some.inj held
        rfl
  cause _ _ := Keeps.modify _ fun _ => id
  awaiting _ _ _ := id

/-- The ends that a command has been given, or that `process_tasks` has taken for it. -/
structure Supplied (cmd : RunCmd) (exec next : ExecInternal) : Prop where
  ends : Ends cmd.pipes.input cmd.pipes.output exec.openHandles next.openHandles
  kept : KeepsTaken exec next
  piped : KeepsPiped exec next
  reads : ∀ pipe, ReadTaken next.openHandles pipe → ReadTaken exec.openHandles pipe ∨ cmd.pipes.input pipe
  handed : (∃ path, cmd.cmd = .edit path) ∨ HandsOut next cmd.pipes

theorem run_supplied {cmd : RunCmd} {result : Except Error RunResult} (ok : run os pid cmd exec = .ok (result,next))
    (handed : (∃ path, cmd.cmd = .edit path) ∨ HandsOut next cmd.pipes) : Supplied cmd exec next where
  ends := by
    cases run_ends ok with
    | spawned middle child path args stdin stdout stderr print => exact print.ends
    | childless _ _ print => exact print.ends
  kept := ((taken_frame os).run pid cmd).after ok
  piped := ((piped_frame os).run pid cmd).after ok
  reads _ taken := run_reads ok taken
  handed := handed

theorem processTask_supplied {cmd : RunCmd} {tasks : List (Task ProcessId RunCmd)}
    (ok : processTask os (.start pid cmd) exec = .ok (.ok tasks,next)) : Supplied cmd exec next := by
  cases processTask_cases ok with
  | started _ _ state middle ran quiet toRun =>
    have supplied : Supplied cmd exec middle := by
      refine run_supplied ran ((run_handsOut ran).imp_left fun awaits => ?_)
      rw [awaits] at ran
      obtain ⟨command,pipes⟩ := cmd
      cases run_cases ran with
      | editing path => exact ⟨path,rfl⟩
    exact ⟨supplied.ends,supplied.kept,supplied.piped,supplied.reads,supplied.handed⟩
  | done _ _ exitCode middle tasks machine ran quiet completed =>
    have supplied : Supplied cmd exec middle := run_supplied ran (Or.inr ((run_handsOut ran).resolve_left nofun))
    exact ⟨supplied.ends,supplied.kept,supplied.piped,supplied.reads,supplied.handed⟩
  | failed _ _ e middle tasks machine after ran quiet completed closed silent =>
    have print : Footprint pid cmd.pipes { middle with machine } after := pipeOutputAndClose_footprint closed
    have kept := ((taken_frame os).pipeOutputAndClose _ _ _).after closed
    have same := (pipeOutputAndClose_reads os _ _ _).after closed
    have ends := ((piped_frame os).pipeOutputAndClose _ _ _).after closed
    have began : Ends cmd.pipes.input cmd.pipes.output exec.openHandles middle.openHandles := by
      cases run_ends ran with
      | childless _ _ print => exact print.ends
    constructor
    · exact began.trans print.ends
    · exact fun pipe taken => kept pipe (((taken_frame os).run pid cmd).after ran pipe taken)
    · have first : KeepsPiped exec middle := ((piped_frame os).run pid cmd).after ran
      exact fun piped => ends (first piped)
    · exact fun pipe taken => run_reads ran (same pipe taken)
    · have hands : HandsOut after cmd.pipes := pipeOutputAndClose_handsOut closed
      exact Or.inr hands

/-- No end is meant for two: neither for two commands nor for a command and what else the
event loop is asked to do with a pipe. -/
structure Owners (commands : ProcessId → RunCmd → Prop) (direct : GenericPipe → Prop) : Prop where
  one : ∀ {pid cmd other}, commands pid cmd → commands pid other → other = cmd
  inputs : ∀ {pid pid' cmd cmd' pipe}, commands pid cmd → commands pid' cmd' → cmd.pipes.input pipe →
    cmd'.pipes.input pipe → pid' = pid
  outputs : ∀ {pid pid' cmd cmd' pipe}, commands pid cmd → commands pid' cmd' → cmd.pipes.output pipe →
    cmd'.pipes.output pipe → pid' = pid
  direct : ∀ {pid cmd pipe}, commands pid cmd → cmd.pipes.input pipe → ¬direct pipe
  apart : ∀ {pid cmd}, commands pid cmd → cmd.pipes.stderr ≠ cmd.pipes.stdout

/-- The commands are known, and who was handed an end is its owner and has been run. -/
structure Owned (commands : ProcessId → RunCmd → Prop) (direct : GenericPipe → Prop)
    (queue : List (Task ProcessId RunCmd)) (exec : ExecInternal) : Prop where
  inv : Machine.Inv exec.machine
  lined : exec.machine.Lined queue
  unconditional : exec.machine.Unconditional
  known : ∀ pid, exec.machine.Known pid ↔ ∃ cmd, commands pid cmd
  queued : ∀ pid cmd, .start pid cmd ∈ queue → commands pid cmd
  waiting : ∀ pid waiting, exec.machine.waitingOn.lookup pid = some waiting → commands pid waiting.cmd
  present : ∀ pipe ∈ exec.openHandles, direct pipe ∨ ∃ pid cmd, commands pid cmd ∧
    (cmd.pipes.input pipe ∨ cmd.pipes.output pipe)
  reads : ∀ pipe, ReadTaken exec.openHandles pipe →
    direct pipe ∨ ∃ pid cmd, commands pid cmd ∧ cmd.pipes.input pipe ∧ exec.machine.HasRun pid
  writes : ∀ pipe, Taken exec.openHandles pipe →
    ∃ pid cmd, commands pid cmd ∧ cmd.pipes.output pipe ∧ exec.machine.HasRun pid
  handed : ∀ pid cmd, commands pid cmd → exec.machine.HasRun pid → (∃ path, cmd.cmd = .edit path) ∨
    HandsOut exec cmd.pipes
  piped : Piped exec.openHandles

/-- The system calls succeed that a failure of ends the event loop. -/
structure Os.Works (os : Os) : Prop where
  allocPipe : ∀ pipe, os.allocPipe pipe = .ok ()
  spawn : ∀ pid, ∃ child, os.spawn pid = .ok child
  create : os.create = .ok ()
  writeAll : os.writeAll = .ok ()
  send : ∀ response, os.send response = .ok ()

theorem works_working : Os.Works .working := ⟨fun _ => rfl,fun pid => ⟨⟨pid.val⟩,rfl⟩,rfl,rfl,fun _ => rfl⟩

variable {commands : ProcessId → RunCmd → Prop} {direct : GenericPipe → Prop}
variable {queue tasks : List (Task ProcessId RunCmd)} {task : Task ProcessId RunCmd} {cmd : RunCmd}

theorem owned_new : Owned (fun _ _ => False) (fun _ => False) [] new where
  inv := Machine.inv_new
  lined := ⟨by simp,by simp⟩
  unconditional _ _ _ _ found := by cases found
  known pid := by
    refine iff_of_false ?_ (by simp)
    rintro (finished | toRun | running | waiting)
    · exact Finmap.notMem_empty finished
    · exact Finset.notMem_empty pid toRun
    · exact Finmap.notMem_empty running
    · exact Finmap.notMem_empty waiting
  queued := by simp
  waiting _ _ found := by cases found
  present pipe member := absurd member Finmap.notMem_empty
  reads _ taken := by
    obtain ⟨_,found⟩ := taken
    cases found
  writes _ taken := by
    obtain ⟨_,found⟩ := taken
    cases found
  handed _ _ := False.elim
  piped _ _ _ found := by cases found

theorem readFree_of (works : Os.Works os) {handles : Handles} {input : ReadPipe}
    (free : ¬ReadTaken handles input.toGeneric) :
    ReadFree os handles input := by
  unfold ReadFree
  cases found : handles.lookup input.toGeneric with
  | none => exact works.allocPipe _
  | some pair =>
    obtain ⟨read,write⟩ := pair
    cases read with
    | none => exact absurd ⟨write,found⟩ free
    | some handle => rfl

theorem writeFree_of (works : Os.Works os) {handles : Handles} {output : WritePipe}
    (free : ¬Taken handles output.toGeneric) :
    WriteFree os handles output := by
  unfold WriteFree
  cases found : handles.lookup output.toGeneric with
  | none => exact works.allocPipe _
  | some pair =>
    obtain ⟨read,write⟩ := pair
    cases write with
    | none => exact absurd ⟨read,found⟩ free
    | some handle => rfl

namespace Owned

theorem startable (owned : Owned commands direct (.start pid cmd :: queue) exec) (owners : Owners commands direct)
    (works : Os.Works os) : Startable os exec pid cmd := by
  have own := owned.queued pid cmd (List.mem_cons_self ..)
  obtain ⟨_,_,toRun⟩ := owned.lined.starts _ (List.mem_cons_self ..)
  have unrun := owned.inv.not_hasRun toRun
  have stdin : ReadFree os exec.openHandles cmd.pipes.stdin := by
    refine readFree_of works fun taken => ?_
    rcases owned.reads _ taken with other | ⟨pid',cmd',begun,input,ran⟩
    · exact owners.direct own rfl other
    · exact unrun (owners.inputs own begun rfl input ▸ ran)
  have free (output : WritePipe) (used : cmd.pipes.output output.toGeneric) : WriteFree os exec.openHandles output := by
    refine writeFree_of works fun taken => ?_
    obtain ⟨pid',cmd',begun,output',ran⟩ := owned.writes _ taken
    exact unrun (owners.outputs own begun used output' ▸ ran)
  have outputs : OutputsFree os exec.openHandles cmd.pipes :=
    ⟨free _ (Or.inl rfl),free _ (Or.inr rfl),owners.apart own⟩
  have reportable (status : ExitStatus) (code : Int) : Reportable os exec pid status code :=
    ⟨owned.unconditional.undisputed pid status,works.send _⟩
  obtain ⟨command,pipes⟩ := cmd
  cases command with
  | unknown path args => exact ⟨stdin,outputs,works.spawn pid⟩
  | setDirectory dir => exact ⟨outputs,reportable _ 0⟩
  | getDirectory => exact ⟨outputs,reportable _ 0⟩
  | edit path => exact fun _ => ⟨outputs,reportable _ 1⟩

theorem step (owned : Owned commands direct (task :: queue) exec) (owners : Owners commands direct)
    (ok : processTask os task exec = .ok (.ok tasks,next)) : Owned commands direct (queue ++ tasks) next := by
  obtain ⟨cmd,shape,_⟩ := owned.lined.starts _ (List.mem_cons_self ..)
  have deals := processTask_deals ok
  have lined := deals.lined owned.inv owned.lined
  rw [shape] at ok deals
  have own : commands task.pid cmd := owned.queued _ _ (shape ▸ List.mem_cons_self ..)
  have advances := deals.advances owned.inv
  have supplied := processTask_supplied ok
  have ran : next.machine.HasRun task.pid := (advances.hasRun _).mpr (Or.inr rfl)
  have still {other : ProcessId} (before : exec.machine.HasRun other) : next.machine.HasRun other :=
    (advances.hasRun _).mpr (Or.inl before)
  exact {
    inv := advances.inv
    lined := lined
    unconditional := advances.unconditional owned.unconditional
    known := fun other => (advances.known other).trans (owned.known other)
    queued := by
      intro waiter cmd' member
      rcases List.mem_append.mp member with old | new
      · exact owned.queued waiter cmd' (List.mem_cons_of_mem _ old)
      · obtain ⟨before,found,rfl⟩ := advances.released waiter cmd' new
        exact owned.waiting waiter before found
    waiting := by
      intro waiter waiting found
      obtain ⟨before,old,same⟩ := advances.waiting waiter waiting found
      rw [same]
      exact owned.waiting waiter before old
    present := by
      intro pipe member
      rcases supplied.ends.opened pipe member with old | used
      · exact owned.present pipe old
      · exact Or.inr ⟨_,cmd,own,used⟩
    reads := by
      intro pipe taken
      rcases supplied.reads pipe taken with old | used
      · rcases owned.reads pipe old with asked | ⟨other,cmd',begun,input,before⟩
        · exact Or.inl asked
        · exact Or.inr ⟨other,cmd',begun,input,still before⟩
      · exact Or.inr ⟨_,cmd,own,used,ran⟩
    writes := by
      intro pipe taken
      rcases supplied.ends.taken pipe taken with old | used
      · obtain ⟨other,cmd',begun,output,before⟩ := owned.writes pipe old
        exact ⟨other,cmd',begun,output,still before⟩
      · exact ⟨_,cmd,own,used,ran⟩
    handed := by
      intro other cmd' begun after
      rcases (advances.hasRun other).mp after with before | rfl
      · exact (owned.handed other cmd' begun before).imp_right fun hands => hands.kept supplied.kept
      · obtain rfl := owners.one own begun
        exact supplied.handed
    piped := supplied.piped owned.piped }

theorem startsAll (owned : Owned commands direct tasks start) (owners : Owners commands direct) (works : Os.Works os) :
    StartsAll os tasks start := by
  intro pid cmd rest middle reaches
  suffices kept : ∀ queue last, Reaches (processTask os) tasks start queue last → Owned commands direct queue last from
    (kept _ _ reaches).startable owners works
  intro queue last reaches
  induction reaches with
  | start => exact owned
  | step before dealt ih => exact ih.step owners dealt

theorem drained (owned : Owned commands direct tasks start) (owners : Owners commands direct)
    (ok : processTasks os tasks start = .ok (.ok (),next)) : Owned commands direct [] next :=
  processTasks_queue (Owned commands direct) (fun _ _ _ _ _ owned ok => owned.step owners ok) owned ok

theorem same (owned : Owned commands direct queue exec) (machine : next.machine = exec.machine)
    (handles : next.openHandles = exec.openHandles) : Owned commands direct queue next where
  inv := machine ▸ owned.inv
  lined := machine ▸ owned.lined
  unconditional := machine ▸ owned.unconditional
  known := machine ▸ owned.known
  queued := owned.queued
  waiting := machine ▸ owned.waiting
  present := handles ▸ owned.present
  reads := by
    rw [machine,handles]
    exact owned.reads
  writes := by
    rw [machine,handles]
    exact owned.writes
  handed pid cmd begun ran := by
    refine (owned.handed pid cmd begun (machine ▸ ran)).imp_right fun hands pipe output => ?_
    rw [handles]
    exact hands pipe output
  piped := handles ▸ owned.piped

theorem finish (owned : Owned commands direct [] exec) {status : ExitStatus}
    (finishes : exec.machine.Finishes pid status tasks next.machine) (running : pid ∈ exec.machine.running)
    (handles : next.openHandles = exec.openHandles) : Owned commands direct tasks next := by
  have advances := finishes.advances owned.inv (Or.inr running)
  have same (other : ProcessId) : next.machine.HasRun other ↔ exec.machine.HasRun other := by
    refine (advances.hasRun other).trans (or_iff_left_of_imp fun self => ?_)
    exact Or.inl (self ▸ running)
  exact {
    inv := advances.inv
    lined := finishes.lined_tasks owned.inv
    unconditional := advances.unconditional owned.unconditional
    known := fun other => (advances.known other).trans (owned.known other)
    queued := by
      intro waiter cmd member
      obtain ⟨before,found,rfl⟩ := advances.released waiter cmd member
      exact owned.waiting waiter before found
    waiting := by
      intro waiter waiting found
      obtain ⟨before,old,same⟩ := advances.waiting waiter waiting found
      rw [same]
      exact owned.waiting waiter before old
    present := handles ▸ owned.present
    reads := by
      simp only [handles,same]
      exact owned.reads
    writes := by
      simp only [handles,same]
      exact owned.writes
    handed := by
      intro other cmd begun ran
      refine (owned.handed other cmd begun ((same other).mp ran)).imp_right fun hands pipe output => ?_
      rw [handles]
      exact hands pipe output
    piped := handles ▸ owned.piped }

theorem complete (owned : Owned commands direct [] exec) (owners : Owners commands direct) (works : Os.Works os)
    (running : pid ∈ exec.machine.running) (exitCode : Int) :
    ∃ next, completed os pid exitCode exec = .ok (.ok (),next) ∧ Owned commands direct [] next := by
  have given : Returns (completed os pid exitCode) exec := by
    refine (completed_returns owned.inv).mpr ⟨works.send _,running,owned.unconditional.undisputed pid _,?_⟩
    intro tasks machine finishes
    have told : Owned commands direct tasks (report { exec with machine } pid exitCode) :=
      owned.finish finishes running rfl
    exact told.startsAll owners works
  obtain ⟨_,next,ok⟩ := given
  refine ⟨next,ok,?_⟩
  obtain ⟨tasks,machine,called,processed⟩ := completed_cases ok
  obtain ⟨_,_,finishes⟩ := owned.inv.completed_cases called
  have told : Owned commands direct tasks (report { exec with machine } pid exitCode) :=
    owned.finish finishes running rfl
  exact told.drained owners processed

theorem edited (owned : Owned commands direct [] exec) (owners : Owners commands direct) (works : Os.Works os)
    {editId : Nat} {path : String} (found : exec.waitingEdits.lookup editId = some (pid,path))
    (running : pid ∈ exec.machine.running) (data : Bytes) :
    ∃ next, finishEdit os editId data exec = .ok (.ok (),next) ∧ Owned commands direct [] next := by
  have forgotten : Owned commands direct [] (written exec editId path data) := owned.same rfl rfl
  obtain ⟨next,ok,after⟩ := forgotten.complete owners works (by exact running) 0
  obtain ⟨_,last,answered⟩ := (finishEdit_returns found).mpr ⟨works.create,works.writeAll,_,_,ok⟩
  refine ⟨last,answered,?_⟩
  obtain ⟨pid',path',found',completed⟩ := finishEdit_cases answered
  obtain ⟨rfl,rfl⟩ := Prod.mk.inj (Option.some.inj (found.symm.trans found'))
  obtain ⟨_,rfl⟩ := Prod.mk.inj (Except.ok.inj (ok.symm.trans completed))
  exact after

theorem enqueued (owned : Owned commands direct [] exec) {commands' : ProcessId → RunCmd → Prop}
    (more : ∀ other cmd', commands' other cmd' ↔ commands other cmd' ∨ other = pid ∧ cmd' = cmd)
    (fresh : ∀ cmd', ¬commands pid cmd') {blockFor : OrderedMap ProcessId Condition}
    (blocks : ∀ entry ∈ blockFor.entries, (∃ cmd', commands entry.1 cmd') ∧ entry.2 = none) :
    ∃ tasks machine, exec.machine.enqueue pid cmd blockFor = .ok (tasks,machine) ∧
      Owned commands' direct tasks { exec with machine } := by
  have unknown : ¬exec.machine.Known pid := fun known => ((owned.known pid).mp known).elim fresh
  have passes : ∀ entry ∈ blockFor.entries, exec.machine.Known entry.1 :=
    fun entry member => (owned.known entry.1).mpr (blocks entry member).1
  obtain ⟨⟨tasks,machine⟩,ok⟩ := (Machine.enqueue_returns_iff _ _ _ _).mpr
    ⟨unknown,Machine.scans_of_known exec.machine blockFor passes⟩
  refine ⟨tasks,machine,ok,?_⟩
  obtain ⟨_,added⟩ := Machine.enqueue_cases _ _ _ _ _ _ ok
  have called : exec.machine.call (.enqueue pid cmd blockFor) = .ok (tasks,machine) := ok
  have cases := owned.inv.call_cases called
  have known (other : ProcessId) : machine.Known other ↔ ∃ cmd', commands' other cmd' := by
    constructor
    · intro known
      rcases cases.known_before known with old | new
      · obtain ⟨cmd',begun⟩ := (owned.known other).mp old
        exact ⟨cmd',(more other cmd').mpr (Or.inl begun)⟩
      · exact ⟨cmd,(more other cmd).mpr (Or.inr ⟨(Option.some.inj new).symm,rfl⟩)⟩
    · intro given
      obtain ⟨cmd',begun⟩ := given
      rcases (more other cmd').mp begun with old | ⟨rfl,_⟩
      · exact cases.known ((owned.known other).mpr ⟨cmd',old⟩)
      · cases added with
        | refused before entry after shape passed refuses =>
          obtain ⟨status,_,against⟩ := refuses
          rw [(blocks entry (by simp [shape])).2] at against
          exact absurd against id
        | ready => exact Or.inr (Or.inl (Finset.mem_insert_self _ _))
        | blocked next passed some after =>
          obtain ⟨conditions,_,shape⟩ := after.waitingOn
          refine Or.inr (Or.inr (Or.inr ?_))
          rw [shape]
          exact Finmap.mem_insert.mpr (Or.inl rfl)
  -- Neither the ends nor who has run depend on what is only enqueued.
  have rest (tasks' : List (Task ProcessId RunCmd)) (ran : ∀ other, machine.HasRun other ↔ exec.machine.HasRun other)
      (lined : machine.Lined tasks') (unconditional : machine.Unconditional)
      (queued : ∀ other cmd', .start other cmd' ∈ tasks' → commands' other cmd')
      (waiting : ∀ other waiting, machine.waitingOn.lookup other = some waiting → commands' other waiting.cmd) :
      Owned commands' direct tasks' { exec with machine } := by
    have still {other : ProcessId} {cmd' : RunCmd} (begun : commands other cmd') : commands' other cmd' :=
      (more other cmd').mpr (Or.inl begun)
    refine ⟨cases.inv owned.inv,lined,unconditional,known,queued,waiting,?_,?_,?_,?_,owned.piped⟩
    · intro pipe member
      rcases owned.present pipe member with asked | ⟨other,cmd',begun,used⟩
      · exact Or.inl asked
      · exact Or.inr ⟨other,cmd',still begun,used⟩
    · intro pipe taken
      rcases owned.reads pipe taken with asked | ⟨other,cmd',begun,input,before⟩
      · exact Or.inl asked
      · exact Or.inr ⟨other,cmd',still begun,input,(ran other).mpr before⟩
    · intro pipe taken
      obtain ⟨other,cmd',begun,output,before⟩ := owned.writes pipe taken
      exact ⟨other,cmd',still begun,output,(ran other).mpr before⟩
    · intro other cmd' begun after
      have before := (ran other).mp after
      rcases (more other cmd').mp begun with old | ⟨rfl,_⟩
      · exact owned.handed other cmd' old before
      · exact absurd (before.elim (Or.inr ∘ Or.inr ∘ Or.inl) Or.inl) unknown
  have held {other : ProcessId} {waiting : Waiting ProcessId RunCmd}
      (found : exec.machine.waitingOn.lookup other = some waiting) : commands' other waiting.cmd :=
    (more other _).mpr (Or.inl (owned.waiting other waiting found))
  cases added with
  | refused before entry after shape passed refuses =>
    obtain ⟨status,_,against⟩ := refuses
    rw [(blocks entry (by simp [shape])).2] at against
    exact absurd against id
  | ready =>
    refine rest _ (fun _ => Iff.rfl) ?_ owned.unconditional ?_ fun other waiting found => held found
    · refine ⟨?_,by simp⟩
      intro task member
      obtain rfl := List.mem_singleton.mp member
      exact ⟨cmd,rfl,Finset.mem_insert_self _ _⟩
    · intro other cmd' member
      obtain ⟨rfl,rfl⟩ := Task.start.inj (List.mem_singleton.mp member)
      exact (more _ _).mpr (Or.inr ⟨rfl,rfl⟩)
  | blocked next passed some after =>
    refine rest _ ?_ ⟨by simp,by simp⟩ (after.unconditional owned.unconditional fun entry member =>
      (blocks entry member).2)
      (by simp) ?_
    · intro other
      rw [Machine.HasRun,after.running,after.finished,Machine.HasRun]
    · intro other waiting found
      obtain ⟨conditions,_,lookup⟩ := after.lookup other
      rw [lookup] at found
      split at found
      · obtain rfl := Option.some.inj found
        exact (more _ _).mpr (Or.inr ⟨by assumption,rfl⟩)
      · exact held found

theorem begins (owned : Owned commands direct [] exec) {commands' : ProcessId → RunCmd → Prop}
    (more : ∀ other cmd', commands' other cmd' ↔ commands other cmd' ∨ other = pid ∧ cmd' = cmd)
    (fresh : ∀ cmd', ¬commands pid cmd') {blockFor : OrderedMap ProcessId Condition}
    (blocks : ∀ entry ∈ blockFor.entries, (∃ cmd', commands entry.1 cmd') ∧ entry.2 = none)
    (owners : Owners commands' direct) (works : Os.Works os) :
    ∃ next, handle os (.enqueue pid cmd blockFor) exec = .ok next ∧ Owned commands' direct [] next := by
  obtain ⟨tasks,machine,enqueued,after⟩ := owned.enqueued more fresh blocks
  obtain ⟨next,processed⟩ := (processTasks_startsAll after.inv after.lined).mpr (after.startsAll owners works)
  refine ⟨next,handle_ok.mpr (bind_ok.mpr ⟨tasks,_,?_,processed⟩),after.drained owners processed⟩
  exact onMachine_ok.mpr ⟨tasks,machine,enqueued,rfl,rfl⟩

theorem taking (owned : Owned commands direct [] exec) {direct' : GenericPipe → Prop}
    (more : ∀ other, direct' other ↔ direct other ∨ other = pipe) (machine : next.machine = exec.machine)
    (ends : ∀ other, other ≠ pipe → next.openHandles.lookup other = exec.openHandles.lookup other)
    (writes : Taken next.openHandles pipe → Taken exec.openHandles pipe) (kept : KeepsTaken exec next)
    (piped : Piped next.openHandles) : Owned commands direct' [] next := by
  have still {other : GenericPipe} (asked : direct other) : direct' other := (more other).mpr (Or.inl asked)
  refine ⟨machine ▸ owned.inv,machine ▸ owned.lined,machine ▸ owned.unconditional,machine ▸ owned.known,owned.queued,
    machine ▸ owned.waiting,?_,?_,?_,?_,piped⟩
  · intro other member
    by_cases same : other = pipe
    · exact Or.inl ((more other).mpr (Or.inr same))
    · obtain ⟨pair,found⟩ := Finmap.mem_iff.mp member
      rw [ends other same] at found
      exact (owned.present other (FiniteMap.mem_of_lookup found)).imp_left still
  · intro other taken
    by_cases same : other = pipe
    · exact Or.inl ((more other).mpr (Or.inr same))
    · rw [machine]
      unfold ReadTaken at taken
      rw [ends other same] at taken
      exact (owned.reads other taken).imp_left still
  · intro other taken
    rw [machine]
    by_cases same : other = pipe
    · subst same
      exact owned.writes other (writes taken)
    · unfold Taken at taken
      rw [ends other same] at taken
      exact owned.writes other taken
  · intro other cmd begun ran
    rw [machine] at ran
    exact (owned.handed other cmd begun ran).imp_right fun hands => hands.kept kept

theorem opens (owned : Owned commands direct [] exec) {output : WritePipe} {direct' : GenericPipe → Prop}
    (more : ∀ other, direct' other ↔ direct other ∨ other = output.toGeneric) (unread : ¬direct output.toGeneric)
    (unused : ∀ pid cmd, commands pid cmd → ¬(cmd.pipes.input output.toGeneric ∨ cmd.pipes.output output.toGeneric))
    (works : Os.Works os) (path : String) :
    ∃ next, handle os (.openOutputFile output path) exec = .ok next ∧ Owned commands direct' [] next := by
  have absent : output.toGeneric ∉ exec.openHandles := by
    intro member
    rcases owned.present _ member with asked | ⟨pid,cmd,begun,used⟩
    · exact unread asked
    · exact unused pid cmd begun used
  have ok : openOutputFile os output path exec = .ok (.ok (),{ exec with
      opened := exec.opened + 1
      openHandles := exec.openHandles.insert output.toGeneric ⟨none,some (.fromFile exec.opened path)⟩ }) := by
    refine lift_bind_ok.mpr ⟨(),(Outcome.assert_ok _ _).mpr absent,bind_ok.mpr ⟨(),exec,?_,rfl⟩⟩
    rw [works.create]
    rfl
  refine ⟨_,handle_ok.mpr ok,owned.taking more rfl ?_ ?_ ?_ (owned.piped.insert nofun)⟩
  · exact fun other different => Finmap.lookup_insert_of_ne _ different
  · intro taken
    obtain ⟨read,found⟩ := taken
    rw [Finmap.lookup_insert] at found
    cases found
  · intro other taken
    refine taken.insert fun same => ?_
    exact absurd (same ▸ taken.present) absent

theorem reading (owned : Owned commands direct [] exec) {direct' : GenericPipe → Prop}
    (more : ∀ other, direct' other ↔ direct other ∨ other = pipe) (unread : ¬direct pipe)
    (unused : ∀ pid cmd, commands pid cmd → ¬cmd.pipes.input pipe) (works : Os.Works os) :
    ∃ next, handle os (.pipeMessage pipe .beginRead) exec = .ok next ∧ Owned commands direct' [] next := by
  have free : ReadFree os exec.openHandles pipe.toRead := by
    refine readFree_of works fun taken => ?_
    rcases owned.reads _ taken with asked | ⟨pid,cmd,begun,input,_⟩
    · exact unread asked
    · exact unused pid cmd begun input
  obtain ⟨handle',middle,read⟩ := readEnd_returns.mpr free
  refine ⟨_,handle_ok.mpr (bind_ok.mpr ⟨handle',middle,read,rfl⟩),?_⟩
  obtain ⟨same,ends,_⟩ := readEnd_ends read
  have kept : KeepsTaken exec middle := (readEnd_taken os _).after read
  refine owned.taking more same.machine ?_ ?_ kept (readEnd_piped owned.piped read).2
  · intro other different
    rcases readEnd_cases read with ⟨write,_,rfl⟩ | ⟨_,_,rfl⟩
    · exact Finmap.lookup_insert_of_ne _ different
    · exact Finmap.lookup_insert_of_ne _ different
  · exact fun taken => (ends.taken _ taken).resolve_right id

theorem readers (owned : Owned commands direct [] exec) {event : ExecEvent} (handled : Handled exec event next)
    (ok : handle os event exec = .ok next) {handle : InputPipe}
    (started : .reader pipe handle ∈ next.effects.drop exec.effects.length) : handle.handle.id? = some pipe := by
  have causes := handled.caused _ started
  generalize shape : Effect.reader pipe handle = effect at causes
  cases causes with
  | closing pid cmd effect requested unfinished closing => cases closing <;> cases shape
  | reader pipe handle asked of =>
    obtain ⟨rfl,rfl⟩ := Effect.reader.inj shape
    subst asked
    obtain ⟨handle',middle,read,rest⟩ := bind_ok.mp (handle_ok.mp ok)
    obtain ⟨_,_,began,last⟩ := bind_ok.mp rest
    obtain ⟨_,rfl⟩ := cause_ok began
    obtain ⟨_,rfl⟩ := Prod.mk.inj (Except.ok.inj last)
    change _ ∈ (middle.effects ++ [Effect.reader _ handle']).drop _ at started
    rw [(readEnd_ends read).1.effects,List.drop_left,List.mem_singleton] at started
    obtain ⟨_,rfl⟩ := Effect.reader.inj started
    exact (readEnd_piped owned.piped read).1
  | _ => cases shape

theorem sends (owned : Owned commands direct [] exec) (works : Os.Works os) (response : RemoteResponse) :
    ∃ next, send os response exec = .ok (.ok (),next) ∧ Owned commands direct [] next := by
  refine ⟨{ exec with effects := exec.effects ++ [.sent response] },bind_ok.mpr ⟨(),exec,?_,rfl⟩,owned.same rfl rfl⟩
  rw [works.send]
  rfl

end Owned

end ExecInternal
end Nak
