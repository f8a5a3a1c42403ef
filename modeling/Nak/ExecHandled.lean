import Nak.ExecResults
import Nak.ExecDuring

/-! What one event leaves behind, for whoever looks at the executor from outside: its
threads, its queue, and the frontend. -/
namespace Nak
open Library Action

def ExecEvent.envelope? : ExecEvent → Option PipeEnvelope
  | .pipeOutput pipe data endOffset => some ⟨pipe.val,.data data endOffset⟩
  | .pipeClosed pipe endOffset => some ⟨pipe.val,.closed endOffset⟩
  | _ => none

def Effect.envelope? : Effect → Option PipeEnvelope
  | .sent (.pipe envelope) => some envelope
  | _ => none

namespace ExecInternal
variable {os : Os} {exec next start : ExecInternal} {event : ExecEvent} {tasks : List (Task ProcessId RunCmd)}

def Requested (exec : ExecInternal) (event : ExecEvent) (pid : ProcessId) (cmd : RunCmd) : Prop :=
  (∃ blockFor, event = .enqueue pid cmd blockFor) ∨
  ∃ waiting, exec.machine.waitingOn.lookup pid = some waiting ∧ waiting.cmd = cmd

inductive Causes (exec : ExecInternal) (event : ExecEvent) : Effect → Prop
  | closing (pid cmd effect) (requested : Requested exec event pid cmd) (unfinished : pid ∉ exec.machine.finished)
      (closing : Closing cmd.pipes effect) : Causes exec event effect
  | spawned (pid cmd child path args stdin stdout stderr) (requested : Requested exec event pid cmd)
      (of : stdin.handle.Of cmd.pipes.stdin.toGeneric ∧ stdout.handle.Of cmd.pipes.stdout.toGeneric ∧
        stderr.handle.Of cmd.pipes.stderr.toGeneric) :
      Causes exec event (.spawned pid child path args stdin stdout stderr)
  | reported (pid code) : Causes exec event (.sent (.commandDone pid code))
  | written (path data) : Causes exec event (.written path data)
  | killed (child) : Causes exec event (.killed child)
  | reader (pipe handle) (asked : event = .pipeMessage pipe .beginRead) (of : handle.handle.Of pipe) :
      Causes exec event (.reader pipe handle)
  | forwarded (envelope) (asked : event.envelope? = some envelope) : Causes exec event (.sent (.pipe envelope))

def About (event : ExecEvent) (pipe : GenericPipe) : Prop :=
  match event with
  | .openOutputFile other _ => pipe = other.toGeneric
  | .openInputFile other _ => pipe = other.toGeneric
  | .pipeMessage other _ => pipe = other
  | _ => False

structure Handled (exec : ExecInternal) (event : ExecEvent) (next : ExecInternal) : Prop where
  inv : Machine.Inv next.machine
  named : Named next.openHandles
  finished : ∀ pid ∈ exec.machine.finished, pid ∈ next.machine.finished
  known : ∀ pid, next.machine.Known pid → exec.machine.Known pid ∨ ∃ cmd blockFor, event = .enqueue pid cmd blockFor
  waiting : ∀ pid waiting, next.machine.waitingOn.lookup pid = some waiting → Requested exec event pid waiting.cmd
  gated : ∀ pid waiter, exec.machine.Gated pid waiter →
    (∀ cmd blockFor, event = .enqueue waiter cmd blockFor → pid ∈ blockFor) → next.machine.Gated pid waiter
  kept : ∀ pipe ∈ exec.openHandles, pipe ∈ next.openHandles
  opened : ∀ pipe ∈ next.openHandles, pipe ∈ exec.openHandles ∨ About event pipe ∨
    ∃ pid cmd, Requested exec event pid cmd ∧ (cmd.pipes.input pipe ∨ cmd.pipes.output pipe)
  taken : ∀ pipe, Taken next.openHandles pipe → Taken exec.openHandles pipe ∨
    (∃ input path, event = .openInputFile input path) ∨
    ∃ pid cmd, Requested exec event pid cmd ∧ cmd.pipes.output pipe ∧ next.machine.Ready pid
  effects : ∃ more, next.effects = exec.effects ++ more ∧ (∀ effect ∈ more, Causes exec event effect) ∧
    more.filterMap Effect.envelope? = event.envelope?.toList
  readers : ∀ pipe, event = .pipeMessage pipe .beginRead → pipe ∈ next.openHandles
  completed : ∀ pid, Completes exec event pid →
    active next.machine pid + spawned pid exec.effects = spawned pid next.effects
  uncompleted : ∀ pid, ¬Completes exec event pid →
    active next.machine pid + spawned pid exec.effects = active exec.machine pid + spawned pid next.effects
  edited : Edited exec → Edited next

namespace Handled

theorem appended (handled : Handled exec event next) :
    next.effects = exec.effects ++ next.effects.drop exec.effects.length := by
  obtain ⟨more,effects,_⟩ := handled.effects
  rw [effects,List.drop_left]

theorem caused (handled : Handled exec event next) :
    ∀ effect ∈ next.effects.drop exec.effects.length, Causes exec event effect := by
  obtain ⟨more,effects,causes,_⟩ := handled.effects
  rwa [effects,List.drop_left]

theorem announced (handled : Handled exec event next) :
    (next.effects.drop exec.effects.length).filterMap Effect.envelope? = event.envelope?.toList := by
  obtain ⟨more,effects,_,sent⟩ := handled.effects
  rwa [effects,List.drop_left]

end Handled

theorem Causes.silent {effect : Effect} (causes : Causes exec event effect) (silent : event.envelope? = none) :
    effect.envelope? = none := by
  cases causes with
  | closing pid cmd effect requested unfinished closing =>
    cases closing with
    | sent response other =>
      cases response with
      | pipe envelope => exact absurd rfl (other envelope)
      | _ => rfl
    | _ => rfl
  | forwarded envelope asked => simp [silent] at asked
  | _ => rfl

/-- What a call on the machine and the tasks it leaves do together. -/
private theorem Handled.of_tasks {call : Call ProcessId RunCmd ProcessState} (before : List Effect)
    (processed : processTasks os tasks start = .ok (.ok (),next))
    (inv : Machine.Inv exec.machine) (named : Named exec.openHandles)
    (cases : Machine.CallCases exec.machine call tasks start.machine)
    (arrives : ∀ pid cmd blockFor, call = .enqueue pid cmd blockFor ↔ event = .enqueue pid cmd blockFor)
    (handles : start.openHandles = exec.openHandles) (effects : start.effects = exec.effects ++ before)
    (causes : ∀ effect ∈ before, Causes exec event effect) (childless : ∀ pid, spawned pid before = 0)
    (asked : ∀ pid cmd, .start pid cmd ∈ tasks → Requested exec event pid cmd)
    (silent : event.envelope? = none) (unread : ∀ pipe, event ≠ .pipeMessage pipe .beginRead)
    (completed : ∀ pid, Completes exec event pid → active start.machine pid = 0)
    (uncompleted : ∀ pid, ¬Completes exec event pid → active start.machine pid = active exec.machine pid)
    (edited : Edited exec → Edited start) :
    Handled exec event next := by
  have during := processTasks_during (cases.inv inv) (handles ▸ named) processed
  have requested (pid : ProcessId) (cmd : RunCmd) (due : Asked tasks start pid cmd) : Requested exec event pid cmd := by
    rcases due with task | ⟨waiting,found,same⟩
    · exact asked pid cmd task
    · rcases cases.waiting_before found with ⟨earlier,old,same'⟩ | ⟨blockFor,call,_⟩
      · exact Or.inr ⟨earlier,old,same'.symm.trans same⟩
      · exact Or.inl ⟨blockFor,same ▸ (arrives _ _ _).mp call⟩
  have finished (pid : ProcessId) (member : pid ∈ exec.machine.finished) : pid ∈ start.machine.finished :=
    cases.finished_kept inv member
  obtain ⟨more,appended,all⟩ := during.effects
  have caused : ∀ effect ∈ more, Causes exec event effect := by
    intro effect member
    cases all effect member with
    | closing pid cmd effect due unfinished closing =>
      exact .closing pid cmd effect (requested pid cmd due) (fun member => unfinished (finished pid member)) closing
    | spawned pid cmd child path args stdin stdout stderr due of =>
      exact .spawned pid cmd child path args stdin stdout stderr (requested pid cmd due) of
    | reported pid code => exact .reported pid code
  have whole : ∀ effect ∈ before ++ more, Causes exec event effect := by
    intro effect member
    exact (List.mem_append.mp member).elim (causes effect) (caused effect)
  have counted (pid : ProcessId) : active next.machine pid + spawned pid exec.effects =
      active start.machine pid + spawned pid next.effects := by
    have total := during.children pid
    have zero := childless pid
    rw [effects] at total
    simp only [spawned,List.countP_append] at total zero ⊢
    omega
  exact {
    inv := during.inv
    named := during.named
    finished := fun pid member => during.onward.finished pid (finished pid member)
    known := by
      intro pid known
      rcases cases.known_before (during.onward.known pid known) with old | new
      · exact Or.inl old
      · cases call with
        | enqueue other cmd blockFor =>
          obtain rfl := Option.some.inj new
          exact Or.inr ⟨cmd,blockFor,(arrives _ _ _).mp rfl⟩
        | _ => cases new
    waiting := by
      intro pid waiting found
      obtain ⟨earlier,old,same⟩ := during.onward.waiting pid waiting found
      exact requested pid waiting.cmd (Or.inr ⟨earlier,old,same.symm⟩)
    gated := by
      intro pid waiter gated blocks
      refine during.onward.gated pid waiter (cases.gated gated ?_)
      intro cmd blockFor call
      exact blocks cmd blockFor ((arrives _ _ _).mp call)
    kept := fun pipe member => during.kept pipe (handles ▸ member)
    opened := by
      intro pipe member
      rcases during.opened pipe member with old | ⟨pid,cmd,due,used⟩
      · exact Or.inl (handles ▸ old)
      · exact Or.inr (Or.inr ⟨pid,cmd,requested pid cmd due,used⟩)
    taken := by
      intro pipe taken
      rcases during.taken pipe taken with old | ⟨pid,cmd,due,output,ready⟩
      · exact Or.inl (handles ▸ old)
      · exact Or.inr (Or.inr ⟨pid,cmd,requested pid cmd due,output,ready⟩)
    effects := by
      refine ⟨before ++ more,by rw [appended,effects,List.append_assoc],whole,?_⟩
      rw [silent,Option.toList_none,List.filterMap_eq_nil_iff]
      exact fun effect member => (whole effect member).silent silent
    readers := fun pipe same => absurd same (unread pipe)
    completed := by
      intro pid completes
      rw [counted,completed pid completes,Nat.zero_add]
    uncompleted := by
      intro pid other
      rw [counted,uncompleted pid other]
    edited := fun before => during.edited (edited before) }

private theorem enqueued_handled {pid : ProcessId} {cmd : RunCmd} {blockFor : OrderedMap ProcessId Condition}
    {machine : Machine ProcessId RunCmd ProcessState} (inv : Machine.Inv exec.machine) (named : Named exec.openHandles)
    (enqueued : exec.machine.enqueue pid cmd blockFor = .ok (tasks,machine))
    (processed : processTasks os tasks { exec with machine } = .ok (.ok (),next)) :
    Handled exec (.enqueue pid cmd blockFor) next := by
  have call : exec.machine.call (.enqueue pid cmd blockFor) = .ok (tasks,machine) := enqueued
  obtain ⟨_,added⟩ := Machine.enqueue_cases _ _ _ _ _ _ enqueued
  have same : machine.running = exec.machine.running ∧ machine.finished = exec.machine.finished ∧
      ∀ other cmd', .start other cmd' ∈ tasks → other = pid ∧ cmd' = cmd := by
    cases added with
    | refused => exact ⟨rfl,rfl,by simp⟩
    | ready => exact ⟨rfl,rfl,by simp⟩
    | blocked _ _ _ after => exact ⟨after.running,after.finished,by simp⟩
  obtain ⟨running,finished,own⟩ := same
  have still (other : ProcessId) : active machine other = active exec.machine other := by rw [active,running,active]
  refine Handled.of_tasks [] processed inv named (inv.call_cases call) ?_ rfl (by rw [List.append_nil]) (by simp)
    (fun _ => rfl) ?_ rfl ?_ (fun _ => False.elim) ?_ ?_
  · intro other cmd' blockFor'
    constructor
    · intro shape
      cases shape
      rfl
    · intro shape
      cases shape
      rfl
  · intro other cmd' member
    obtain ⟨rfl,rfl⟩ := own other cmd' member
    exact Or.inl ⟨blockFor,rfl⟩
  · intro pipe asks
    cases asks
  · exact fun other _ => still other
  · intro edited editId entry found
    change entry.1 ∈ machine.finished ∨ machine.running.lookup entry.1 = _
    rw [running,finished]
    exact edited editId entry found

private theorem completed_handled {pid : ProcessId} {status : ExitStatus} (before : List Effect)
    (processed : processTasks os tasks start = .ok (.ok (),next))
    (inv : Machine.Inv exec.machine) (named : Named exec.openHandles)
    (completed : exec.machine.completed pid status = .ok (tasks,start.machine))
    (arrives : ∀ pid cmd blockFor, event ≠ .enqueue pid cmd blockFor)
    (completes : ∀ other, Completes exec event other ↔ other = pid)
    (handles : start.openHandles = exec.openHandles) (effects : start.effects = exec.effects ++ before)
    (causes : ∀ effect ∈ before, Causes exec event effect) (childless : ∀ pid, spawned pid before = 0)
    (silent : event.envelope? = none) (unread : ∀ pipe, event ≠ .pipeMessage pipe .beginRead)
    (edits : ∀ editId entry, start.waitingEdits.lookup editId = some entry →
      exec.waitingEdits.lookup editId = some entry) : Handled exec event next := by
  have call : exec.machine.call (.completed pid status) = .ok (tasks,start.machine) := completed
  obtain ⟨_,_,finishes⟩ := inv.completed_cases completed
  refine Handled.of_tasks before processed inv named
    (inv.call_cases call) ?_ handles effects causes childless ?_ silent unread
    ?_ ?_ ?_
  · intro other cmd blockFor
    exact ⟨nofun,fun same => absurd same (arrives other cmd blockFor)⟩
  · intro other cmd member
    obtain ⟨waiter,waiting,found,shape,_⟩ := finishes.task_starts inv member
    obtain ⟨rfl,rfl⟩ := Task.start.inj shape
    exact Or.inr ⟨waiting,found,rfl⟩
  · intro other same
    rw [active_finishes finishes,if_pos ((completes other).mp same)]
  · intro other different
    rw [active_finishes finishes,if_neg fun same => different ((completes other).mpr same)]
  · intro edited editId entry found
    exact finishes_edits finishes entry.1 (edited editId entry (edits editId entry found))

private theorem Handled.of_ends (more : List Effect) (inputs outputs : GenericPipe → Prop)
    (inv : Machine.Inv exec.machine) (named : Named exec.openHandles) (machine : next.machine = exec.machine)
    (edits : next.waitingEdits = exec.waitingEdits) (effects : next.effects = exec.effects ++ more)
    (causes : ∀ effect ∈ more, Causes exec event effect) (childless : ∀ pid, spawned pid more = 0)
    (envelopes : more.filterMap Effect.envelope? = event.envelope?.toList)
    (ends : Ends inputs outputs exec.openHandles next.openHandles)
    (about : ∀ pipe, inputs pipe ∨ outputs pipe → About event pipe)
    (taken : ∀ pipe, outputs pipe → ∃ input path, event = .openInputFile input path)
    (readers : ∀ pipe, event = .pipeMessage pipe .beginRead → pipe ∈ next.openHandles)
    (incomplete : ∀ pid, ¬Completes exec event pid) : Handled exec event next where
  inv := machine ▸ inv
  named := ends.named named
  finished pid member := machine ▸ member
  known pid known := Or.inl (machine ▸ known)
  waiting pid waiting found := Or.inr ⟨waiting,machine ▸ found,rfl⟩
  gated pid waiter gated _ := machine ▸ gated
  kept := ends.kept
  opened pipe member := (ends.opened pipe member).imp_right fun used => Or.inl (about pipe used)
  taken pipe isTaken := (ends.taken pipe isTaken).imp_right fun used => Or.inl (taken pipe used)
  effects := ⟨more,effects,causes,envelopes⟩
  readers := readers
  completed pid completes := absurd completes (incomplete pid)
  uncompleted := by
    intro pid _
    have zero := childless pid
    rw [machine,effects]
    simp only [spawned,List.countP_append] at zero ⊢
    omega
  edited edited editId entry found := by
    rw [machine]
    exact edited editId entry (edits ▸ found)

private theorem send_ok {response : RemoteResponse} (ok : send os response exec = .ok (.ok (),next)) :
    next = { exec with effects := exec.effects ++ [.sent response] } := by
  obtain ⟨_,_,sent,caused⟩ := bind_ok.mp ok
  obtain ⟨_,rfl⟩ := Prod.mk.inj (Except.ok.inj sent)
  exact (cause_ok caused).2

private theorem openOutputFile_handled {pipe : WritePipe} {path : String} (inv : Machine.Inv exec.machine)
    (named : Named exec.openHandles) (ok : openOutputFile os pipe path exec = .ok (.ok (),next)) :
    Handled exec (.openOutputFile pipe path) next := by
  obtain ⟨_,rfl⟩ := openOutputFile_ok ok
  have ends : Ends (· = pipe.toGeneric) (fun _ => False) exec.openHandles (exec.openHandles.insert pipe.toGeneric
      ⟨none,some (.fromFile exec.opened path)⟩) := by
    refine Ends.insert (Or.inr (Or.inl ?_)) ?_ ?_
    · rfl
    · intro _
      refine ⟨nofun,?_⟩
      intro output shape id shape'
      cases shape
      cases shape'
    · nofun
  exact .of_ends [] _ _ inv named rfl rfl (by rw [List.append_nil]) (by simp) (fun _ => rfl) rfl ends
    (fun _ used => used.resolve_right id) (fun _ => False.elim) nofun (fun _ => id)

private theorem openInputFile_handled {pipe : ReadPipe} {path : String} (inv : Machine.Inv exec.machine)
    (named : Named exec.openHandles) (ok : openInputFile os pipe path exec = .ok (.ok (),next)) :
    Handled exec (.openInputFile pipe path) next := by
  obtain ⟨_,rfl⟩ := openInputFile_ok ok
  have ends : Ends (fun _ => False) (· = pipe.toGeneric) exec.openHandles (exec.openHandles.insert pipe.toGeneric
      ⟨some (.fromFile exec.opened path),none⟩) := by
    refine Ends.insert (Or.inr (Or.inr ?_)) ?_ ?_
    · rfl
    · intro _
      refine ⟨?_,nofun⟩
      intro input shape id shape'
      cases shape
      cases shape'
    · exact fun _ => Or.inr rfl
  exact .of_ends [] _ _ inv named rfl rfl (by rw [List.append_nil]) (by simp) (fun _ => rfl) rfl ends
    (fun _ used => used.resolve_left id) (fun _ _ => ⟨pipe,path,rfl⟩) nofun (fun _ => id)

private theorem pipeMessage_handled {pipe : GenericPipe} {msg : PipeMessage} (inv : Machine.Inv exec.machine)
    (named : Named exec.openHandles) (ok : pipeMessage os pipe msg exec = .ok (.ok (),next)) :
    Handled exec (.pipeMessage pipe msg) next := by
  cases msg with
  | beginRead =>
    obtain ⟨handle,middle,ended,ok⟩ := bind_ok.mp ok
    obtain ⟨_,_,caused,ok⟩ := bind_ok.mp ok
    obtain ⟨_,rfl⟩ := cause_ok caused
    obtain ⟨_,rfl⟩ := Prod.mk.inj (Except.ok.inj ok)
    obtain ⟨same,ends,of,present⟩ := readEnd_ends ended
    refine .of_ends [.reader pipe handle] _ _ inv named same.machine same.waitingEdits ?_ ?_ (fun _ => rfl) rfl
      ends (fun _ used => used.resolve_right id) (fun _ => False.elim) ?_ (fun _ => id)
    · rw [same.effects]
    · intro effect member
      rw [List.mem_singleton.mp member]
      exact .reader pipe handle rfl (of named)
    · intro other shape
      cases shape
      exact present
  | read limit =>
    obtain ⟨_,rfl⟩ := pure_ok.mp ok
    exact .of_ends [] (fun _ => False) (fun _ => False) inv named rfl rfl
      (by rw [List.append_nil]) (by simp) (fun _ => rfl) rfl .refl (fun _ => by simp) (fun _ => False.elim) nofun
      (fun _ => id)
  | closed => cases ok
  | data => cases ok

private theorem sent_handled {envelope : PipeEnvelope} (inv : Machine.Inv exec.machine)
    (named : Named exec.openHandles) (asked : event.envelope? = some envelope)
    (ok : send os (.pipe envelope) exec = .ok (.ok (),next)) : Handled exec event next := by
  obtain rfl := send_ok ok
  refine .of_ends [.sent (.pipe envelope)] (fun _ => False) (fun _ => False) inv named
    rfl rfl rfl ?_ (fun _ => rfl) ?_ .refl (fun _ => by simp) (fun _ => False.elim) ?_ ?_
  · intro effect member
    rw [List.mem_singleton.mp member]
    exact .forwarded envelope asked
  · rw [asked]
    rfl
  · intro pipe same
    obtain rfl := same
    cases asked
  · intro pid completes
    cases event <;> first | exact completes | cases asked

private theorem cancel_handled {pid : ProcessId} (inv : Machine.Inv exec.machine) (named : Named exec.openHandles)
    (ok : cancel os pid exec = .ok (.ok (),next)) : Handled exec (.cancelExec pid) next := by
  obtain ⟨more,rfl,all⟩ := cancel_ok ok
  refine .of_ends more (fun _ => False) (fun _ => False) inv named rfl rfl rfl ?_ ?_ ?_
    .refl (fun _ => by simp) (fun _ => False.elim) nofun (fun _ => id)
  · intro effect member
    obtain ⟨child,rfl⟩ := all effect member
    exact .killed child
  · intro other
    rw [spawned,List.countP_eq_zero]
    intro effect member
    obtain ⟨child,rfl⟩ := all effect member
    simp [childOf]
  · refine List.filterMap_eq_nil_iff.mpr ?_
    intro effect member
    obtain ⟨child,rfl⟩ := all effect member
    rfl

theorem handle_handled (inv : Machine.Inv exec.machine) (named : Named exec.openHandles)
    (ok : handle os event exec = .ok next) : Handled exec event next := by
  have done := handle_ok.mp ok
  cases event with
  | enqueue pid cmd blockFor =>
    obtain ⟨tasks,middle,called,processed⟩ := bind_ok.mp done
    obtain ⟨_,machine,enqueued,same,rfl⟩ := onMachine_ok.mp called
    obtain rfl := Except.ok.inj same
    exact enqueued_handled inv named enqueued processed
  | completed pid exitCode =>
    obtain ⟨tasks,machine,completed,processed⟩ := completed_cases done
    refine completed_handled [.sent (.commandDone pid exitCode)] processed inv named completed nofun ?_ rfl rfl ?_
      ?_ rfl nofun
      (fun _ _ => id)
    · exact fun other => eq_comm
    · intro effect member
      exact List.mem_singleton.mp member ▸ .reported pid exitCode
    · exact fun _ => rfl
  | editComplete editId data =>
    obtain ⟨pid,path,found,done⟩ := finishEdit_cases done
    obtain ⟨tasks,machine,completed,processed⟩ := completed_cases done
    refine completed_handled [.written path data,
      .sent (.commandDone pid 0)] processed inv named completed nofun ?_ rfl ?_ ?_ ?_
      rfl nofun ?_
    · intro other
      simp [Completes,found,eq_comm]
    · simp [report]
    · intro effect member
      rcases List.mem_cons.mp member with same | last
      · exact same ▸ .written path data
      · exact List.mem_singleton.mp last ▸ .reported pid 0
    · exact fun _ => rfl
    · intro other entry lookup
      change (exec.waitingEdits.erase editId).lookup other = some entry at lookup
      rw [FiniteMap.lookup_erase_if] at lookup
      split at lookup
      · cases lookup
      · exact lookup
  | openOutputFile pipe path => exact openOutputFile_handled inv named done
  | openInputFile pipe path => exact openInputFile_handled inv named done
  | cancelExec pid => exact cancel_handled inv named done
  | pipeClosed pipe endOffset => exact sent_handled inv named rfl done
  | pipeOutput pipe data endOffset => exact sent_handled inv named rfl done
  | pipeMessage pipe msg => exact pipeMessage_handled inv named done

theorem reachable_named (reachable : system.Reachable exec) : Named exec.openHandles := by
  suffices both : Machine.Inv exec.machine ∧ Named exec.openHandles from both.2
  refine reachable.invariant (fun exec => Machine.Inv exec.machine ∧ Named exec.openHandles) ?_ ?_
  · intro _ same
    obtain rfl := same
    exact ⟨Machine.inv_new,nofun⟩
  · intro exec label next both taken
    have handled := handle_handled both.1 both.2 taken
    exact ⟨handled.inv,handled.named⟩

end ExecInternal
end Nak
