import Nak.ExecTasks

/-! A command that cannot be spawned. `run` has taken the write ends of the command out of
`open_handles` when `spawn` fails, and the clean-up of `process_tasks` asks for them again. -/
namespace Nak.ExecInternal
open Library Action
variable {os : Os} {exec next : ExecInternal}

/-- Handling the tasks reports the failed start of a command and goes on to the end. -/
structure SpawnReported (os : Os) (exec : ExecInternal) (tasks : List (Task ProcessId RunCmd)) (pid : ProcessId)
    (pipes : WritePipes) (e : Error) (next : ExecInternal) : Prop where
  returns : processTasks os tasks exec = .ok (.ok (),next)
  text : ∃ handle, .writer pipes.stderr handle (bytes e.debug) ∈ next.effects
  closed : ∃ handle, .dropped pipes.stdout handle ∈ next.effects
  result : ∃ code, code ≠ 0 ∧ results pid next.effects = results pid exec.effects ++ [code]

private theorem unspawned_taken {pid : ProcessId} {path : String} {args : List String} {pipes : WritePipes} {e : Error}
    (ran : run os pid ⟨.unknown path args,pipes⟩ exec = .ok (.error e,next)) :
    ∃ read, next.openHandles.lookup pipes.stdout.toGeneric = some ⟨read,none⟩ := by
  obtain ⟨_,_,_,ran⟩ := (cause_errorless _).continues ran
  obtain ⟨stdin,_,_,ran⟩ := (readEnd_errorless os _).continues ran
  obtain ⟨stdout,middle,first,ran⟩ := (writeEnd_errorless os _).continues ran
  obtain ⟨stderr,after,second,ran⟩ := (writeEnd_errorless os _).continues ran
  have same : next = after := by
    rcases bind_raised.mp ran with raised | ⟨_,_,_,caused⟩
    · exact (Prod.mk.inj (Except.ok.inj raised)).2.symm
    · exact absurd caused (Errorless.bind (cause_errorless _) fun _ => Errorless.pure _).never
  obtain ⟨⟨read,taken⟩,_⟩ := writeEnd_takes first
  by_cases shared : pipes.stdout.toGeneric = pipes.stderr.toGeneric
  · have taken' : middle.openHandles.lookup pipes.stderr.toGeneric = some ⟨read,none⟩ := by rw [← shared]; exact taken
    rw [writeEnd_again taken'] at second
    cases second
  · refine ⟨read,?_⟩
    rw [same,(writeEnd_takes second).2 _ shared]
    exact taken

/-- The error arm of `process_tasks` panics when the error is that of `spawn`. -/
theorem unspawned_panics {pid : ProcessId} {path : String} {args : List String} {pipes : WritePipes}
    {tasks : List (Task ProcessId RunCmd)} {e : Error} (fails : os.spawn pid = .error e) :
    processTask os (.start pid ⟨.unknown path args,pipes⟩) exec ≠ .ok (.ok tasks,next) := by
  intro ok
  cases processTask_cases ok with
  | started _ _ state middle ran =>
    have cases := run_cases ran
    cases cases with
    | spawned _ _ child spawn => simp [fails] at spawn
  | done _ _ exitCode middle tasks machine ran =>
    have cases := run_cases ran
    cases cases
  | failed _ _ e middle tasks machine after ran quiet completed closed =>
    obtain ⟨read,taken⟩ := unspawned_taken ran
    obtain ⟨handle,_,first,_⟩ := (writeEnd_errorless os _).continues closed
    rw [writeEnd_again (by exact taken)] at first
    cases first

/-- No state and no list of tasks lets the event loop survive a failed spawn: handling the
tasks never comes to its end, so nothing of what should be reported is. -/
theorem spawn_failure_unreported (os : Os) (exec : ExecInternal) (tasks : List (Task ProcessId RunCmd))
    (pid : ProcessId) (path : String) (args : List String) (pipes : WritePipes) (e : Error)
    (listed : .start pid ⟨.unknown path args,pipes⟩ ∈ tasks) (fails : os.spawn pid = .error e)
    (next : ExecInternal) : ¬SpawnReported os exec tasks pid pipes e next := by
  intro reported
  have left := processTasks_queue (fun queue _ => .start pid ⟨.unknown path args,pipes⟩ ∈ queue) ?_ listed
    reported.returns
  · cases left
  · intro task rest exec new next listed ok
    rcases List.mem_cons.mp listed with rfl | later
    · exact absurd ok (unspawned_panics fails)
    · exact List.mem_append_left _ later

private def missing : Os := { Os.working with spawn := fun _ => .error ⟨.notFound,"No such file"⟩ }

private def lonely : RunCmd := ⟨.unknown "missing" [],⟨1⟩,⟨2⟩,⟨3⟩⟩

theorem spawn_failure_unreported_missing : ¬∃ next, SpawnReported missing new [.start ⟨0⟩ lonely] ⟨0⟩ lonely.pipes
    ⟨.notFound,"No such file"⟩ next := by
  intro given
  obtain ⟨next,reported⟩ := given
  exact spawn_failure_unreported missing new [.start ⟨0⟩ lonely] ⟨0⟩ "missing" [] lonely.pipes
    ⟨.notFound,"No such file"⟩ (by simp [lonely]) rfl next reported

/-- The first command of a backend names a program that does not exist: the event loop dies. -/
theorem spawn_failure_fatal : system.Reachable new ∧
    handle missing (.enqueue ⟨0⟩ lonely ∅) new = .error (.expect "write side taken") :=
  ⟨⟨[],.initial rfl⟩,rfl⟩

end Nak.ExecInternal
